import PackScript.Proofs.Rollback

namespace PackScript

/-!
# What a failing block leaves behind

A block that cannot be compiled is taken back. What stands before it, and every function
declaration, is reported as it is without the block. The statements behind it start from the state
that they start from without it, up to names that are used up and to notes about what is gone. Slots
are not handed out again, so notes about them do no harm. The ids of scopes are: a name that was
bound ahead in the block counts for the next scope of the same id.

* `Compile.block_ahead` — a block notes no name ahead in a scope that is there.
* `Compiler.hoist_block` — a block without a `var` binds nothing ahead of the script.
* `failing_block_leaves_notes` — what is reported of a script with a failing block, and the state
  that the block leaves.
* `failing_block_hides_clash` — a note about a scope that is gone.
-/

/-! ### Names that are bound ahead -/

namespace Compile

variable {G : Uses} {s after : Compiler} {b : Block} {d : Diagnostic}

/-- The names of a block are noted for its own scope, and for further ones inside. -/
theorem block_ahead (hs : AtTop G s) (hfail : statement (.block b) s = .error d after) :
    ∀ e : ScopeId × String, e.1 < s.scopes.list.length → (e ∈ after.hoisted ↔ e ∈ s.hoisted) := by
  intro e hold
  have h := hs.orderly (s.terms True)
  have hbody : GoesOn (.top (s.terms True)) G (openScope s)
      (stmts (lowering (Stmt.block b).size) b.body) :=
    stmts_leads (lowering_leads _) (openScope_orderly h) (nested_openScope h (hs.stmtOk _))
  have hrun : statement (.block b) s =
      ensuring (stmts (lowering (Stmt.block b).size) b.body)
        (modify fun s => { s with current.scopes := s.current.scopes.dropLast })
          (openScope s) := rfl
  rw [hrun, ensuring_run] at hfail
  unfold GoesOn Leads LeadsIn Ends at hbody
  cases hstmts : stmts (lowering (Stmt.block b).size) b.body (openScope s) with
  | ok _ s' => simp [hstmts] at hfail
  | error _ s' =>
    rw [hstmts] at hfail hbody
    obtain ⟨G', hadvances⟩ := hbody
    obtain ⟨rfl, rfl⟩ := EStateM.Result.error.inj hfail
    exact hadvances.ahead e (openScope_old hold) (openScope_innermost hold)

end Compile

theorem stmtsVarIdents_append (a b : List Stmt) :
    stmtsVarIdents (a ++ b) = stmtsVarIdents a ++ stmtsVarIdents b := by
  induction a with
  | nil => rw [stmtsVarIdents, List.nil_append, List.nil_append]
  | cons stmt rest ih =>
    rw [List.cons_append, stmtsVarIdents, stmtsVarIdents, ih, List.append_assoc]

section

variable (s : Compiler) (pre post : List Stmt) (b : Block)

theorem Compiler.hoist_block (hvars : stmtsVarIdents b.body = []) :
    s.hoist (pre ++ .block b :: post) = s.hoist (pre ++ post) := by
  have hidents : stmtsVarIdents (pre ++ .block b :: post) = stmtsVarIdents (pre ++ post) := by
    obtain ⟨body, span⟩ := b
    have hbody : stmtsVarIdents body = [] := hvars
    rw [stmtsVarIdents_append, stmtsVarIdents_append, stmtsVarIdents, Stmt.varIdents, hbody,
      List.nil_append]
  have hnames : (pre ++ .block b :: post).flatMap Compile.lexicalNames =
      (pre ++ post).flatMap Compile.lexicalNames := by
    simp [Compile.lexicalNames]
  simp only [hoist, Compile.hoistBody, Compile.hoistNames, hidents, hnames]

/-! ### The order of statements -/

/-- What is compiled ahead of a statement that stands between others. -/
def compiledFirst : List Stmt :=
  (pre ++ post).filter (·.isFunction) ++ pre.filter (!·.isFunction)

/-- What is compiled after it. -/
def compiledLater : List Stmt :=
  post.filter (!·.isFunction)

theorem functionsFirst_append :
    functionsFirst (pre ++ post) = compiledFirst pre post ++ compiledLater post := by
  simp [functionsFirst, compiledFirst, compiledLater]

theorem functionsFirst_block :
    functionsFirst (pre ++ .block b :: post) =
      compiledFirst pre post ++ .block b :: compiledLater post := by
  simp [functionsFirst, compiledFirst, compiledLater, Stmt.isFunction]

theorem Compiler.statements_append (first later : List Stmt) :
    (s.statements (first ++ later)).2 =
      (s.statements first).2 ++ ((s.statements first).1.statements later).2 := by
  induction first generalizing s with
  | nil => rfl
  | cons stmt rest ih =>
    show (s.statement stmt).2 ++ ((s.statement stmt).1.statements (rest ++ later)).2 = _
    rw [ih, ← List.append_assoc]
    rfl

end

theorem Between.statements {s : Compiler} (h : Between s) (body : List Stmt) :
    Between (s.statements body).1 := by
  induction body generalizing s with
  | nil => exact h
  | cons stmt rest ih => exact ih (h.statement stmt)

/-! ### Scripts with a failing block -/

/-- The second state is the first one, apart from names that were used up and from notes about slots
    and scopes that the first one does not have. -/
structure Compiler.LeavesNotes (s s' : Compiler) : Prop extends s.Restores s' where
  loops : ∀ table ∈ s.scopes.list, ∀ e ∈ table,
    s'.loopBindings.lookup e.2.slot = s.loopBindings.lookup e.2.slot
  /-- No slot is noted that is yet to be handed out -/
  slots : ∀ e ∈ s'.loopBindings, e.1.index < s'.names.slots
  ahead : ∀ e : ScopeId × String, e.1 < s.scopes.list.length →
    (e ∈ s'.hoisted ↔ e ∈ s.hoisted)

theorem failed_block {s : Compiler} {b : Block} (hs : Between s)
    (hfail : (s.statement (.block b)).2 ≠ []) :
    ∃ d s', s.statement (.block b) = (s', [d]) ∧ s.LeavesNotes s' := by
  obtain ⟨G, htop, hdeclared⟩ := hs.typed
  cases hrun : Compile.statement (.block b) s with
  | ok _ after => exact absurd (by rw [Compiler.statement_of_ok hrun]) hfail
  | error d after =>
    obtain ⟨G', hext, hstatement⟩ := failed_statement htop hdeclared hrun
    exact ⟨d, s.leftBy after, hstatement,
      { hext.leftBy_restores htop rfl with
        loops := fun table htable e he => hext.lookup_eq htop htable he
        slots := hext.orderly.scopes.noted
        ahead := fun e hold => Compile.block_ahead htop hrun e hold }⟩

/-- A block without a `var` that fails is reported by one diagnostic. What is compiled ahead of it
    is reported as without it, and the rest is compiled from a state that differs by notes only. -/
theorem failing_block_leaves_notes {s : Compiler} (pre post : List Stmt) {b : Block}
    (hs : Between s) (hvars : stmtsVarIdents b.body = [])
    (hfail : (((s.hoist (pre ++ post)).statements
      (compiledFirst pre post)).1.statement (.block b)).2 ≠ []) :
    let first := (s.hoist (pre ++ post)).statements (compiledFirst pre post)
    ∃ d s', first.1.LeavesNotes s' ∧
      (s.script ⟨pre ++ post⟩).2 =
        first.2 ++ (first.1.statements (compiledLater post)).2 ∧
      (s.script ⟨pre ++ .block b :: post⟩).2 =
        first.2 ++ d :: (s'.statements (compiledLater post)).2 := by
  intro first
  have hbetween : Between first.1 := (hs.hoist (pre ++ post)).statements _
  obtain ⟨d, s', hstatement, hleaves⟩ := failed_block hbetween hfail
  refine ⟨d, s', hleaves, ?_, ?_⟩
  · rw [Compiler.script, functionsFirst_append, Compiler.statements_append]
  · rw [Compiler.script, s.hoist_block pre post b hvars, functionsFirst_block,
      Compiler.statements_append]
    show first.2 ++ (first.1.statements (.block b :: compiledLater post)).2 = _
    rw [Compiler.statements, hstatement]
    rfl

/-- `{ unsupported; let y; }` -/
def failingBlock : Block :=
  ⟨[.unsupported "try statement" .origin,
    .declare ⟨.letDecl, [⟨.ident ⟨"y", .origin⟩, none, .origin⟩], .origin⟩], .origin⟩

theorem failing_block_leaves_notes_between :
    let function := loopingFunction "f" (.empty .origin)
    let unsupported : Stmt := .unsupported "try statement" .origin
    let first := ((Compiler.start "pack").hoist [function, unsupported]).statements [function]
    first.2 = [] ∧ (first.1.statement (.block failingBlock)).2 ≠ [] ∧
      ∃ d s', first.1.LeavesNotes s' ∧
        ((Compiler.start "pack").script ⟨[function, .block failingBlock, unsupported]⟩).2 =
          d :: (s'.statements [unsupported]).2 := by
  intro function unsupported first
  have hfail : first.2 = [] ∧ (first.1.statement (.block failingBlock)).2 ≠ [] := by
    decide +kernel
  obtain ⟨d, s', hleaves, _, hscript⟩ :=
    failing_block_leaves_notes [function] [unsupported] (.start "pack") rfl hfail.2
  refine ⟨hfail.1, hfail.2, d, s', hleaves, hscript.trans ?_⟩
  show first.2 ++ d :: (s'.statements [unsupported]).2 = _
  rw [hfail.1]
  rfl

/-- A block that fails and declares a name. -/
def failingText : String :=
  "\x7b try \x7b\x7d catch (e) \x7b\x7d let y; \x7d"

/-- A function that declares the name twice. -/
def clashText : String :=
  "\nconst f = function () \x7b let y = 1; var y; \x7d;\n"

/-- Behind the block, the clash is not reported. -/
theorem failing_block_hides_clash :
    (compileSources "pack" [clashText]).diagnostics.map (·.message) =
      ["SyntaxError: Identifier 'y' has already been declared at 2:29"] ∧
    (compileSources "pack" [failingText ++ clashText]).diagnostics.map (·.message) =
      ["UnsupportedConstruct: try statement at 1:3"] := by
  decide +kernel

end PackScript
