import PackScript.Machine.Host
import PackScript.Proofs.Control.Structured

namespace PackScript

/-!
# Structured scripts

A script of literal declarations and structured statements does what it means: the commands and the
final values of the variables are those of `Script.exec`, and the script runs to its end exactly
when `Script.exec` does and calls may be deep enough.

* `Compiler.hoisted` — where the variables are once their names are bound.
* `Compiler.statements_declare`, `Compiler.statements_structured` — the two parts of a script.
* `structured_script_runs_as_meant` — the whole.
-/

variable {id : Ident} {L : Layout} {ds : List Declarator} {decls rest : List Stmt}
  {names : List String} {m : Machine} {script : Script} {st : Stmt} {σ : Store} {ns x : String}

/-! ### Names of the variables -/

/-- The bindings of variables with slots from a number on. -/
def bindingsFrom (k : Nat) : List String → Table Binding
  | [] => []
  | x :: rest => (x, ⟨⟨k⟩, .let_⟩) :: bindingsFrom (k + 1) rest

theorem bindingsFrom_concat (k : Nat) (names : List String) (x : String) :
    bindingsFrom k (names ++ [x]) = bindingsFrom k names ++ [(x, ⟨⟨k + names.length⟩, .let_⟩)] := by
  induction names generalizing k with
  | nil => rfl
  | cons y rest ih =>
    have hk : k + 1 + rest.length = k + (rest.length + 1) := by omega
    rw [List.cons_append, bindingsFrom, ih, hk]
    rfl

theorem find?_bindingsFrom (k : Nat) (names : List String) (x : String) :
    (bindingsFrom k names).find? x =
      if x ∈ names then some ⟨⟨k + names.idxOf x⟩, .let_⟩ else none := by
  induction names generalizing k with
  | nil => rfl
  | cons y rest ih =>
    rw [bindingsFrom, Table.find?]
    by_cases hy : y = x
    · subst hy
      simp
    · have hidx : (y :: rest).idxOf x = rest.idxOf x + 1 := List.idxOf_cons_ne _ hy
      have hk : k + 1 + rest.idxOf x = k + (rest.idxOf x + 1) := by omega
      rw [if_neg hy, ih, hidx, hk]
      simp [Ne.symm hy]

/-- The variables in the order of their declarations. -/
def Layout.ofNames (names : List String) : Layout where
  names := names
  slot x := ⟨names.idxOf x⟩
  base := names.length
  below _ hx := List.idxOf_lt_length_of_mem hx
  injective x hx y _ h := by
    have hidx : names.idxOf x = names.idxOf y := congrArg Slot.index h
    exact (List.idxOf_inj hx).1 hidx

namespace Compiler

/-- The compiler once the names of variables are bound ahead. -/
def hoisting (ns : String) (names : List String) : Compiler :=
  { Compiler.start ns with
    names := { slots := names.length }
    scopes := ⟨[bindingsFrom 0 names]⟩
    hoisted := names.reverse.map (globalScope, ·) }

theorem own?_hoisting (ns : String) (names : List String) (x : String) :
    (hoisting ns names).scopes.own? globalScope x =
      if x ∈ names then some ⟨⟨names.idxOf x⟩, .let_⟩ else none := by
  have hown : (hoisting ns names).scopes.own? globalScope x = (bindingsFrom 0 names).find? x := rfl
  rw [hown, find?_bindingsFrom, Nat.zero_add]

/-- One more name is bound. -/
theorem hoistName_run (hid : id.name ∉ names) :
    Compile.hoistName globalScope .let_ id (hoisting ns names) =
      .ok () (hoisting ns (names ++ [id.name])) := by
  have hfree : (bindingsFrom 0 names).find? id.name = none := by
    rw [find?_bindingsFrom, if_neg hid]
  have hput : (bindingsFrom 0 names).put id.name ⟨⟨names.length⟩, .let_⟩ =
      bindingsFrom 0 (names ++ [id.name]) := by
    rw [bindingsFrom_concat, Nat.zero_add, Table.put_of_not_has]
    rw [Table.has, hfree]
    rfl
  have hown : ((hoisting ns names).scopes.own? globalScope id.name).isNone = true := by
    rw [own?_hoisting, if_neg hid]
    rfl
  have hdeclare : Compile.declareIn globalScope id.name .let_ id.span (hoisting ns names) =
      .ok ⟨names.length⟩ { hoisting ns names with
        names := { slots := names.length + 1 }
        scopes := ⟨[bindingsFrom 0 (names ++ [id.name])]⟩ } := by
    have hscopes : (hoisting ns names).scopes.declare globalScope id.name
        ⟨⟨names.length⟩, .let_⟩ = .ok (⟨⟨names.length⟩, .let_⟩,
          ⟨[bindingsFrom 0 (names ++ [id.name])]⟩) := by
      have hget : (hoisting ns names).scopes.get? globalScope = some (bindingsFrom 0 names) := rfl
      rw [Scopes.declare, hget]
      dsimp only
      rw [hfree, hput]
      rfl
    refine (Compile.bind_of_ok rfl).trans ((Compile.bind_of_ok rfl).trans ?_)
    simp only [hoisting] at hscopes ⊢
    rw [hscopes]
    rfl
  have hinsert : ((hoisting ns names).hoisted).insert (globalScope, id.name) =
      (names ++ [id.name]).reverse.map (globalScope, ·) := by
    have hnew : (globalScope, id.name) ∉ (hoisting ns names).hoisted := by
      simpa [hoisting] using hid
    rw [List.insert_of_not_mem hnew]
    simp [hoisting]
  have hafter : hoisting ns (names ++ [id.name]) = { hoisting ns names with
      names := { slots := names.length + 1 }
      scopes := ⟨[bindingsFrom 0 (names ++ [id.name])]⟩
      hoisted := (hoisting ns names).hoisted.insert (globalScope, id.name) } := by
    have hlength : (names ++ [id.name]).length = names.length + 1 := by simp
    rw [hinsert, hoisting, hlength]
    rfl
  refine (Compile.bind_of_ok rfl).trans ?_
  rw [hown, if_pos rfl, hafter]
  exact (Compile.bind_of_ok hdeclare).trans rfl

/-- All names are bound. -/
theorem hoistNames_forM (ns : String) {ids : List Ident}
    (hnodup : (names ++ ids.map (·.name)).Nodup) :
    ((ids.map (BindingKind.let_, ·)).forM fun (kind, id) =>
      Compile.hoistName globalScope kind id) (hoisting ns names) =
      .ok ⟨⟩ (hoisting ns (names ++ ids.map (·.name))) := by
  induction ids generalizing names with
  | nil =>
    rw [List.map_nil, List.map_nil, List.append_nil]
    rfl
  | cons id rest ih =>
    have hid : id.name ∉ names := fun hmem =>
      (List.nodup_append.1 hnodup).2.2 _ hmem _ (List.mem_map_of_mem List.mem_cons_self) rfl
    have hassoc : names ++ (id :: rest).map (·.name) =
        (names ++ [id.name]) ++ rest.map (·.name) := by simp
    rw [hassoc] at hnodup ⊢
    rw [List.map_cons, List.forM_eq_forM, List.forM_cons]
    exact (Compile.bind_of_ok (hoistName_run hid)).trans (ih hnodup)

theorem ready_hoisting (hrun : Intrinsic.run.name ∉ names) :
    Ready (.ofNames names) (hoisting ns names) := by
  have hresolve : ∀ x, (hoisting ns names).resolve x =
      (hoisting ns names).scopes.own? globalScope x := by
    intro x
    have hchain : (hoisting ns names).current.scopes = [globalScope] := rfl
    rw [resolve, hchain, Scopes.resolve, List.reverse_singleton, List.findSome?_cons,
      List.findSome?_nil]
    cases (hoisting ns names).scopes.own? globalScope x <;> rfl
  exact
    { bound := fun x hx => by
        rw [hresolve, own?_hoisting]
        exact if_pos hx
      run := by rw [hresolve, own?_hoisting, if_neg hrun]
      loopBindings := rfl
      script := rfl
      base := Nat.le_refl _
      units := fun e he => absurd he List.not_mem_nil }

end Compiler

/-! ### Declarations -/

/-- The variables that literal declarations declare, with their values. -/
def literalsOf : List Declarator → List (String × Scalar)
  | ⟨.ident id, some (.literal v _), _⟩ :: rest => (id.name, v) :: literalsOf rest
  | _ :: rest => literalsOf rest
  | [] => []

/-- The state after variables got their first values. -/
def Store.assignAll (σ : Store) (values : List (String × Scalar)) : Store :=
  values.foldl (fun σ p => σ.assign p.1 p.2) σ

theorem Store.commands_assignAll (σ : Store) (values : List (String × Scalar)) :
    (σ.assignAll values).commands = σ.commands := by
  induction values generalizing σ with
  | nil => rfl
  | cons p rest ih => exact ih (σ.assign p.1 p.2)

/-- The code that gives variables their first values. -/
def Layout.literalCode (L : Layout) (values : List (String × Scalar)) : List Instr :=
  values.map fun p => .set .always (.slot (L.slot p.1)) (.literal p.2.slot)

/-- Some of the variables have the values. -/
def Layout.FitsOn (L : Layout) (names : List String) (env : String → Scalar) (m : Machine) : Prop :=
  ∀ x ∈ names, m.slots.get? (L.slot x).key = some (env x).slot

/-- Running the code gives the variables their values. -/
theorem Layout.straight_literals {values : List (String × Scalar)}
    (hnames : ∀ x ∈ names, x ∈ L.names) (hvalues : ∀ p ∈ values, p.1 ∈ L.names) (hm : m.Stored)
    (hfits : L.FitsOn names σ.env m) :
    ∃ m', Run.Straight (L.literalCode values) m m' ∧ m'.program = m.program ∧ m'.Stored ∧
      m'.commands = m.commands ∧
      L.FitsOn (names ++ values.map (·.1)) (σ.assignAll values).env m' := by
  induction values generalizing σ m names with
  | nil =>
    refine ⟨m, .nil m, rfl, hm, rfl, ?_⟩
    rw [List.map_nil, List.append_nil]
    exact hfits
  | cons p rest ih =>
    have hp : p.1 ∈ L.names := hvalues p List.mem_cons_self
    have hset : Run.Straight [.set .always (.slot (L.slot p.1)) (.literal p.2.slot)] m
        (m.putSlot (L.slot p.1) p.2.slot) := Run.straight_set_slot hm rfl fun _ => rfl
    have hnames₁ : ∀ x ∈ names ++ [p.1], x ∈ L.names := by
      intro x hx
      rcases List.mem_append.1 hx with hx | hx
      · exact hnames x hx
      · rw [List.mem_singleton.1 hx]
        exact hp
    have hfits₁ : L.FitsOn (names ++ [p.1]) (σ.assign p.1 p.2).env
        (m.putSlot (L.slot p.1) p.2.slot) := by
      intro x hx
      by_cases hxp : x = p.1
      · rw [hxp, Machine.get?_putSlot_self, Store.assign]
        simp
      · have hold : x ∈ names := by simpa [hxp] using hx
        have hne : L.slot p.1 ≠ L.slot x := fun h =>
          hxp (L.injective p.1 hp x (hnames x hold) h).symm
        have henv : (σ.assign p.1 p.2).env x = σ.env x := by simp [Store.assign, hxp]
        rw [Machine.get?_putSlot, if_neg fun h => hne (Slot.key_injective h), henv]
        exact hfits x hold
    obtain ⟨m', hrun, hprogram, hstored, hcommands, hfits'⟩ :=
      ih hnames₁ (fun q hq => hvalues q (List.mem_cons_of_mem _ hq)) (hm.putSlot _ _) hfits₁
    refine ⟨m', hset.append hrun, hprogram, hstored, hcommands, ?_⟩
    have hassoc : names ++ (p :: rest).map (·.1) = (names ++ [p.1]) ++ rest.map (·.1) := by simp
    rw [hassoc]
    exact hfits'

/-- The compiler is about to compile declarations whose names it has bound ahead. -/
structure Awaits (L : Layout) (names : List String) (s : Compiler) : Prop extends Ready L s where
  scopes : s.current.scopes = [globalScope]
  own : ∀ x ∈ L.names, s.scopes.own? globalScope x = some ⟨L.slot x, .let_⟩
  hoisted : ∀ x ∈ names, (globalScope, x) ∈ s.hoisted
  known : ∀ x ∈ names, x ∈ L.names

namespace Compile

variable {L : Layout} {s : Compiler} {k : Lowering}

/-- A declaration claims the binding that was made ahead of it. -/
theorem declare_awaited (h : Awaits L (x :: names) s) (span : Span) :
    declare x .let_ span s = .ok (L.slot x)
      { s with hoisted := s.hoisted.erase (globalScope, x) } := by
  have hx : x ∈ x :: names := List.mem_cons_self
  have hscope : innermostScope? s = .ok (some globalScope) s := by
    show EStateM.Result.ok s.current.scopes.getLast? s = _
    rw [h.scopes]
    rfl
  have hclaim : claimHoisted globalScope x s =
      .ok true { s with hoisted := s.hoisted.erase (globalScope, x) } := by
    show EStateM.Result.ok (s.hoisted.contains (globalScope, x)) _ = _
    rw [List.contains_iff_mem.2 (h.hoisted x hx)]
  have hbinding : existingBinding? globalScope x .let_ s = .ok (some ⟨L.slot x, .let_⟩)
      { s with hoisted := s.hoisted.erase (globalScope, x) } := by
    have hahead : (do
        if ← claimHoisted globalScope x then return (← get).scopes.own? globalScope x
        else return none) s = .ok (some ⟨L.slot x, .let_⟩)
          { s with hoisted := s.hoisted.erase (globalScope, x) } := by
      refine (bind_of_ok hclaim).trans ?_
      exact congrArg (EStateM.Result.ok · _) (h.own x (h.known x hx))
    exact (bind_of_ok hahead).trans rfl
  exact (bind_of_ok hscope).trans ((bind_of_ok hbinding).trans rfl)

/-- A variable is declared by a literal. -/
theorem declareOne_awaited {v : Scalar} {span span' : Span} (h : Awaits L (id.name :: names) s)
    (hnodup : (id.name :: names).Nodup) (hk : k.expr (.literal v span') = pure (.known v)) :
    ∃ s', declareOne k .let_ ⟨.ident id, some (.literal v span'), span⟩ s = .ok () s' ∧
      Emits s (L.literalCode [(id.name, v)]) s' ∧ Awaits L names s' := by
  have hrun : declareOne k .let_ ⟨.ident id, some (.literal v span'), span⟩ s =
      .ok () (Compiler.push { s with hoisted := s.hoisted.erase (globalScope, id.name) }
        (L.literalCode [(id.name, v)])) := by
    have hvalue : ∀ s, k.expr (.literal v span') s = .ok (.known v) s := fun s => by
      rw [hk]
      rfl
    exact (bind_of_ok (declare_awaited h id.span)).trans ((bind_of_ok (hvalue _)).trans rfl)
  have hemits : Emits s (L.literalCode [(id.name, v)]) _ :=
    { Emits.push { s with hoisted := s.hoisted.erase (globalScope, id.name) } _ with }
  refine ⟨_, hrun, hemits, { h.toReady.emits hemits with
    scopes := h.scopes
    own := h.own
    hoisted := fun x hx => ?_
    known := fun x hx => h.known x (List.mem_cons_of_mem _ hx) }⟩
  have hne : (globalScope, x) ≠ (globalScope, id.name) := by
    intro heq
    have hname : x = id.name := congrArg Prod.snd heq
    exact (List.nodup_cons.1 hnodup).1 (hname ▸ hx)
  exact (List.mem_erase_of_ne hne).2 (h.hoisted x (List.mem_cons_of_mem _ hx))

end Compile

/-- All variables of the declaration are declared by literals. -/
def allLiterals (ds : List Declarator) : Bool :=
  ds.all fun
    | ⟨.ident _, some e, _⟩ => e.isLiteral
    | _ => false

section

variable {L : Layout} {s : Compiler} {k : Lowering} {names : List String}

/-- A declaration by a literal, taken apart. -/
theorem allLiterals_cons {d : Declarator} (h : allLiterals (d :: ds) = true) :
    (∃ id v span' span, d = ⟨.ident id, some (.literal v span'), span⟩) ∧
      allLiterals ds = true := by
  rw [allLiterals, List.all_cons, Bool.and_eq_true] at h
  refine ⟨?_, h.2⟩
  obtain ⟨pattern, init, span⟩ := d
  have hfirst := h.1
  cases pattern with
  | ident id =>
    cases init with
    | none => cases hfirst
    | some e =>
      cases e with
      | literal v span' => exact ⟨id, v, span', span, rfl⟩
      | _ => cases hfirst
  | _ => cases hfirst

theorem Compile.declareAll_awaited (hds : allLiterals ds = true)
    (h : Awaits L ((literalsOf ds).map (·.1) ++ names) s)
    (hnodup : ((literalsOf ds).map (·.1) ++ names).Nodup)
    (hk : ∀ v span, k.expr (.literal v span) = pure (.known v)) :
    ∃ s', (ds.forM (declareOne k .let_)) s = .ok ⟨⟩ s' ∧
      Emits s (L.literalCode (literalsOf ds)) s' ∧ Awaits L names s' := by
  induction ds generalizing s with
  | nil => exact ⟨s, rfl, .refl s, h⟩
  | cons d rest ih =>
    obtain ⟨⟨id, v, span', span, rfl⟩, hrest⟩ := allLiterals_cons hds
    obtain ⟨s₁, hrun₁, hemits₁, h₁⟩ := declareOne_awaited h hnodup (hk v span')
    obtain ⟨s₂, hrun₂, hemits₂, h₂⟩ := ih hrest h₁ (List.nodup_cons.1 hnodup).2
    refine ⟨s₂, ?_, hemits₁.trans hemits₂, h₂⟩
    rw [List.forM_eq_forM, List.forM_cons]
    exact (bind_of_ok hrun₁).trans hrun₂

/-- The variables that literal declarations declare get their values. -/
theorem declared_literals (hds : allLiterals ds = true) (σ : Store) :
    declared σ ds = σ.assignAll (literalsOf ds) := by
  induction ds generalizing σ with
  | nil => rfl
  | cons d rest ih =>
    obtain ⟨⟨id, v, span', span, rfl⟩, hrest⟩ := allLiterals_cons hds
    exact ih hrest _

/-- The names that literal declarations declare. -/
theorem map_literalsOf (hds : allLiterals ds = true) (kind : DeclKind) (span : Span) :
    (literalsOf ds).map (·.1) = (Declaration.idents ⟨kind, ds, span⟩).map (·.name) := by
  induction ds with
  | nil => rfl
  | cons d rest ih =>
    obtain ⟨⟨id, v, span', span, rfl⟩, hrest⟩ := allLiterals_cons hds
    show id.name :: (literalsOf rest).map (·.1) = id.name :: _
    rw [ih hrest]
    rfl

/-- A literal declaration, taken apart. -/
theorem Stmt.isLiteralDecl_cases (h : st.isLiteralDecl = true) :
    ∃ ds span, st = .declare ⟨.letDecl, ds, span⟩ ∧ allLiterals ds = true := by
  unfold Stmt.isLiteralDecl at h
  split at h
  · next ds span => exact ⟨ds, span, rfl, h⟩
  · cases h

/-- The variables that literal declarations declare, with their values. -/
def literalsOfAll : List Stmt → List (String × Scalar)
  | .declare d :: rest => literalsOf d.declarators ++ literalsOfAll rest
  | _ :: rest => literalsOfAll rest
  | [] => []

/-- A statement of which nothing is reported. -/
theorem Compiler.statements_cons {s₁ : Compiler} (h : Compile.statement st s = .ok () s₁) :
    s.statements (st :: rest) = s₁.statements rest := by
  have hstatement : s.statement st = (s₁, []) := by rw [statement, h]
  rw [statements, hstatement]
  rfl

/-- Literal declarations are compiled one after the other, and nothing is reported. -/
theorem Compiler.statements_declare (hdecls : ∀ st ∈ decls, st.isLiteralDecl = true)
    (h : Awaits L ((literalsOfAll decls).map (·.1)) s)
    (hnodup : ((literalsOfAll decls).map (·.1)).Nodup) :
    ∃ s', s.statements (decls ++ rest) = s'.statements rest ∧
      Emits s (L.literalCode (literalsOfAll decls)) s' ∧ Ready L s' := by
  induction decls generalizing s with
  | nil => exact ⟨s, rfl, .refl s, h.toReady⟩
  | cons st decls ih =>
    obtain ⟨ds, span, rfl, hds⟩ := Stmt.isLiteralDecl_cases (hdecls st List.mem_cons_self)
    have hnames : (literalsOfAll (.declare ⟨.letDecl, ds, span⟩ :: decls)).map (·.1) =
        (literalsOf ds).map (·.1) ++ (literalsOfAll decls).map (·.1) := List.map_append
    rw [hnames] at h hnodup
    obtain ⟨s₁, hrun, hemits₁, h₁⟩ := Compile.declareAll_awaited
      hds h hnodup fun v span' => (rfl : (lowering (Stmt.size (.declare ⟨.letDecl, ds, span⟩))).expr
        (.literal v span') = pure (.known v))
    have hcompile : Compile.statement (.declare ⟨.letDecl, ds, span⟩) s = .ok () s₁ := hrun
    obtain ⟨s₂, hrun₂, hemits₂, h₂⟩ := ih (fun st hst => hdecls st (List.mem_cons_of_mem _ hst)) h₁
      (List.nodup_append.1 hnodup).2.1
    refine ⟨s₂, ?_, ?_, h₂⟩
    · rw [List.cons_append, statements_cons hcompile, hrun₂]
    · have hcode : L.literalCode (literalsOfAll (.declare ⟨.letDecl, ds, span⟩ :: decls)) =
          L.literalCode (literalsOf ds) ++ L.literalCode (literalsOfAll decls) := List.map_append
      rw [hcode]
      exact hemits₁.trans hemits₂

/-- Literal declarations give their variables the values. -/
theorem execAll_declare (hdecls : ∀ st ∈ decls, st.isLiteralDecl = true) (σ : Store) :
    execAll (decls ++ rest) σ = execAll rest (σ.assignAll (literalsOfAll decls)) := by
  induction decls generalizing σ with
  | nil => rfl
  | cons st decls ih =>
    obtain ⟨ds, span, rfl, hds⟩ := Stmt.isLiteralDecl_cases (hdecls st List.mem_cons_self)
    have hsplit : σ.assignAll (literalsOfAll (.declare ⟨.letDecl, ds, span⟩ :: decls)) =
        (σ.assignAll (literalsOf ds)).assignAll (literalsOfAll decls) := List.foldl_append
    rw [List.cons_append, execAll, Store.andThen, Stmt.exec, declared_literals hds, hsplit]
    exact ih (fun st hst => hdecls st (List.mem_cons_of_mem _ hst)) _

/-! ### Statements -/

/-- Structured statements are compiled one after the other, and nothing is reported. -/
theorem Compiler.statements_structured {body : List Stmt}
    (hbody : areStructured L.names false body = true) (hs : Ready L s) :
    ∃ is s', s.statements body = (s', []) ∧ Emits s is s' ∧
      Simulates L s (execAll body) is s' := by
  induction body generalizing s with
  | nil =>
    refine ⟨[], s, rfl, .refl s, fun m σ _ hm => ?_⟩
    rw [execAll]
    exact .nil hm
  | cons st rest ih =>
    rw [areStructured, Bool.and_eq_true] at hbody
    have hst : Lowers L false ((lowering (st.size + 1)).stmt st) st.exec :=
      lowering_stmt (Nat.lt_succ_self _) hbody.1
    obtain ⟨_, is₁, s₁, hrun₁, hemits₁, hcode₁⟩ := hst s hs fun h => absurd h Bool.false_ne_true
    obtain ⟨is₂, s₂, hrun₂, hemits₂, hcode₂⟩ := ih hbody.2 (hs.emits hemits₁)
    refine ⟨is₁ ++ is₂, s₂, ?_, hemits₁.trans hemits₂, fun m σ hwithin hm => ?_⟩
    · rw [statements_cons hrun₁, hrun₂]
    · have hboth := hcode₁.append hcode₂ hemits₁ hemits₂.units m σ hwithin hm
      rw [execAll]
      exact hboth

end

mutual

/-- A structured statement declares no variable for the function around it. -/
theorem Stmt.varIdents_of_isStructured {names : List String} {inside : Bool} :
    ∀ {st : Stmt}, st.isStructured names inside = true → st.varIdents = []
  | .expr _ _, _ => by rw [Stmt.varIdents]
  | .block ⟨body, _⟩, h => by
    rw [Stmt.isStructured] at h
    rw [Stmt.varIdents, stmtsVarIdents_of_areStructured h]
  | .branch test yes none _, h => by
    simp only [Stmt.isStructured, Bool.and_eq_true] at h
    rw [Stmt.varIdents, Stmt.varIdents_of_isStructured h.1.2]
    rfl
  | .branch test yes (some no) _, h => by
    simp only [Stmt.isStructured, Bool.and_eq_true] at h
    rw [Stmt.varIdents, Stmt.varIdents_of_isStructured h.1.2]
    exact Stmt.varIdents_of_isStructured h.2
  | .whileLoop test body _, h => by
    simp only [Stmt.isStructured, Bool.and_eq_true] at h
    rw [Stmt.varIdents, Stmt.varIdents_of_isStructured h.2]
  | .doWhile body test _, h => by
    simp only [Stmt.isStructured, Bool.and_eq_true] at h
    rw [Stmt.varIdents, Stmt.varIdents_of_isStructured h.2]
  | .forLoop init test update body _, h => by
    simp only [Stmt.isStructured, Bool.and_eq_true] at h
    have hbody := Stmt.varIdents_of_isStructured h.2
    match init, h.1.1.1 with
    | none, _ =>
      rw [Stmt.varIdents, hbody]
      rfl
    | some (.expr e), _ =>
      rw [Stmt.varIdents, hbody]
      rfl
  | .switch subject cases _, h => by
    simp only [Stmt.isStructured, Bool.and_eq_true] at h
    rw [Stmt.varIdents, casesVarIdents_of_casesStructured h.2]
  | .breaking _ _, _ => by rw [Stmt.varIdents]
  | .declare _, h | .function _ _, h | .classDecl _ _, h | .forOf _ _ _ _, h
  | .returning _ _, h | .unsupported _ _, h | .empty _, h => by simp [Stmt.isStructured] at h

/-- Structured statements declare no variable for the function around them. -/
theorem stmtsVarIdents_of_areStructured {names : List String} {inside : Bool} :
    ∀ {body : List Stmt}, areStructured names inside body = true → stmtsVarIdents body = []
  | [], _ => by rw [stmtsVarIdents]
  | st :: rest, h => by
    rw [areStructured, Bool.and_eq_true] at h
    rw [stmtsVarIdents, Stmt.varIdents_of_isStructured h.1, stmtsVarIdents_of_areStructured h.2]
    rfl

/-- The cases of a switch declare no variable for the function around them. -/
theorem casesVarIdents_of_casesStructured {names : List String} :
    ∀ {cases : List SwitchCase}, casesStructured names cases = true → casesVarIdents cases = []
  | [], _ => by rw [casesVarIdents]
  | ⟨test, body, _⟩ :: rest, h => by
    simp only [casesStructured, Bool.and_eq_true] at h
    rw [casesVarIdents, stmtsVarIdents_of_areStructured h.1.2,
      casesVarIdents_of_casesStructured h.2]
    rfl

end

/-! ### Whole scripts -/

section

variable {decls rest : List Stmt} {names : List String}

/-- The names of literal declarations, as they are bound ahead. -/
theorem lexicalNames_declare (hdecls : ∀ st ∈ decls, st.isLiteralDecl = true) :
    ∃ ids : List Ident, decls.flatMap Compile.lexicalNames = ids.map (BindingKind.let_, ·) ∧
      ids.map (·.name) = (literalsOfAll decls).map (·.1) ∧
      declaredNames decls = ids.map (·.name) ∧ stmtsVarIdents decls = [] ∧
      ∀ st ∈ decls, st.isFunction = false := by
  induction decls with
  | nil => exact ⟨[], rfl, rfl, rfl, rfl, fun st hst => absurd hst List.not_mem_nil⟩
  | cons st decls ih =>
    obtain ⟨ds, span, rfl, hds⟩ := Stmt.isLiteralDecl_cases (hdecls st List.mem_cons_self)
    obtain ⟨ids, hnames, hvalues, hdeclared, hvars, hfunctions⟩ :=
      ih fun st hst => hdecls st (List.mem_cons_of_mem _ hst)
    refine ⟨Declaration.idents ⟨.letDecl, ds, span⟩ ++ ids, ?_, ?_, ?_, ?_, ?_⟩
    · rw [List.flatMap_cons, hnames, List.map_append]
      rfl
    · have hliterals : (literalsOfAll (.declare ⟨.letDecl, ds, span⟩ :: decls)).map (·.1) =
          (literalsOf ds).map (·.1) ++ (literalsOfAll decls).map (·.1) := List.map_append
      rw [hliterals, map_literalsOf hds .letDecl span, List.map_append, hvalues]
    · rw [List.map_append, ← hdeclared]
      rfl
    · rw [stmtsVarIdents, hvars]
      rfl
    · intro st hst
      rcases List.mem_cons.1 hst with rfl | hst
      · rfl
      · exact hfunctions st hst

/-- A structured script in its two parts. -/
theorem Script.isStructured_cases (h : script.isStructured = true) :
    ∃ decls rest, script.body = decls ++ rest ∧ (∀ st ∈ decls, st.isLiteralDecl = true) ∧
      (declaredNames script.body).Nodup ∧ Intrinsic.run.name ∉ declaredNames script.body ∧
      areStructured (declaredNames script.body) false rest = true := by
  simp only [Script.isStructured, Bool.and_eq_true, decide_eq_true_eq, Bool.not_eq_true'] at h
  refine ⟨script.body.takeWhile (·.isLiteralDecl), script.body.dropWhile (·.isLiteralDecl),
    List.takeWhile_append_dropWhile.symm, fun st hst => ?_, h.1.1, ?_, h.2⟩
  · exact List.mem_takeWhile_imp hst
  · rw [← List.contains_iff_mem, h.1.2]
    exact Bool.false_ne_true

/-- The variables of a script are those of its declarations. -/
theorem declaredNames_append (hrest : areStructured names false rest = true) :
    declaredNames (decls ++ rest) = declaredNames decls := by
  have hnone : declaredNames rest = [] := by
    rw [declaredNames, List.flatMap_eq_nil_iff]
    intro st hst
    have hstructured := areStructured_iff.1 hrest st hst
    cases st <;> first | rfl | simp [Stmt.isStructured] at hstructured
  rw [declaredNames, List.flatMap_append]
  show declaredNames decls ++ declaredNames rest = _
  rw [hnone, List.append_nil]

/-- Names are bound ahead of the declarations, and nothing else is. -/
theorem Compiler.hoist_structured (ns : String)
    (hdecls : ∀ st ∈ decls, st.isLiteralDecl = true)
    (hrest : areStructured names false rest = true) (hnodup : (declaredNames decls).Nodup) :
    (Compiler.start ns).hoist (decls ++ rest) = hoisting ns (declaredNames decls) := by
  obtain ⟨ids, hnames, _, hdeclared, hvars, _⟩ := lexicalNames_declare hdecls
  have hlexical : (decls ++ rest).flatMap Compile.lexicalNames = ids.map (BindingKind.let_, ·) := by
    have hnone : rest.flatMap Compile.lexicalNames = [] := by
      rw [List.flatMap_eq_nil_iff]
      exact fun st hst =>
        (Stmt.lexicalNames_of_isStructured (areStructured_iff.1 hrest st hst)).1
    rw [List.flatMap_append, hnames, hnone, List.append_nil]
  have hvarIdents : stmtsVarIdents (decls ++ rest) = [] := by
    have happend : ∀ body, stmtsVarIdents (body ++ rest) = stmtsVarIdents body ++
        stmtsVarIdents rest := by
      intro body
      induction body with
      | nil => rfl
      | cons st body ih => rw [List.cons_append, stmtsVarIdents, ih, stmtsVarIdents,
          List.append_assoc]
    rw [happend, hvars, stmtsVarIdents_of_areStructured hrest]
    rfl
  have hstart : Compiler.start ns = hoisting ns [] := rfl
  have hrun : Compile.hoistBody (decls ++ rest) (hoisting ns []) =
      .ok () (hoisting ns (declaredNames decls)) := by
    have hnodup' : (([] : List String) ++ ids.map (·.name)).Nodup := by
      rw [List.nil_append, ← hdeclared]
      exact hnodup
    have hforM := hoistNames_forM ns hnodup'
    rw [List.nil_append, ← hdeclared, ← hlexical] at hforM
    refine (Compile.bind_of_ok rfl).trans ?_
    rw [hvarIdents]
    exact (Compile.bind_of_ok rfl).trans ((Compile.bind_of_ok rfl).trans hforM)
  rw [hoist, hstart, hrun]

/-- What a script is compiled to. -/
structure Compiled (L : Layout) (source : Script) (s : Compiler) : Prop extends Ready L s where
  entry : s.current.name = entryUnit
  own : ∀ x ∈ L.names, s.scopes.own? globalScope x = some ⟨L.slot x, .let_⟩
  runs : ∀ m, s.Within m → m.Stored → m.commands = #[] →
    Run.Ends L (fun _ => True) s.current.instrs.toList m source.exec

theorem Run.Reaches.ends {P : Slot → Prop} {is js : List Instr} {d : Nat} {m' : Machine}
    {r : Option Store} (h : Reaches is d m none m') (hchanges : m.Changes P m')
    (hends : Ends L P js m' r) : Ends L P (is ++ js) m r := by
  cases r with
  | none => exact h.fails hends
  | some σ =>
    obtain ⟨d', code, m₁, hrun, hchanges', hm₁⟩ := hends
    exact ⟨_, code, m₁, h.thenAnswers hrun, hchanges.trans hchanges', hm₁⟩

/-- A structured script is compiled without a report, to code that does what it means. -/
theorem Compiler.script_structured (ns : String) (h : script.isStructured = true) :
    ∃ s, (Compiler.start ns).script script = (s, []) ∧
      Compiled (.ofNames (declaredNames script.body)) script s := by
  obtain ⟨decls, rest, hbody, hdecls, hnodup, hrun, hrest⟩ := Script.isStructured_cases h
  have hnames : declaredNames script.body = declaredNames decls := by
    rw [hbody]
    exact declaredNames_append hrest
  obtain ⟨ids, _, hvalues, hdeclared, _, hfunctions⟩ := lexicalNames_declare hdecls
  have hliterals : (literalsOfAll decls).map (·.1) = declaredNames decls := by
    rw [hdeclared, hvalues]
  rw [hnames] at hnodup hrun hrest ⊢
  have hawaits : Awaits (.ofNames (declaredNames decls)) ((literalsOfAll decls).map (·.1))
      (hoisting ns (declaredNames decls)) :=
    { ready_hoisting hrun with
      scopes := rfl
      own := fun x hx => by
        rw [own?_hoisting]
        exact if_pos hx
      hoisted := fun x hx => by
        rw [hliterals] at hx
        simpa [hoisting] using hx
      known := fun x hx => by
        rw [hliterals] at hx
        exact hx }
  obtain ⟨s₁, hstatements, hemits₁, hready₁⟩ :
      ∃ s₁ : Compiler, (hoisting ns (declaredNames decls)).statements (decls ++ rest) =
        s₁.statements rest ∧ _ ∧ _ := statements_declare hdecls hawaits
          (by rw [hliterals]; exact hnodup)
  obtain ⟨is, s₂, hstatements₂, hemits₂, hcode⟩ := statements_structured hrest hready₁
  have hemits := hemits₁.trans hemits₂
  have hinstrs : s₂.current.instrs.toList =
      (Layout.ofNames (declaredNames decls)).literalCode (literalsOfAll decls) ++ is :=
        hemits.instrs
  refine ⟨s₂, ?_, { hready₁.emits hemits₂ with entry := hemits.name, own := ?_, runs := ?_ }⟩
  · -- no function comes ahead of the statements
    have hfirst : functionsFirst (decls ++ rest) = decls ++ rest := by
      have hnone : ∀ st ∈ decls ++ rest, st.isFunction = false := by
        intro st hst
        rcases List.mem_append.1 hst with hst | hst
        · exact hfunctions st hst
        · exact (Stmt.lexicalNames_of_isStructured (areStructured_iff.1 hrest st hst)).2
      exact functionsFirst_eq_self hnone
    rw [Compiler.script, hbody, hoist_structured ns hdecls hrest hnodup, hfirst, hstatements,
      hstatements₂]
  · intro x hx
    rw [hemits.own]
    exact hawaits.own x hx
  · intro m hwithin hm hcommands
    have hknown : ∀ p ∈ literalsOfAll decls,
        p.1 ∈ (Layout.ofNames (declaredNames decls)).names := fun p hp =>
      hawaits.known p.1 (List.mem_map_of_mem hp)
    set σ : Store := ⟨fun _ => .undefined, []⟩ with hσ
    have hnothing : (Layout.ofNames (declaredNames decls)).FitsOn [] σ.env m :=
      fun x hx => absurd hx List.not_mem_nil
    obtain ⟨m₁, hrun₁, hprogram, hstored, hcommands₁, hfits⟩ :=
      Layout.straight_literals (fun x hx => absurd hx List.not_mem_nil) hknown hm hnothing
    rw [List.nil_append, hliterals] at hfits
    have hm₁ : (Layout.ofNames (declaredNames decls)).Matches
        (σ.assignAll (literalsOfAll decls)) m₁ :=
      { stored := hstored
        fits := hfits
        commands := by rw [hcommands₁, hcommands, Store.commands_assignAll] }
    have hchanges : m.Changes (fun _ => True) m₁ :=
      ⟨hprogram, hstored, fun _ hs => absurd trivial hs⟩
    have hfollows : Run.Follows _ (fun _ => True) is m₁
        (execAll rest (σ.assignAll (literalsOfAll decls))) :=
      (hcode m₁ _ (hwithin.changes hchanges) hm₁).mono fun _ _ => trivial
    have hexec : script.exec =
        (execAll rest (σ.assignAll (literalsOfAll decls))).map (·.2) := by
      rw [Script.exec, hbody, execAll_declare hdecls]
    rw [hinstrs, hexec]
    exact hrun₁.reaches.ends hchanges hfollows.ends

end

/-! ### Running a script -/

namespace Compiled

variable {L : Layout} {source : Script} {s : Compiler}

/-- The program has the units of the compiler. -/
theorem within (h : Compiled L source s) (hm : m.program = s.finish) : s.Within m := by
  have hfree : s.units.has entryUnit = false := by
    rw [← Table.find?_eq_none_iff]
    cases hfind : s.units.find? entryUnit with
    | none => rfl
    | some u =>
      obtain ⟨k, hk, _⟩ := h.units _ (Table.mem_of_find? hfind)
      exact absurd hk.symm (generatedUnit_ne_entryUnit k)
  intro name u hu
  rw [hm]
  exact Table.find?_of_prefix (Table.prefix_put _ hfree) hu

/-- A variable of the machine, by its name. -/
theorem global? (h : Compiled L source s) (hm : m.program = s.finish) (hmatches : L.Matches σ m)
    (hx : x ∈ L.names) : m.global? x = some (σ.env x).slot := by
  have hglobals : ∀ table : Table Binding,
      Table.find? (table.map fun e => (e.1, e.2.slot)) x =
        (table.find? x).map (·.slot) := by
    intro table
    induction table with
    | nil => rfl
    | cons e rest ih =>
      rw [List.map_cons, Table.find?, Table.find?, ih]
      split <;> rfl
  have hfind : m.program.globals.find? x = some (L.slot x) := by
    have hown := h.own x hx
    rw [hm]
    refine (hglobals _).trans ?_
    cases hscope : s.scopes.get? globalScope with
    | none =>
      rw [Scopes.own?, hscope] at hown
      cases hown
    | some table =>
      rw [Scopes.own?, hscope] at hown
      have htable : table.find? x = some ⟨L.slot x, .let_⟩ := hown
      rw [Option.getD_some, htable]
      rfl
  rw [Machine.global?, hfind, Option.map_some, Machine.slot, hmatches.fits x hx]
  rfl

/-- The machine on which the entry unit starts. -/
theorem ends (h : Compiled L source s) :
    Run.Ends L (fun _ => True) s.current.finish.instrs (Machine.start s.finish 0).inside
      source.exec :=
  h.runs _ (h.within rfl) ⟨⟨_, rfl⟩, ⟨_, rfl⟩⟩ rfl

end Compiled

theorem Run.entry_run (p : Program) (maxDepth : Nat) :
    Run.entry (.start p maxDepth) =
      match Run.execute maxDepth p.entry none (.start p maxDepth) with
      | .ok _ m' => .ok () m'
      | .error e m' => .error e m' := by
  cases hrun : Run.execute maxDepth p.entry none (.start p maxDepth) with
  | ok code m' => exact (Run.bind_of_ok rfl).trans ((Run.bind_of_ok hrun).trans rfl)
  | error e m' => exact (Run.bind_of_ok rfl).trans (Run.bind_of_error hrun)

/-- The entry unit fails if its code does. -/
theorem Run.entry_error {s : Compiler} {maxDepth : Nat}
    (h : ∀ l, l < maxDepth → ∃ e m', Run.steps (Run.execute l) none s.current.finish.instrs
      ((Machine.start s.finish 0).inside.cap maxDepth) = .error e m') :
    ∃ e m', Run.entry (.start s.finish maxDepth) = .error e m' := by
  have hunit : (Machine.start s.finish 0).program.units.find? entryUnit =
      some s.current.finish := Table.find?_put_self _ _ _
  obtain ⟨e, m', herror⟩ := Run.execute_error hunit maxDepth none h
  have hrun : Run.execute maxDepth s.finish.entry none (.start s.finish maxDepth) =
      .error e m' := herror
  refine ⟨e, m', ?_⟩
  rw [Run.entry_run, hrun]

namespace Compiled

variable {L : Layout} {source : Script} {s : Compiler}

/-- A script that ends: the entry unit runs to its end exactly when calls may be deep enough. -/
theorem entry_of_exec (h : Compiled L source s) (hexec : source.exec = some σ) :
    ∃ d, (∀ maxDepth, maxDepth ≤ d → ∃ e m',
        Run.entry (.start s.finish maxDepth) = .error e m') ∧
      ∀ maxDepth, d < maxDepth → ∃ m', Run.entry (.start s.finish maxDepth) = .ok () m' ∧
        m'.program = s.finish ∧ L.Matches σ m' := by
  have hends := h.ends
  rw [hexec] at hends
  obtain ⟨d, code, m₁, hrun, hchanges, hm₁⟩ := hends
  refine ⟨d, fun maxDepth hle => Run.entry_error fun l hl => ?_, fun maxDepth hlt => ?_⟩
  · exact hrun.shallow maxDepth l (by omega) none
  · have hunit : (Machine.start s.finish 0).program.units.find? entryUnit =
        some s.current.finish := Table.find?_put_self _ _ _
    have hok : Run.execute maxDepth s.finish.entry none (.start s.finish maxDepth) =
        .ok code (m₁.outside.cap maxDepth) :=
      Run.execute_answers hunit hrun hlt maxDepth none
    refine ⟨m₁.outside.cap maxDepth, ?_, hchanges.program,
      ⟨⟨hm₁.stored.slots, hm₁.stored.channels⟩, hm₁.fits, hm₁.commands⟩⟩
    rw [Run.entry_run, hok]

/-- A script that does not end: the entry unit fails however deep calls may be. -/
theorem entry_of_exec_none (h : Compiled L source s) (hexec : source.exec = none)
    (maxDepth : Nat) : ∃ e m', Run.entry (.start s.finish maxDepth) = .error e m' := by
  have hends := h.ends
  rw [hexec] at hends
  have hfails : Run.Fails s.current.finish.instrs (Machine.start s.finish 0).inside := hends
  refine Run.entry_error fun l _ => ?_
  have hrun := hfails maxDepth l none []
  rwa [List.append_nil] at hrun

end Compiled

/-- **Control flow keeps its meaning.** A structured script is compiled without diagnostics. When
    its entry unit runs to its end, the script ends, and the commands and the values of all
    variables are those that it means. If the script ends, the entry unit runs to its end whenever
    calls may be deep enough. -/
theorem structured_script_runs_as_meant (o : Options) (ho : o.withPrelude = false) (text : String)
    (script : Script) (hparse : parseScript text = .ok script)
    (hscript : script.isStructured = true) :
    (compile o text).diagnostics = [] ∧
    (∀ maxDepth m', Run.entry (.start (compile o text).program maxDepth) = .ok () m' →
      ∃ σ, script.exec = some σ ∧ m'.commands.toList = σ.commands ∧
        ∀ x ∈ declaredNames script.body, m'.global? x = some (σ.env x).slot) ∧
    (∀ σ, script.exec = some σ → ∃ d, ∀ maxDepth, d ≤ maxDepth →
      ∃ m', Run.entry (.start (compile o text).program maxDepth) = .ok () m') := by
  obtain ⟨s, hs, hcompiled⟩ := Compiler.script_structured o.ns hscript
  have hcompile : compile o text = ⟨s.finish, []⟩ := by
    have hsource : (Compiler.start o.ns).source text = (s, []) := by
      rw [Compiler.source, hparse]
      exact hs
    have hsources : (Compiler.start o.ns).sources [text] = (s, []) := by
      rw [Compiler.sources, hsource]
      rfl
    have hahead : o.ahead = [] := by
      rw [Options.ahead, ho]
      rfl
    rw [compile, hahead, List.nil_append, compileSources, hsources]
  rw [hcompile]
  refine ⟨rfl, fun maxDepth m' hrun => ?_, fun σ hexec => ?_⟩
  · cases hexec : script.exec with
    | none =>
      obtain ⟨e, m₁, herror⟩ := hcompiled.entry_of_exec_none hexec maxDepth
      rw [hrun] at herror
      cases herror
    | some σ =>
      obtain ⟨d, hshallow, hdeep⟩ := hcompiled.entry_of_exec hexec
      by_cases hdepth : maxDepth ≤ d
      · obtain ⟨e, m₁, herror⟩ := hshallow maxDepth hdepth
        rw [hrun] at herror
        cases herror
      · obtain ⟨m₁, hok, hprogram, hmatches⟩ := hdeep maxDepth (Nat.lt_of_not_le hdepth)
        rw [hrun] at hok
        cases hok
        exact ⟨σ, rfl, hmatches.commands, fun x hx => hcompiled.global? hprogram hmatches hx⟩
  · obtain ⟨d, _, hdeep⟩ := hcompiled.entry_of_exec hexec
    refine ⟨d + 1, fun maxDepth hdepth => ?_⟩
    obtain ⟨m₁, hok, _⟩ := hdeep maxDepth hdepth
    exact ⟨m₁, hok⟩

/-- A loop around a switch; the second round breaks out of the switch only. -/
def loopAroundSwitch : String :=
  "let i = 0; while (i < 3) \x7b i = i + 1; " ++
    "switch (i) \x7b case 2: break; default: __run('say'); \x7d \x7d"

/-- The two rounds that do not break run their command, in the meaning of the script too. -/
theorem structured_script_runs_as_meant_loopAroundSwitch :
    ∃ script σ, parseScript loopAroundSwitch = .ok script ∧ script.isStructured = true ∧
      script.exec = some σ ∧ σ.commands = ["say", "say"] ∧ "i" ∈ declaredNames script.body := by
  obtain ⟨start, hstart⟩ : ∃ start : Machine,
      start = .start (compile ⟨"pack", false, "out"⟩ loopAroundSwitch).program 20 := ⟨_, rfl⟩
  have hparse : ((parseScript loopAroundSwitch).toOption.any fun script =>
      script.isStructured && (declaredNames script.body).contains "i") = true := by
    decide +kernel
  have hrun : EStateM.run' (do Run.entry; return (← get).commands.toList) start =
      some ["say", "say"] := by
    rw [hstart]
    decide +kernel
  cases hscript : parseScript loopAroundSwitch with
  | error d =>
    rw [hscript] at hparse
    cases hparse
  | ok script =>
    rw [hscript, Except.toOption, Option.any_some, Bool.and_eq_true,
      List.contains_iff_mem] at hparse
    rw [EStateM.run', EStateM.run] at hrun
    cases hok : Run.entry start with
    | error e m' =>
      rw [Run.bind_of_error hok] at hrun
      cases hrun
    | ok _ m' =>
      rw [Run.bind_of_ok hok] at hrun
      obtain ⟨_, hmeant, _⟩ := structured_script_runs_as_meant ⟨"pack", false, "out"⟩ rfl
        loopAroundSwitch script hscript hparse.1
      obtain ⟨σ, hexec, hcommands, _⟩ := hmeant 20 m' (hstart ▸ hok)
      exact ⟨script, σ, rfl, hparse.1, hexec, hcommands ▸ Option.some.inj hrun, hparse.2⟩

end PackScript
