import PackScript.Proofs.Machine.Checked
import PackScript.Proofs.Uses.Program

namespace PackScript

/-!
# A `var` belongs to its function

A `var` is bound for the whole function, however deep it stands in blocks, branches, loops and
cases. Its declaration then finds that binding through the scopes in between. A name that the
function binds otherwise, like that of a parameter, is not found so: in a block, the declaration
makes a further variable.

* `Scopes.resolve_through` — names are found through scopes that do not bind them.
* `Compile.hoistBody_binds` — every `var` of a body is bound in the scope of the function.
* `Compile.declare_var_through`, `Compile.declare_var_apart` — the slot that a declaration answers.
* `var_declaration_writes_function_slot` — the slot that an initialiser is written to.
-/

/-! ### Names in sight -/

/-- A name is found through scopes that do not bind it. -/
theorem Scopes.resolve_through {a : Scopes} {outer inner : List ScopeId} {f : ScopeId}
    {name : String} {b : Binding} (hf : a.own? f name = some b)
    (hinner : ∀ scope ∈ inner, a.own? scope name = none) :
    a.resolve (outer ++ f :: inner) name = some b := by
  have hnone : inner.reverse.findSome? (a.own? · name) = none := by
    rw [List.findSome?_eq_none_iff]
    exact fun scope hscope => hinner scope (List.mem_reverse.1 hscope)
  rw [Scopes.resolve, List.reverse_append, List.reverse_cons, List.findSome?_append,
    List.findSome?_append, hnone]
  simp [hf]

/-! ### Names that are bound ahead -/

/-- The innermost scope is there. -/
structure Compiler.Innermost (s : Compiler) (f : ScopeId) : Prop where
  chain : s.current.scopes.getLast? = some f
  scope : f < s.scopes.list.length

/-- The scope keeps its bindings, and gets further ones of some kinds only. -/
structure Compiler.Binds (f : ScopeId) (kinds : BindingKind → Prop) (s s' : Compiler) : Prop where
  kept : ∀ name b, s.scopes.own? f name = some b → s'.scopes.own? f name = some b
  new : ∀ name b, s'.scopes.own? f name = some b → s.scopes.own? f name = some b ∨ kinds b.kind

namespace Compile

variable {s : Compiler} {f : ScopeId} {kinds : BindingKind → Prop}

theorem innermostScope?_run (h : s.current.scopes.getLast? = some f) :
    innermostScope? s = .ok (some f) s := by
  refine (bind_of_ok rfl).trans ?_
  rw [h]
  rfl

theorem binds_refl (s : Compiler) : s.Binds f kinds s :=
  ⟨fun _ _ h => h, fun _ _ h => .inl h⟩

theorem binds_trans {s' s'' : Compiler} (h : s.Binds f kinds s') (h' : s'.Binds f kinds s'') :
    s.Binds f kinds s'' :=
  ⟨fun name b hb => h'.kept name b (h.kept name b hb),
    fun name b hb => (h'.new name b hb).elim (h.new name b) .inr⟩

/-- A name that the scope does not bind can be declared there. -/
theorem declareIn_binds (kinds : BindingKind → Prop) {name : String} {kind : BindingKind}
    {span : Span} (hs : s.Innermost f) (hkind : kinds kind) (hnew : s.scopes.own? f name = none) :
    Answers s (declareIn f name kind span) (fun _ s' => s'.Innermost f ∧ s.Binds f kinds s' ∧
      ∃ b, s'.scopes.own? f name = some b) := by
  obtain ⟨table, htable⟩ : ∃ table, s.scopes.get? f = some table :=
    ⟨_, List.getElem?_eq_getElem hs.scope⟩
  have hfind : table.find? name = none := by
    simpa [Scopes.own?, htable] using hnew
  have hdeclare : s.scopes.declare f name ⟨⟨s.names.slots⟩, kind⟩ =
      .ok (⟨⟨s.names.slots⟩, kind⟩,
        ⟨s.scopes.list.set f (table.put name ⟨⟨s.names.slots⟩, kind⟩)⟩) := by
    rw [Scopes.declare, htable]
    simp only [hfind]
  refine ⟨_, _, declareIn_run span hdeclare, ⟨hs.chain, ?_⟩, ⟨?_, ?_⟩,
    _, Scopes.own?_of_declare hdeclare⟩
  · simpa [Compiler.declaring] using hs.scope
  · intro n b hb
    have hne : name ≠ n := by
      rintro rfl
      cases hnew.symm.trans hb
    obtain ⟨t, ht, hb⟩ := Option.bind_eq_some_iff.1 hb
    obtain rfl := Option.some.inj (htable.symm.trans ht)
    refine Option.bind_eq_some_iff.2 ⟨table.put name ⟨⟨s.names.slots⟩, kind⟩, ?_,
      (Table.find?_put_of_ne _ _ hne).trans hb⟩
    simp [Compiler.declaring, Scopes.get?, hs.scope]
  · intro n b hb
    rcases Scopes.own?_set htable hb with hold | ⟨_, rfl⟩
    · exact .inl hold
    · exact .inr hkind

theorem hoistVar_binds {id : Ident} (hs : s.Innermost f) :
    Answers s (hoistVar f id) (fun _ s' => s'.Innermost f ∧ s.Binds f (· = .var_) s' ∧
      ∃ b, s'.scopes.own? f id.name = some b) := by
  refine .ok rfl ?_
  split
  · next hnew =>
    refine (declareIn_binds (· = .var_) hs rfl
      (Option.isNone_iff_eq_none.1 hnew)).bind fun slot s' h => ?_
    exact ⟨(), _, rfl, ⟨h.1.chain, h.1.scope⟩, ⟨h.2.1.kept, h.2.1.new⟩, h.2.2⟩
  · next hold => exact .pure ⟨hs, binds_refl s, Option.ne_none_iff_exists'.1 (by simpa using hold)⟩

theorem hoistVars_binds {ids : List Ident} (hs : s.Innermost f) :
    Answers s (ids.forM (hoistVar f)) (fun _ s' => s'.Innermost f ∧ s.Binds f (· = .var_) s' ∧
      ∀ id ∈ ids, ∃ b, s'.scopes.own? f id.name = some b) := by
  induction ids generalizing s with
  | nil => exact .pure ⟨hs, binds_refl s, nofun⟩
  | cons id rest ih =>
    refine (hoistVar_binds hs).bind fun _ s₁ ⟨hs₁, hbinds₁, b, hb⟩ => ?_
    obtain ⟨_, s₂, hrun, hs₂, hbinds₂, hrest⟩ := ih hs₁
    exact ⟨_, s₂, hrun, hs₂, binds_trans hbinds₁ hbinds₂,
      List.forall_mem_cons.2 ⟨⟨b, hbinds₂.kept _ _ hb⟩, hrest⟩⟩

theorem hoistName_binds (kind : BindingKind) (id : Ident) (hs : s.Innermost f) :
    Answers s (hoistName f kind id) (fun _ s' => s'.Innermost f ∧
      s.Binds f (fun _ => True) s') := by
  refine .ok rfl ?_
  split
  · next hnew =>
    refine (declareIn_binds (fun _ => True) hs trivial
      (Option.isNone_iff_eq_none.1 hnew)).bind fun _ s' h => ?_
    exact ⟨(), _, rfl, ⟨h.1.chain, h.1.scope⟩, ⟨h.2.1.kept, h.2.1.new⟩⟩
  · exact .pure ⟨hs, binds_refl s⟩

/-- Every `var` of a body is bound in the scope of the function, and as a `var` unless the name was
    bound there before. -/
theorem hoistBody_binds (body : List Stmt) (hs : s.Innermost f) :
    Answers s (hoistBody body) (fun _ s' => ∀ id ∈ stmtsVarIdents body, ∃ b,
      s'.scopes.own? f id.name = some b ∧ (s.scopes.own? f id.name = some b ∨ b.kind = .var_)) := by
  refine .ok (innermostScope?_run hs.chain) (hoistVars_binds hs |>.bind
    fun _ s₁ ⟨hs₁, hbinds, hbound⟩ => ?_)
  have hnames : Answers s₁ ((body.flatMap lexicalNames).forM fun e => hoistName f e.1 e.2) _ :=
    .forM (fun s' => s'.Innermost f ∧ s₁.Binds f (fun _ => True) s') ⟨hs₁, binds_refl s₁⟩
      fun e s₂ h₂ => by
        obtain ⟨_, s₃, hrun, hs₃, hbinds₃⟩ := hoistName_binds e.1 e.2 h₂.1
        exact ⟨_, s₃, hrun, hs₃, binds_trans h₂.2 hbinds₃⟩
  obtain ⟨_, s₂, hrun, _, hkept⟩ := hnames
  refine .ok (innermostScope?_run hs₁.chain) ⟨_, s₂, hrun, fun id hid => ?_⟩
  obtain ⟨b, hb⟩ := hbound id hid
  exact ⟨b, hkept.kept _ _ hb, hbinds.new _ _ hb⟩

/-! ### Declarations -/

variable {outer inner : List ScopeId} {name : String} {b : Binding} {span : Span}

/-- The innermost of the scopes of a function. -/
theorem getLast?_chain (hchain : s.current.scopes = outer ++ f :: inner) :
    s.current.scopes.getLast? = some ((f :: inner).getLast (List.cons_ne_nil f inner)) := by
  rw [hchain, List.getLast?_append, List.getLast?_eq_some_getLast (List.cons_ne_nil f inner)]
  rfl

/-- A `var` takes the binding in sight, if that is one of a `var`. -/
theorem existingBinding?_run {scope : ScopeId} (hb : s.resolve name = some b)
    (hown : s.scopes.own? scope name = none ∨
      s.scopes.own? scope name = some b ∧ b.kind = .var_) :
    existingBinding? scope name .var_ s =
      .ok (if b.kind = .var_ then some b else none)
        { s with hoisted := s.hoisted.erase (scope, name) } := by
  have hfilter : ((s.resolve name).filter (·.kind = .var_)) =
      if b.kind = .var_ then some b else none := by
    rw [hb]
    by_cases hkind : b.kind = .var_ <;> simp [hkind]
  have hahead : (do
      if ← claimHoisted scope name then return (← get).scopes.own? scope name else return none :
        Compile (Option Binding)) s =
      .ok (if s.hoisted.contains (scope, name) then s.scopes.own? scope name else none)
        { s with hoisted := s.hoisted.erase (scope, name) } := by
    refine (bind_of_ok rfl).trans ?_
    cases s.hoisted.contains (scope, name) <;> rfl
  have hlate : (do return (← resolve name).filter (·.kind = .var_) : Compile (Option Binding))
      { s with hoisted := s.hoisted.erase (scope, name) } =
      .ok (if b.kind = .var_ then some b else none)
        { s with hoisted := s.hoisted.erase (scope, name) } :=
    congrArg (EStateM.Result.ok · _) hfilter
  refine (bind_of_ok hahead).trans ?_
  rcases hown with hown | ⟨hown, hkind⟩
  · simp only [hown, ite_self]
    exact hlate
  · cases s.hoisted.contains (scope, name) with
    | false => exact hlate
    | true =>
      simp only [hown, if_pos hkind]
      rfl

/-- The declaration of a `var` finds the binding of its function through the scopes in between. -/
theorem declare_var_through (hchain : s.current.scopes = outer ++ f :: inner)
    (hf : s.scopes.own? f name = some b) (hkind : b.kind = .var_)
    (hinner : ∀ scope ∈ inner, s.scopes.own? scope name = none) :
    ∃ hoisted, declare name .var_ span s = .ok b.slot { s with hoisted := hoisted } := by
  have hresolve : s.resolve name = some b := by
    rw [Compiler.resolve, hchain]
    exact Scopes.resolve_through hf hinner
  have hlast := getLast?_chain hchain
  refine ⟨s.hoisted.erase ((f :: inner).getLast (List.cons_ne_nil f inner), name),
    (bind_of_ok (innermostScope?_run hlast)).trans
    ((bind_of_ok (existingBinding?_run hresolve ?_)).trans ?_)⟩
  · rcases List.mem_cons.1 (List.getLast_mem (List.cons_ne_nil f inner)) with heq | hmem
    · exact .inr ⟨heq.symm ▸ hf, hkind⟩
    · exact .inl (hinner _ hmem)
  · simp only [if_pos hkind]
    rfl

/-- In a block, a name that the function binds otherwise is declared anew. -/
theorem declare_var_apart {slot : Slot} {s' : Compiler}
    (hchain : s.current.scopes = outer ++ f :: inner)
    (hf : s.scopes.own? f name = some b) (hkind : b.kind ≠ .var_) (hne : inner ≠ [])
    (hinner : ∀ scope ∈ inner, s.scopes.own? scope name = none)
    (hrun : declare name .var_ span s = .ok slot s') : slot = ⟨s.names.slots⟩ := by
  have hresolve : s.resolve name = some b := by
    rw [Compiler.resolve, hchain]
    exact Scopes.resolve_through hf hinner
  have hlast := getLast?_chain hchain
  rw [List.getLast_cons hne] at hlast
  have hown := hinner _ (List.getLast_mem hne)
  have hdeclare : declare name .var_ span s = declareIn (inner.getLast hne) name .var_ span
      { s with hoisted := s.hoisted.erase (inner.getLast hne, name) } := by
    refine (bind_of_ok (innermostScope?_run hlast)).trans
      ((bind_of_ok (existingBinding?_run hresolve (.inl hown))).trans ?_)
    simp only [if_neg hkind]
  rw [hdeclare] at hrun
  cases hscope : s.scopes.declare (inner.getLast hne) name ⟨⟨s.names.slots⟩, .var_⟩ with
  | error e =>
    obtain ⟨d, herror⟩ := declareIn_run_error
      (s := { s with hoisted := s.hoisted.erase (inner.getLast hne, name) }) span hscope
    cases herror.symm.trans hrun
  | ok r =>
    obtain ⟨b', scopes⟩ := r
    have hok := declareIn_run
      (s := { s with hoisted := s.hoisted.erase (inner.getLast hne, name) }) span hscope
    cases hok.symm.trans hrun
    rw [Scopes.declare] at hscope
    split at hscope
    · cases hscope
    · next table htable =>
      have hfind : table.find? name = none := by
        simpa [Scopes.own?, htable] using hown
      rw [hfind] at hscope
      cases hscope
      rfl

end Compile

/-! ### Initialisers -/

/-- A `var` belongs to its function. Binding the names of a body ahead binds every `var` of it, at
    whatever depth of blocks, branches, loops and cases, in the scope of the function, and as a
    `var` unless the scope has bound the name before. In every later state of that function in which
    no scope in between binds the name, the slot of this binding is the one that the name has at the
    top level of the body, and the initialiser of the `var` is written to it, unless the binding is
    of another kind: then a declaration in a block has a slot of its own. -/
theorem var_declaration_writes_function_slot (k : Lowering) {s : Compiler} {f : ScopeId}
    (hs : s.Innermost f) (body : List Stmt) :
    ∃ ahead, Compile.hoistBody body s = .ok () ahead ∧
      ∀ id ∈ stmtsVarIdents body, ∃ b, ahead.scopes.own? f id.name = some b ∧
        (s.scopes.own? f id.name = some b ∨ b.kind = .var_) ∧
        ∀ s' outer inner, s'.current.scopes = outer ++ f :: inner →
          s'.scopes.own? f id.name = some b →
          (∀ scope ∈ inner, s'.scopes.own? scope id.name = none) →
            s'.scopes.resolve (outer ++ [f]) id.name = some b ∧
            (b.kind = .var_ → ∀ e span, ∃ hoisted,
              Compile.declareOne k .var_ ⟨.ident id, some e, span⟩ s' =
                (k.expr e >>= Compile.assign b.slot) { s' with hoisted := hoisted }) ∧
            (b.kind ≠ .var_ → inner ≠ [] → ∀ slot after,
              Compile.declare id.name .var_ id.span s' = .ok slot after →
                slot = ⟨s'.names.slots⟩) := by
  obtain ⟨_, ahead, hrun, hbound⟩ := Compile.hoistBody_binds body hs
  refine ⟨ahead, hrun, fun id hid => ?_⟩
  obtain ⟨b, hb, hkind⟩ := hbound id hid
  refine ⟨b, hb, hkind, fun s' outer inner hchain hf hinner => ⟨?_, ?_, ?_⟩⟩
  · exact Scopes.resolve_through hf nofun
  · intro hvar e span
    obtain ⟨hoisted, hdeclare⟩ := Compile.declare_var_through hchain hf hvar hinner
    exact ⟨hoisted, Compile.bind_of_ok hdeclare⟩
  · intro hother hne slot after hdeclare
    exact Compile.declare_var_apart hchain hf hother hne hinner hdeclare

/-- A function with the parameter `p`, in whose scope its names are bound. -/
def oneParameter : Compiler :=
  { Compiler.start "pack" with
    names := { slots := 1, records := 0, channels := 0, units := 0 }
    scopes := ⟨[[], [("p", ⟨⟨0⟩, .param⟩)]]⟩
    current := .start "f" .function 0 [0, 1] }

/-- `var NAME = null` -/
def nullDeclarator (name : String) : Declarator :=
  ⟨.ident ⟨name, .origin⟩, some (.literal .null .origin), .origin⟩

/-- `{ var y = null, p = null; }` -/
def blockBody : List Stmt :=
  [.block ⟨[.declare ⟨.varDecl, [nullDeclarator "y", nullDeclarator "p"], .origin⟩], .origin⟩]

/-- The state in the block, whose scope binds no names. -/
def inBlock : Compiler :=
  let s := oneParameter.hoist blockBody
  { s with scopes := ⟨s.scopes.list ++ [[]]⟩, current.scopes := [0, 1, 2] }

theorem var_declaration_writes_function_slot_block :
    (∃ hoisted, Compile.declareOne (lowering 1) .var_ (nullDeclarator "y") inBlock =
      ((lowering 1).expr (.literal .null .origin) >>= Compile.assign ⟨1⟩)
        { inBlock with hoisted := hoisted }) ∧
    inBlock.resolve "p" = some ⟨⟨0⟩, .param⟩ ∧
    ∀ slot after, Compile.declare "p" .var_ .origin inBlock = .ok slot after → slot = ⟨2⟩ := by
  have hs : oneParameter.Innermost 1 := ⟨rfl, by decide⟩
  obtain ⟨ahead, hrun, hvars⟩ := var_declaration_writes_function_slot (lowering 1) hs blockBody
  have hahead : oneParameter.hoist blockBody = ahead := by
    simp [Compiler.hoist, hrun]
  have hidents : stmtsVarIdents blockBody = [⟨"y", .origin⟩, ⟨"p", .origin⟩] := rfl
  rw [hidents] at hvars
  have hown : ((oneParameter.hoist blockBody).scopes.own? 1 "y" = some ⟨⟨1⟩, .var_⟩ ∧
        (oneParameter.hoist blockBody).scopes.own? 1 "p" = some ⟨⟨0⟩, .param⟩) ∧
      (inBlock.scopes.own? 1 "y" = some ⟨⟨1⟩, .var_⟩ ∧
        inBlock.scopes.own? 1 "p" = some ⟨⟨0⟩, .param⟩) ∧
      (∀ scope ∈ [2], inBlock.scopes.own? scope "y" = none) ∧
      ∀ scope ∈ [2], inBlock.scopes.own? scope "p" = none := by
    decide +kernel
  obtain ⟨⟨hy, hp⟩, ⟨hy', hp'⟩, hinnerY, hinnerP⟩ := hown
  rw [hahead] at hy hp
  refine ⟨?_, by decide +kernel, ?_⟩
  · obtain ⟨b, hb, _, hlater⟩ := hvars ⟨"y", .origin⟩ (by simp)
    obtain rfl := Option.some.inj (hb.symm.trans hy)
    exact (hlater inBlock [0] [2] rfl hy' hinnerY).2.1 rfl (.literal .null .origin) .origin
  · obtain ⟨b, hb, _, hlater⟩ := hvars ⟨"p", .origin⟩ (by simp)
    obtain rfl := Option.some.inj (hb.symm.trans hp)
    exact (hlater inBlock [0] [2] rfl hp' hinnerP).2.2 (by decide) (by decide)

/-- A parameter, and a `var` of the same name in a block. -/
def blockParameterText : String :=
  "function f(x) \x7b \x7b var x = 2; \x7d return x; \x7d\nlet r = f(1);\n"

/-- The `var` in the block does not write the parameter, which is what the name has at the top level
    of the body. -/
theorem var_in_block_leaves_parameter :
    (compileSources "pack" [blockParameterText]).diagnostics = [] ∧
    (Compiler.after "pack" [blockParameterText]).scopes.own? 1 "x" ≠
      (Compiler.after "pack" [blockParameterText]).scopes.own? 2 "x" ∧
    let m := (Machine.start (compileSources "pack" [blockParameterText]).program 512).after .entry
    (m.global? "r").map m.display = some "1" := by
  decide +kernel

end PackScript
