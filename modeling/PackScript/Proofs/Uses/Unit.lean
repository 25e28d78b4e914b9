import PackScript.Compile.Statement
import PackScript.Proofs.Uses.Scope

namespace PackScript

/-!
# Units inside of units keep to the uses

A scope, a loop or a unit is opened, filled and closed again, also when filling it fails. What is
inside of it advances by itself; this module says why the state around it has advanced as well.

* `StmtOk` — what statements need of the unit and the function that they are compiled in.
* `inScope_leads`, `inBreakable_leads`, `inLoop_leads` — the present unit goes on inside of
  something.
* `Opens` — a unit was opened and the present one waits; `Opens.bracket` closes it.
* `inChild_leads` — a part of the present unit, with the use `Watch.partUse`.
* `invokeRelaying_leads` — the call of a part, which passes its return codes on.
-/

variable {breakable : Bool} {s' : Compiler} {guard : Guard} {unit : String} {G' : Uses}

/-! ### What statements need -/

/-- A function that may wait has its promise. -/
def MayReturn (s : Compiler) : Prop :=
  s.context.isAsync = true → s.context.promise.isSome = true

/-- The present unit is one for statements. -/
structure InBody (s : Compiler) : Prop where
  kind : s.current.info.kind ≠ .expression
  promise : MayReturn s

/-- A statement can be compiled: it may break out of the loop or switch around it, if there is
    one. -/
structure StmtOk (W : Watch) (s : Compiler) : Prop extends InBody s where
  breaks : 0 < s.context.breakables → W.breakable = true

section

variable {W : Watch} {G G' : Uses} {s s' : Compiler}

theorem InBody.step (h : InBody s) (hstep : Advances false W G s G' s') : InBody s' := by
  refine ⟨?_, ?_⟩
  · cases hstep.current with
    | same _ hkind _ =>
      rw [hkind]
      exact h.kind
    | rest _ _ hkind _ _ _ =>
      rw [hkind]
      decide
  · unfold MayReturn
    rw [hstep.context rfl]
    exact h.promise

theorem StmtOk.step (h : StmtOk W s) (hstep : Advances false W G s G' s') : StmtOk W s' := by
  refine ⟨h.toInBody.step hstep, ?_⟩
  rw [hstep.context rfl]
  exact h.breaks

end

/-! ### Scopes, loops and switches -/

/-- The functions are still declared when there are further scopes. -/
theorem Orderly.declared_create {W : Watch} {G : Uses} {s : Compiler} (h : Orderly W G s) :
    ∀ e ∈ s.functions, ∃ b, s.scopes.create.2.own? globalScope e.1 = some b ∧
      b.slot = e.2.binding := by
  intro e he
  obtain ⟨b, hb, hslot⟩ := h.declared e he
  exact ⟨b, (s.scopes.own?_create _ _).trans hb, hslot⟩

section

variable {W : Watch} {G : Uses} {s : Compiler}

section

variable (h : ScopesOrderly W G s)

include h

theorem ScopesOrderly.length_pos : 0 < s.scopes.list.length := by
  have hne : s.current.scopes.drop W.base ≠ [] := by simpa using h.base
  obtain ⟨scope, hscope⟩ := List.exists_mem_of_ne_nil _ hne
  exact Nat.lt_of_le_of_lt (Nat.zero_le _) (h.valid scope hscope).1

/-- The further scope is not the global one. -/
theorem ScopesOrderly.create_ne : s.scopes.create.1 ≠ globalScope :=
  Nat.ne_of_gt h.length_pos

theorem bindings_create :
    ∀ t ∈ s.scopes.create.2.list, ∀ e ∈ t, BindingOrderly W G s.loopBindings e.2 := by
  intro t ht e he
  rcases List.mem_append.1 ht with ht | ht
  · exact h.bindings t ht e he
  · rw [List.mem_singleton.1 ht] at he
    cases he

theorem ScopesOrderly.openScope : ScopesOrderly W G (Compile.openScope s) := by
  have hdrop : (Compile.openScope s).current.scopes.drop W.base =
      s.current.scopes.drop W.base ++ [s.scopes.create.1] :=
    List.drop_append_of_le_length (Nat.le_of_lt h.base)
  refine
    { chain := ?_
      base := ?_
      valid := fun scope hscope => ?_
      sees := fun scope hscope name b hb => ?_
      loops := fun hlast => ?_
      globals := fun name b hb => h.globals name b ((s.scopes.own?_create _ _).symm.trans hb)
      bindings := bindings_create h
      noted := h.noted }
  · obtain ⟨rest, hrest⟩ := List.head?_eq_some_iff.1 h.chain
    simp [Compile.openScope, hrest]
  · have := h.base
    simp only [Compile.openScope, List.length_append, List.length_singleton]
    omega
  · rw [hdrop, List.mem_append, List.mem_singleton] at hscope
    have hlength : (Compile.openScope s).scopes.list.length = s.scopes.list.length + 1 := by
      simp [Compile.openScope, Scopes.create]
    rw [hlength]
    rcases hscope with hscope | rfl
    · exact ⟨Nat.lt_succ_of_lt (h.valid scope hscope).1, (h.valid scope hscope).2⟩
    · exact ⟨Nat.lt_succ_self _, fun heq => absurd heq h.create_ne⟩
  · have hold : s.scopes.own? scope name = some b := (s.scopes.own?_create _ _).symm.trans hb
    rw [hdrop, List.mem_append, List.mem_singleton] at hscope
    rcases hscope with hscope | rfl
    · exact h.sees scope hscope name b hold
    · simp [Scopes.own?, Scopes.get?, Scopes.create] at hold
  · rw [show (Compile.openScope s).current.scopes = s.current.scopes ++
      [s.scopes.create.1] from rfl,
      List.getLast?_concat] at hlast
    exact absurd (Option.some.inj hlast) h.create_ne

/-- The innermost scope of a unit is left. -/
theorem ScopesOrderly.leave {chain : List ScopeId} {scope : ScopeId} (h' : ScopesOrderly W G' s')
    (hchain : s'.current.scopes = s.current.scopes ++ [scope])
    (hcontext : s'.context.loops = s.context.loops) (heq : chain = s.current.scopes) :
    ScopesOrderly W G' { s' with current.scopes := chain } := by
  subst heq
  have hmem : ∀ i ∈ s.current.scopes.drop W.base, i ∈ s'.current.scopes.drop W.base := by
    intro i hi
    rw [hchain, List.drop_append_of_le_length (Nat.le_of_lt h.base)]
    exact List.mem_append_left _ hi
  exact
    { h' with
      chain := h.chain
      base := h.base
      valid := fun i hi => h'.valid i (hmem i hi)
      sees := fun i hi => h'.sees i (hmem i hi)
      loops := fun hlast => hcontext.trans (h.loops hlast) }

end

end

namespace Compile

variable {α : Type} {W : Watch} {G : Uses} {s : Compiler}

/-- What runs inside of something that the present unit opens and closes again. -/
theorem LeadsIn.ensuring {body : Compile α} {Q : Uses → α → Prop}
    (enter leave : Compiler → Compiler)
    (hbody : Leads W G (enter s) body (fun G' a _ => Q G' a))
    (hleave : ∀ G' s', Advances false W G (enter s) G' s' → Advances false W G s G' (leave s'))
    (hsettles : ∀ G' s', Settles G (enter s) G' s' → Settles G s G' (leave s')) :
    Leads W G s (modify enter >>= fun _ => Compile.ensuring body (modify leave))
      (fun G' a _ => Q G' a) := by
  have hrun : (modify enter >>= fun _ => Compile.ensuring body (modify leave)) s =
      Compile.ensuring body (modify leave) (enter s) := rfl
  unfold Leads LeadsIn Ends at hbody ⊢
  rw [hrun, ensuring_run]
  cases hb : body (enter s) with
  | ok a s' =>
    rw [hb] at hbody
    obtain ⟨G', h, hdebts, hQ⟩ := hbody
    exact ⟨G', hleave G' s' h, hsettles G' s' hdebts, hQ⟩
  | error d s' =>
    rw [hb] at hbody
    obtain ⟨G', h⟩ := hbody
    exact ⟨G', hleave G' s' h⟩

theorem openScope_orderly (h : Orderly W G s) : Orderly W G (openScope s) :=
  { h with
    scopes := h.scopes.openScope
    declared := h.declared_create
    current := { h.current with } }

theorem openScope_old {scope : ScopeId} (h : scope < s.scopes.list.length) :
    scope < (openScope s).scopes.list.length := by
  show scope < (s.scopes.list ++ [[]]).length
  rw [List.length_append]
  exact Nat.lt_add_right _ h

/-- The innermost scope is a new one. -/
theorem openScope_innermost {scope : ScopeId} (h : scope < s.scopes.list.length) :
    (openScope s).current.scopes.getLast? ≠ some scope := by
  show (s.current.scopes ++ [s.scopes.list.length]).getLast? ≠ some scope
  rw [List.getLast?_concat]
  exact fun heq => Nat.ne_of_gt h (Option.some.inj heq)

theorem inScope_leads {body : Compile α} {Q : Uses → α → Prop} (h : Orderly W G s)
    (hbody : Leads W G (openScope s) body (fun G' a _ => Q G' a)) :
    Leads W G s (inScope body) (fun G' a _ => Q G' a) := by
  refine LeadsIn.ensuring openScope (fun s => { s with current.scopes :=
    s.current.scopes.dropLast })
    hbody (fun G' s' h' => ?_) fun _ _ h => h
  have hchain : s'.current.scopes.dropLast = s.current.scopes := by
    rw [h'.chain]
    exact List.dropLast_concat
  have hgrows := h'.scopes
  rw [show (openScope s).current.scopes = s.current.scopes ++ [s.scopes.create.1] from rfl,
    List.drop_append_of_le_length (Nat.le_of_lt h.scopes.base)] at hgrows
  exact
    { h' with
      orderly := { h'.orderly with
        scopes := h.scopes.leave h'.orderly.scopes h'.chain
          (congrArg FunctionContext.loops (h'.context rfl)) hchain
        current := { h'.orderly.current with } }
      chain := hchain
      current := by
        cases h'.current with
        | same hname hkind hcode => exact .same hname hkind hcode
        | rest hasync hdepth hkind hhas hnew hcode =>
          exact .rest hasync hdepth hkind hhas hnew hcode
      scopes := .of_create hgrows
      ahead := fun e hold _ => h'.ahead e (openScope_old hold) (openScope_innermost hold)
      adds := fun hexact => { h'.adds hexact with } }

theorem enter_orderly (breakables loops : Nat) (h : Orderly W G s)
    (hlast : 0 < loops → s.current.scopes.getLast? ≠ some globalScope) :
    Orderly W G { s with context := s.context.enter breakables loops } :=
  { h with
    scopes := { h.scopes with
      loops := fun hglobal => by
        have hnone : loops = 0 := Nat.eq_zero_of_not_pos fun hpos => hlast hpos hglobal
        show s.context.loops + loops = 0
        rw [h.scopes.loops hglobal, hnone] }
    context := { h.context with }
    current := { h.current with } }

/-- What runs inside of further switches and loops. -/
theorem LeadsIn.enter {body : Compile α} {Q : Uses → α → Prop} (breakables loops : Nat)
    (h : Orderly W G s)
    (hbody : Leads W G { s with context := s.context.enter breakables loops } body
      (fun G' a _ => Q G' a)) :
    Leads W G s (modify (fun s => { s with context := s.context.enter breakables loops }) >>=
      fun _ => Compile.ensuring body
        (modify fun s => { s with context := s.context.leave breakables loops }))
      (fun G' a _ => Q G' a) := by
  refine LeadsIn.ensuring _ _ hbody (fun G' s' h' => ?_) fun _ _ h => h
  have hcontext : s'.context.leave breakables loops = s.context := by
    rw [h'.context rfl]
    exact s.context.leave_enter breakables loops
  exact
    { h' with
      orderly := { h'.orderly with
        scopes := { h'.orderly.scopes with
          loops := fun hlast => by
            show (s'.context.leave breakables loops).loops = 0
            rw [hcontext]
            exact h.scopes.loops (h'.chain ▸ hlast) }
        context := { h'.orderly.context with }
        current := { h'.orderly.current with } }
      breakables := congrArg FunctionContext.breakables hcontext
      context := fun _ => hcontext
      current := by
        cases h'.current with
        | same hname hkind hcode => exact .same hname hkind hcode
        | rest hasync hdepth hkind hhas hnew hcode =>
          exact .rest hasync hdepth hkind hhas hnew hcode
      adds := fun hexact => { h'.adds hexact with } }

theorem inBreakable_leads {body : Compile α} {Q : Uses → α → Prop} (h : Orderly W G s)
    (hbody : Leads W G { s with context := s.context.enter 1 0 } body (fun G' a _ => Q G' a)) :
    Leads W G s (inBreakable body) (fun G' a _ => Q G' a) :=
  LeadsIn.enter 1 0 h hbody

theorem inLoop_leads {body : Compile α} {Q : Uses → α → Prop} (h : Orderly W G s)
    (hbody : Leads W G { s with context := s.context.enter 0 1 } body (fun G' a _ => Q G' a)) :
    Leads W G s (inLoop body) (fun G' a _ => Q G' a) :=
  LeadsIn.enter 0 1 h hbody

/-- A loop with a scope of its own declares no global name. -/
theorem inLoop_inScope (body : Compile α) : inLoop (inScope body) = inScope (inLoop body) := by
  funext s
  have hscope : ∀ (c : Compile α) s, inScope c s = ensuring c
      (modify fun s => { s with current.scopes := s.current.scopes.dropLast }) (openScope s) :=
    fun _ _ => rfl
  have hloop : ∀ (c : Compile α) s, inLoop c s = ensuring c
      (modify fun s => { s with context := s.context.leave 0 1 })
      { s with context := s.context.enter 0 1 } := fun _ _ => rfl
  rw [hloop, ensuring_run, hscope, ensuring_run, hscope, ensuring_run, hloop, ensuring_run]
  have hstart : openScope { s with context := s.context.enter 0 1 } =
      { openScope s with context := (openScope s).context.enter 0 1 } := rfl
  rw [hstart]
  cases body { openScope s with context := (openScope s).context.enter 0 1 } <;> rfl

end Compile

/-! ### Units that are opened and closed -/

/-- The terms under which a name is reserved as well. -/
def Terms.reserving (t : Terms) (name : String) : Terms :=
  { t with reserved := fun n => t.reserved n ∨ n = name }

/-- The terms under which a name is not reserved. -/
def Terms.without (t : Terms) (name : String) : Terms :=
  { t with reserved := fun n => t.reserved n ∧ n ≠ name }

section

variable {opens : Bool} {W : Watch} {G G' : Uses} {s s' : Compiler} {name : String}

theorem Orderly.withTerms (h : Orderly W G s) (t : Terms) : Orderly { W with toTerms := t } G s :=
  { h with
    scopes := { h.scopes with bindings := fun t ht e he => { h.scopes.bindings t ht e he with } }
    current := { h.current with } }

theorem Advances.withTerms {t : Terms} (h : Advances opens W G s G' s')
    (hadds : t.exact → Adds t G s s') : Advances opens { W with toTerms := t } G s G' s' :=
  { h with
    orderly := h.orderly.withTerms t
    current := by
      cases h.current with
      | same hname hkind hcode => exact .same hname hkind hcode
      | rest hasync hdepth hkind hhas hnew hcode =>
        exact .rest hasync hdepth hkind hhas hnew hcode
    adds := hadds }

theorem Advances.of_reserving
    (h : Advances opens { W with toTerms := W.toTerms.reserving name } G s G' s') :
    Advances opens W G s G' s' :=
  h.withTerms (t := W.toTerms) fun hexact => { h.adds hexact with
    reserved := fun n u hn => (h.adds hexact).reserved n u (.inl hn) }

/-- To reserve a name that was unknown asks for nothing. -/
theorem Advances.of_without
    (h : Advances opens { W with toTerms := W.toTerms.without name } G s G' s')
    (hname : G.unit name = none) : Advances opens W G s G' s' :=
  h.withTerms (t := W.toTerms) fun hexact => { h.adds hexact with
    reserved := fun n u hn hu => by
      refine (h.adds hexact).reserved n u ⟨hn, ?_⟩ hu
      rintro rfl
      simp [hname] at hu }

/-- The unit is named and still to be made. -/
structure Pending (t : Terms) (G : Uses) (s : Compiler) (unit : String) (use : UnitUse) : Prop where
  use : G.unit unit = some use
  ne : unit ≠ s.current.name
  free : t.exact → s.units.has unit = false

/-- Other steps leave a unit that is still to be made to be made. -/
theorem Compile.LeadsIn.pending {α : Type} {use : UnitUse} {c : Compile α}
    {Q : Uses → α → Compiler → Prop} (hunit : Pending W.toTerms G s unit use)
    (h : Compile.LeadsIn opens { W with toTerms := W.toTerms.reserving unit } G s c Q) :
    Compile.LeadsIn opens W G s c
      (fun G' a s' => Q G' a s' ∧ Pending W.toTerms G' s' unit use) := by
  refine h.weaken (fun _ _ h => h.of_reserving) fun G' a s' hstep hQ => ⟨hQ, ?_⟩
  refine ⟨hstep.le.unit _ _ hunit.use, hstep.ne_current hunit.use hunit.ne, fun hexact => ?_⟩
  exact (hstep.adds hexact).reserved unit use (.inr rfl) hunit.use hunit.ne (hunit.free hexact)

theorem Advances.kind_ne_script (h : Advances opens W G s G' s')
    (hkind : s.current.info.kind ≠ .script) : s'.current.info.kind ≠ .script := by
  cases h.current with
  | same _ hkind' _ => rwa [hkind']
  | rest _ _ hkind' _ _ _ =>
    rw [hkind']
    decide

/-- A unit that is there has a use. -/
theorem Orderly.has_eq_false (h : Orderly W G s) (hname : G.unit name = none) :
    s.units.has name = false := by
  rw [← Table.find?_eq_none_iff]
  cases hfind : s.units.find? name with
  | none => rfl
  | some u =>
    obtain ⟨site, _, rfl, _, _, hcode⟩ := h.units _ (Table.mem_of_find? hfind)
    obtain ⟨use, huse, _⟩ := hcode.unit
    simp [hname] at huse

theorem Orderly.freshUnit_ne (h : Orderly W G s) :
    generatedUnit s.names.units ≠ s.current.name := by
  intro hname
  obtain ⟨u, hu, _⟩ := h.current.unit
  cases (h.freshUnit _ (Nat.le_refl _)).symm.trans ((congrArg G.unit hname).trans hu)

/-- A unit that was named is made. -/
theorem Settles.of_withUnit {use : UnitUse} (names : Names)
    (h : Settles (G.withUnit unit use) { s with names := names } G' s')
    (hunit : s'.units.has unit = true) : Settles G s G' s' := by
  intro n hn
  obtain ⟨⟨u, hu⟩, hrest⟩ := h n hn
  have hne : n ≠ unit := by
    rintro rfl
    exact absurd (hunit.symm.trans hn.2.1) (by decide)
  exact ⟨⟨u, by simpa [Uses.withUnit, hne] using hu⟩, hrest⟩

end

/-- A unit was opened in the first state, whose own unit waits. The new unit is watched in its own
    way. -/
structure Opens (W : Watch) (G : Uses) (s : Compiler) (W1 : Watch) (G1 : Uses)
    (s1 : Compiler) : Prop where
  outside : Orderly W G s
  inside : Orderly W1 G1 s1
  writes : W1.writes = W.writes
  terms : W1.toTerms = W.toTerms.reserving s.current.name
  le : G ≤ G1
  ns : s1.ns = s.ns
  names : s.names.Le s1.names
  parents : s1.parents = s.current :: s.parents
  functions : s1.functions = s.functions
  code : s1.code = []
  units : s1.units = s.units
  calls : s1.calls = s.calls
  scopes : ∀ b, s1.scopes.Grows (s1.current.scopes.drop W1.base) b →
    s.scopes.Grows (s.current.scopes.drop W.base) b
  hoisted : s1.hoisted = s.hoisted
  innermost : ∀ scope < s.scopes.list.length, s.current.scopes.getLast? ≠ some scope →
    s1.current.scopes.getLast? ≠ some scope
  /-- What the function around it declares may still be mentioned there -/
  sees : ∀ G2 s2, ScopesOrderly W1 G2 s2 → G1 ≤ G2 →
    s2.current.scopes = s1.current.scopes →
    s1.scopes.Grows (s1.current.scopes.drop W1.base) s2.scopes →
    ∀ scope ∈ s.current.scopes.drop W.base, ∀ name b, s2.scopes.own? scope name = some b →
      G2.Sees W.depth b.slot
  uses : ∀ n u, G1.unit n = some u → n = s1.current.name ∨ G.unit n = some u
  name : s1.current.name ≠ s.current.name
  kind : s1.current.info.kind ≠ .script
  tracked : Tracked G s.functions s.calls → Tracked G1 s1.functions s1.calls
  /-- The unit is a further one, and not reserved -/
  free : W.exact → s.units.has s1.current.name = false
  reserved : W.exact → ∀ u, G.unit s1.current.name = some u → ¬ W.reserved s1.current.name
  keep : W.exact → (∀ d, s.context.declaration = some d → W.keep d = false) →
    ∀ d, s1.context.declaration = some d → W.keep d = false

section

variable {opens : Bool} {W W1 : Watch} {G G1 G2 : Uses} {s s1 s2 : Compiler}
  (hopens : Opens W G s W1 G1 s1) (h : Advances opens W1 G1 s1 G2 s2)

include hopens h

/-- All units but those that were there are compiled inside. -/
theorem Advances.units_closeIn (e : String × CodeUnit) (he : e ∈ (s2.closeIn s).units) :
    e ∈ s.units ∨ (e.1 = s.current.name ∧
      ∃ b, Prolongs G2 (s.site W) W.writes s.address? s.code e.2.instrs b) ∨
      ∃ site a b, G2.Pieces site W.writes a e.2.instrs b := by
  have hcurrent := h.current
  have hunits := h.units
  rw [hopens.code, hopens.writes] at hunits
  rcases Table.mem_put he with rfl | he
  · cases hcurrent with
    | same _ _ hcode =>
      rw [hopens.code, hopens.writes] at hcode
      obtain ⟨is, hnew, his⟩ := hcode
      exact .inr (.inr ⟨_, _, _, (hnew.trans (List.nil_append is)).symm ▸ his⟩)
    | rest _ _ _ _ _ hcode =>
      rw [hopens.writes] at hcode
      exact .inr (.inr ⟨_, _, _, hcode⟩)
  · rcases hunits e he with he | ⟨_, b, is, hnew, his⟩ | hcode
    · exact .inl (hopens.units ▸ he)
    · exact .inr (.inr ⟨_, _, b, (hnew.trans (List.nil_append is)).symm ▸ his⟩)
    · exact .inr (.inr hcode)

theorem ScopesOrderly.closeIn : ScopesOrderly W G2 (s2.closeIn s) := by
  have hin := h.orderly.scopes
  have hgrows := hopens.scopes _ h.scopes
  exact
    { hopens.outside.scopes with
      valid := fun scope hscope =>
        (hopens.outside.scopes.valid scope hscope).imp_left (Nat.lt_of_lt_of_le · hgrows.length)
      sees := hopens.sees G2 s2 hin h.le h.chain h.scopes
      globals := hin.globals
      bindings := fun t ht e he => { hin.bindings t ht e he with
        writes := hopens.writes ▸ (hin.bindings t ht e he).writes }
      noted := hin.noted }

theorem Orderly.closeIn : Orderly W G2 (s2.closeIn s) := by
  have hle : G ≤ G2 := Uses.le_trans hopens.le h.le
  exact
    { h.orderly with
      freshSlot := hopens.writes ▸ h.orderly.freshSlot
      scopes := .closeIn hopens h
      context := hopens.outside.context.mono hle
      isAsync := hopens.outside.isAsync
      depth := hopens.outside.depth
      script := hopens.outside.script
      part := hopens.outside.part
      declaration := fun d hd => by
        show s2.functions.has d = true
        rw [h.functions, hopens.functions]
        exact hopens.outside.declaration d hd
      current := hopens.outside.current.mono hle
      units := fun e he => by
        rcases Table.mem_put he with rfl | he
        · exact ⟨_, _, rfl, h.orderly.isAsync.symm, rfl, h.orderly.current⟩
        · exact h.orderly.units e he
      inner := fun e he => by
        rcases Table.mem_put he with rfl | he
        · exact h.kind_ne_script hopens.kind
        · exact h.orderly.inner e he }

theorem Adds.closeIn (hexact : W.exact) : Adds W.toTerms G s (s2.closeIn s) := by
  have ha := h.adds (hopens.terms.symm ▸ hexact)
  rw [hopens.terms] at ha
  obtain ⟨hpre, hlast⟩ := ha.free (hopens.units ▸ hopens.free hexact)
  rw [hopens.units] at hpre
  -- a reserved name gets no unit inside, nor by the end of the unit
  have hnone : ∀ n u, (W.toTerms.reserving s.current.name).reserved n → G.unit n = some u →
      n ≠ s1.current.name → s.units.has n = false → (s2.closeIn s).units.has n = false := by
    intro n u hn hu hne hhas
    have hu1 := hopens.le.unit _ _ hu
    have hinside := ha.reserved n u hn hu1 hne (hopens.units ▸ hhas)
    show (s2.units.put s2.current.name s2.current.finish).has n = false
    rw [Table.has_put, hinside, decide_eq_false (h.ne_current hu1 hne).symm]
    rfl
  refine ⟨fun hcurrent => ⟨hpre.trans (Table.prefix_put _ hlast), ?_⟩,
    fun n u hn hu hne hhas => ?_, fun hkept => ?_⟩
  · obtain ⟨u, hu, _⟩ := hopens.outside.current.unit
    exact hnone _ u (.inr rfl) hu hopens.name.symm hcurrent
  · refine hnone n u (.inl hn) hu ?_ hhas
    rintro rfl
    exact hopens.reserved hexact u hu hn
  · exact hopens.calls ▸ ha.calls (hopens.keep hexact hkept)

/-- A finished unit is kept, and the state around it has advanced. -/
theorem Advances.closeIn : Advances false W G s G2 (s2.closeIn s) :=
  { (Advances.refl hopens.outside : Advances false W G s G s) with
    le := Uses.le_trans hopens.le h.le
    orderly := .closeIn hopens h
    ns := h.ns.trans hopens.ns
    names := hopens.names.trans h.names
    functions := hopens.functions ▸ h.functions
    current := .same rfl rfl (.refl _ _ _ _ _)
    scopes := hopens.scopes _ h.scopes
    ahead := fun e hold hne => hopens.hoisted ▸ h.ahead e
      (Nat.lt_of_lt_of_le hold (hopens.scopes _ (.refl _ _)).length) (hopens.innermost e.1 hold hne)
    unitNames := (hopens.units ▸ h.unitNames).trans (Table.names_prefix_put _ _ _)
    units := h.units_closeIn hopens
    grows := hopens.calls ▸ h.grows
    tracked := h.tracked ∘ hopens.tracked
    adds := .closeIn hopens h }

theorem Settles.closeIn (hs : Settles G1 s1 G2 s2) : Settles G s G2 (s2.closeIn s) := by
  rintro n ⟨huse, hhas, hne, hparents⟩
  have hhas' : (s2.units.put s2.current.name s2.current.finish).has n = false := hhas
  rw [Table.has_put, Bool.or_eq_false_iff, decide_eq_false_iff_not] at hhas'
  have houter : n ∉ s1.parents.map (·.name) := by
    rw [hopens.parents, List.map_cons, List.mem_cons, not_or]
    exact ⟨hne, hparents⟩
  have hdebt : Debt G2 s2 n := ⟨huse, hhas'.2, Ne.symm hhas'.1, by rwa [h.parents]⟩
  obtain ⟨⟨u, hu⟩, hhas1, hne1, _⟩ := hs n hdebt
  exact ⟨⟨u, (hopens.uses n u hu).resolve_left hne1⟩, hopens.units ▸ hhas1, hne, hparents⟩

end

namespace Compile

variable {α β : Type} {opens : Bool} {W W1 : Watch} {G G1 : Uses} {s s1 : Compiler}

/-- What runs in a unit that is closed afterwards, also when it fails. -/
theorem Opens.bracket {body : Compile α} (close : Compile β) (result : Compiler → β)
    {Q : Uses → α → Compiler → Prop} {R : Uses → α × β → Compiler → Prop}
    (hopens : Opens W G s W1 G1 s1) (hbody : LeadsIn opens W1 G1 s1 body Q)
    (hclose : ∀ G2 s2, Advances opens W1 G1 s1 G2 s2 →
      close s2 = .ok (result s2) (s2.closeIn s))
    (hR : ∀ G2 a s2, Advances opens W1 G1 s1 G2 s2 → Q G2 a s2 →
      R G2 (a, result s2) (s2.closeIn s)) :
    Ends false W G s (Compile.bracket body close s1) R := by
  unfold LeadsIn Ends at hbody
  unfold Ends
  rw [Compile.bracket]
  cases hb : body s1 with
  | ok a s2 =>
    rw [hb] at hbody
    obtain ⟨G2, h2, hsettles, hQ⟩ := hbody
    simp only [hclose G2 s2 h2]
    exact ⟨G2, .closeIn hopens h2, .closeIn hopens h2 hsettles, hR G2 a s2 h2 hQ⟩
  | error d s2 =>
    rw [hb] at hbody
    obtain ⟨G2, h2⟩ := hbody
    simp only [hclose G2 s2 h2]
    exact ⟨G2, .closeIn hopens h2⟩

/-- Only the answer is changed. -/
theorem Ends.map {c : Compile α} {f : α → β} {Q : Uses → α → Compiler → Prop}
    {R : Uses → β → Compiler → Prop} (h : Ends opens W G s (c s1) Q)
    (hR : ∀ G' a s', Advances opens W G s G' s' → Q G' a s' → R G' (f a) s') :
    Ends opens W G s ((do let a ← c; return f a) s1) R := by
  unfold Ends at h ⊢
  cases hc : c s1 with
  | ok a s' =>
    rw [hc] at h
    obtain ⟨G', h', hsettles, hQ⟩ := h
    rw [bind_of_ok hc]
    exact ⟨G', h', hsettles, hR G' a s' h' hQ⟩
  | error d s' =>
    rw [hc] at h
    rw [bind_of_error hc]
    exact h

end Compile

/-! ### Parts of a unit -/

/-- The use of a part of the present unit. -/
def Watch.partUse (W : Watch) (s : Compiler) (kind : UnitKind) (breakable fed : Bool) : UnitUse :=
  ⟨⟨W.root, s.home, breakable, fed, W.depth⟩, kind, some s.context.declaration⟩

/-- A part of the present unit relies on the return address. -/
def Watch.part (W : Watch) (s : Compiler) (breakable fed : Bool) : Watch :=
  { W with
    home := s.home, breakable := breakable, fed := fed
    toTerms := W.toTerms.reserving s.current.name }

section

variable {W : Watch} {G : Uses} {s : Compiler}

theorem Watch.partUse_eq (hhome : s'.home = s.home)
    (hdeclaration : s'.context.declaration = s.context.declaration) (kind : UnitKind)
    (breakable fed : Bool) : W.partUse s' kind breakable fed = W.partUse s kind breakable fed := by
  rw [partUse, partUse, hhome, hdeclaration]

/-- The parts of a unit stay its parts. -/
theorem Advances.partUse (h : Advances false W G s G' s') (kind : UnitKind) (breakable fed : Bool) :
    W.partUse s' kind breakable fed = W.partUse s kind breakable fed := by
  have hcontext := h.context rfl
  refine Watch.partUse_eq ?_ (congrArg FunctionContext.declaration hcontext) kind breakable fed
  rw [Compiler.home, Compiler.home, hcontext]

/-- What a part needs is there, whenever it is entered. -/
theorem Orderly.partOf {kind : UnitKind} {fed : Bool}
    (hunit : G.unit unit = some (W.partUse s kind breakable fed)) (hkind : kind.isPart = true)
    (hbreak : breakable = true → kind.takesBreak = true ∨ W.breakable = true) :
    G.PartOf (s.site W) s.address? unit (W.partUse s kind breakable fed) where
  unit := hunit
  part := hkind
  root := rfl
  depth := rfl
  owner := rfl
  breakable := hbreak
  home := by
    cases hasync : s.context.isAsync with
    | true => exact .inl (by simp [Watch.partUse, Compiler.home, hasync])
    | false =>
      refine .inr ?_
      rw [Compiler.address?_of_sync hasync]
      simp [Watch.partUse, Compiler.home, hasync]

variable {kind : UnitKind} (breakable fed opensScope : Bool)

theorem openPart_orderly (hkind : kind.isPart = true) (h : Orderly W G s) :
    Orderly (W.part s breakable fed)
      (G.withUnit (generatedUnit s.names.units) (W.partUse s kind breakable fed))
      (s.openPart kind opensScope) := by
  have hnamed := h.freshUnit_use (W.partUse s kind breakable fed)
  have huse : (G.withUnit (generatedUnit s.names.units) (W.partUse s kind breakable fed)).unit
      (generatedUnit s.names.units) = some (W.partUse s kind breakable fed) :=
    Uses.withUnit_self _ _
  have haddress : (s.openPart kind opensScope).address? = s.home := by
    simp [Compiler.address?, Compiler.openPart, Draft.child, Compiler.home]
  exact
    { hnamed with
      scopes := by
        cases opensScope with
        | false =>
          have hchain : (s.openPart kind false).current.scopes = s.current.scopes :=
            List.append_nil _
          exact
            { hnamed.scopes with
              chain := by
                rw [hchain]
                exact h.scopes.chain
              base := by
                rw [hchain]
                exact h.scopes.base
              valid := by
                rw [hchain]
                exact hnamed.scopes.valid
              sees := by
                rw [hchain]
                exact hnamed.scopes.sees
              loops := by
                rw [hchain]
                exact h.scopes.loops
              bindings := fun t ht e he => { hnamed.scopes.bindings t ht e he with } }
        | true =>
          have hopen := hnamed.scopes.openScope
          exact { hopen with bindings := fun t ht e he => { hopen.bindings t ht e he with } }
      declared := by
        cases opensScope with
        | false => exact hnamed.declared
        | true => exact hnamed.declared_create
      part := by simp [Compiler.openPart, Draft.child, hkind]
      current :=
        { unit := ⟨_, huse, rfl, rfl⟩
          owned := ⟨_, huse, .inl rfl⟩
          fixed := fun hwhole => absurd (hkind.symm.trans hwhole) (by decide)
          code := haddress ▸ .nil } }

theorem openPart_opens (hkind : kind.isPart = true) (h : Orderly W G s) :
    Opens W G s (W.part s breakable fed)
      (G.withUnit (generatedUnit s.names.units) (W.partUse s kind breakable fed))
      (s.openPart kind opensScope) := by
  have hfresh := h.freshUnit _ (Nat.le_refl _)
  exact
    { outside := h
      inside := openPart_orderly breakable fed opensScope hkind h
      writes := rfl
      terms := rfl
      le := Uses.le_withUnit _ hfresh
      ns := rfl
      names := ⟨Nat.le_refl _, Nat.le_refl _, Nat.le_refl _, Nat.le_succ _⟩
      parents := rfl
      functions := rfl
      code := rfl
      units := rfl
      calls := rfl
      scopes := fun b hb => by
        cases opensScope with
        | false => simpa [Compiler.openPart, Draft.child, Watch.part] using hb
        | true =>
          refine .of_create ?_
          rwa [← List.drop_append_of_le_length (Nat.le_of_lt h.scopes.base)]
      hoisted := rfl
      innermost := fun scope hold hne => by
        cases opensScope with
        | false => simpa [Compiler.openPart, Draft.child] using hne
        | true => exact Compile.openScope_innermost hold
      sees := fun G2 s2 h2 _ hchain _ scope hscope name b hb => by
        refine h2.sees scope ?_ name b hb
        rw [hchain]
        show scope ∈ (s.current.scopes ++ _).drop W.base
        rw [List.drop_append_of_le_length (Nat.le_of_lt h.scopes.base)]
        exact List.mem_append_left _ hscope
      uses := fun n u hu => by
        by_cases hn : n = generatedUnit s.names.units
        · exact .inl hn
        · exact .inr (by simpa [Uses.withUnit, hn] using hu)
      name := h.freshUnit_ne
      kind := UnitKind.ne_script hkind
      tracked := fun ht => { ht with }
      free := fun _ => h.has_eq_false hfresh
      reserved := fun _ u hu => absurd (hfresh.symm.trans hu) (by simp)
      keep := fun _ hkeep => hkeep }

end

/-- The present unit is a part of the one in the first state. -/
structure WithinPart (W : Watch) (G : Uses) (s : Compiler) (kind : UnitKind)
    (opensScope breakable fed : Bool) (G1 : Uses) (s1 : Compiler) : Prop where
  le : G ≤ G1
  orderly : Orderly (W.part s breakable fed) G1 s1
  context : s1.context = s.context
  unitKind : s1.current.info.kind = kind
  depth : s1.current.depth ≠ 0
  inner : s1.atTopLevel = false
  use : G1.unit s1.current.name = some (W.partUse s kind breakable fed)
  scope : opensScope = true → s1.current.scopes.getLast? ≠ some globalScope

namespace Compile

variable {W : Watch} {G : Uses} {s : Compiler}

/-- Compiles to a part of the present unit. -/
theorem inChild_leads {kind : UnitKind} {opensScope : Bool} {body : Compile Unit}
    (breakable fed : Bool) (hkind : kind.isPart = true) (h : Orderly W G s)
    (hbody : ∀ G1 s1, WithinPart W G s kind opensScope breakable fed G1 s1 →
      GoesOn (W.part s breakable fed) G1 s1 body) :
    Leads W G s (inChild kind opensScope body)
      (fun G' name _ => G'.unit name = some (W.partUse s kind breakable fed)) := by
  have hopen : openChild kind opensScope s = .ok () (s.openPart kind opensScope) := by
    cases opensScope <;> rfl
  have hopens := openPart_opens breakable fed opensScope hkind h
  have hpart : WithinPart W G s kind opensScope breakable fed _ (s.openPart kind opensScope) :=
    { le := hopens.le
      orderly := hopens.inside
      context := rfl
      unitKind := rfl
      depth := Nat.succ_ne_zero _
      inner := by simp [Compiler.atTopLevel, Compiler.openPart]
      use := Uses.withUnit_self _ _
      scope := by
        rintro rfl
        rw [show (s.openPart kind true).current.scopes = s.current.scopes ++ [s.scopes.create.1]
          from rfl, List.getLast?_concat]
        exact fun heq => h.scopes.create_ne (Option.some.inj heq) }
  refine Ends.ok hopen (Ends.map (Opens.bracket closeUnit (fun s2 => s2.current.name)
    (R := fun G' ab _ => G'.unit ab.2 = some (W.partUse s kind breakable fed)) hopens
    (hbody _ _ hpart) (fun G2 s2 h2 => ?_) fun G2 _ s2 h2 _ => ?_) fun _ _ _ _ h => h)
  · -- the part is closed in the context that it was opened in
    rw [closeUnit_run (h2.parents.trans hopens.parents)]
    have hcontext : s2.context = s.context := h2.context rfl
    have houter : s2.outer = s.outer := h2.outer
    rw [Compiler.closeIn, ← hcontext, ← houter]
  · -- an `await` cannot cut a part off
    show G2.unit s2.current.name = _
    rw [(h2.stays (.inr (Nat.succ_ne_zero _))).1]
    exact h2.le.unit _ _ hpart.use

/-! ### Calls of parts -/

/-- A unit for statements inside of a loop or switch may answer `break`. -/
theorem Orderly.allows_break (h : Orderly W G s) (hkind : s.current.info.kind ≠ .expression)
    (hbreakable : W.breakable = true) : (s.site W).role.Allows Instr.breakCode := by
  refine .inr ⟨?_, hkind, .inl ⟨rfl, hbreakable⟩⟩
  cases hpart : s.current.info.kind.isPart with
  | true => exact hpart
  | false => exact absurd (hbreakable.symm.trans (h.current.fixed hpart).2.1) (by decide)

/-- Inside of a function a part answers `return` too, while its body ends as usual. -/
theorem Orderly.allows_return (h : Orderly W G s) (hkind : s.current.info.kind ≠ .expression)
    (hscript : s.context.kind ≠ .script) : (s.site W).role.Allows
      (if s.current.depth = 0 then Instr.normal else Instr.returnCode) := by
  split
  · exact .inl rfl
  · next hdepth =>
    have hpart : s.current.info.kind.isPart = true := by
      rw [← Bool.not_eq_false, ← h.part]
      exact hdepth
    refine .inr ⟨hpart, hkind, .inr ⟨rfl, ?_⟩⟩
    exact bne_iff_ne.2 fun hzero => hscript (h.script.1 hzero)

theorem invoke_part_leads {kind : UnitKind} (h : Orderly W G s)
    (hguard : (G.permits W.toStanding).guard guard)
    (hunit : G.unit unit = some (W.partUse s kind breakable false)) (hkind : kind.isPart = true)
    (hbreak : breakable = true → kind.takesBreak = true ∨ W.breakable = true) :
    Leads W G s (invoke guard (.unit unit) none) (fun G' _ _ => G' = G) :=
  emit_leads h (.part hguard (Orderly.partOf hunit hkind hbreak) rfl nofun)

/-- Passes the return code of a call on. -/
theorem relays_leads {cell : Slot} (consumesBreak : Bool) (h : Orderly W G s) (hbody : InBody s)
    (hcell : G.slot cell = some .code)
    (hbreaks : consumesBreak = false → 0 < s.context.breakables → W.breakable = true) :
    GoesOn W G s (do
      let context := (← get).context
      if !consumesBreak && context.breakables > 0 then
        relay cell Instr.breakCode Instr.breakCode
      if context.kind ≠ .script then
        relay cell Instr.returnCode (← returnCode)) := by
  have hguard : ∀ {G1 : Uses} (code : Int32), G ≤ G1 →
      (G1.permits W.toStanding).guard (.when (.slot cell) (.int code)) := by
    intro G1 code hle
    have hsees : (G1.permits W.toStanding).place (.slot cell) :=
      (Uses.sees_of_slot hcell rfl W.depth).mono hle
    exact Permits.guard_when hsees _
  have hreturn : ∀ G1 s1, Advances false W G s G1 s1 → GoesOn W G1 s1
      (if s.context.kind ≠ .script then do relay cell Instr.returnCode (← returnCode)
        else pure ()) := by
    intro G1 s1 h1
    split
    · next hscript =>
      refine LeadsIn.read rfl ((emit_leads h1.orderly (.returnIf (hguard _ h1.le) ?_)).imp
        fun _ _ _ _ _ => trivial)
      exact Orderly.allows_return h1.orderly (hbody.step h1).kind (h1.kind ▸ hscript)
    · exact .pure h1.orderly trivial
  refine LeadsIn.read rfl ?_
  dsimp only
  split
  · next hcond =>
    simp only [Bool.and_eq_true, Bool.not_eq_eq_eq_not, Bool.not_true, decide_eq_true_eq] at hcond
    exact (emit_leads h (.returnIf (hguard _ G.le_refl)
      (Orderly.allows_break h hbody.kind (hbreaks hcond.1 hcond.2)))).bind
        fun G1 _ s1 h1 _ => hreturn G1 s1 h1
  · exact hreturn G s (.refl h)

/-- The call of a part that may end its caller. -/
theorem invokeRelaying_part_leads {kind : UnitKind} {consumesBreak : Bool} (h : Orderly W G s)
    (hbody : InBody s) (hguard : (G.permits W.toStanding).guard guard)
    (hunit : G.unit unit = some (W.partUse s kind breakable false)) (hkind : kind.isPart = true)
    (hbreak : breakable = true → kind.takesBreak = true ∨ W.breakable = true)
    (hbreaks : consumesBreak = false → 0 < s.context.breakables → W.breakable = true) :
    GoesOn W G s (invokeRelaying guard (.unit unit) none consumesBreak) := by
  refine (freshSlot_leads .code h).bind fun G1 cell s1 h1 ⟨hcell, hwrites⟩ => ?_
  refine (emit_leads h1.orderly (.code hcell hwrites _)).bind fun G2 _ s2 h2 _ => ?_
  have h12 := h1.trans h2
  have hcell2 := h2.le.slot _ _ hcell
  have hunit2 : G2.unit unit = some (W.partUse s2 kind breakable false) := by
    rw [h12.partUse]
    exact h12.le.unit _ _ hunit
  refine (emit_leads h2.orderly (.part ((Uses.permits_mono h12.le _).guard hguard)
    (Orderly.partOf hunit2 hkind hbreak) rfl fun p hp => ?_)).bind fun G3 _ s3 h3 hG3 => ?_
  · exact ⟨cell, (Option.some.inj hp).symm, hcell2, hwrites⟩
  · have h13 := h12.trans h3
    refine relays_leads consumesBreak h3.orderly (hbody.step h13) (hG3 ▸ hcell2) fun hc => ?_
    rw [h13.context rfl]
    exact hbreaks hc

end Compile

end PackScript
