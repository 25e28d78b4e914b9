import PackScript.Proofs.Uses.Emit

namespace PackScript

/-!
# Variables keep to the uses

Every binding has a slot that is used as a variable of its kind, wherever the binding was made: at
its declaration, ahead of it, or for a global name that is written. `declare_leads` and
`hoistBody_leads` are about the declarations, `lowerIdent_leads` and `assignableSlot_leads` about
the uses of names. A declaration also tells which binding the innermost scope has afterwards, since
a top-level function is known by its binding.
-/

variable {b : Binding} {id : Ident} {loops : List (Slot × Nat)} {body : List Stmt} {depth : Nat}
  {span : Span} {table : Table Binding}

/-! ### Bindings stay -/

namespace Scopes

variable {a a' : Scopes} {scope : ScopeId} {name : String} {b b' : Binding}

/-- Further names leave the bindings that are there. -/
theorem Grows.own? {chain : List ScopeId} (h : a.Grows chain a')
    (hown : a.own? scope name = some b) :
    a'.own? scope name = some b := by
  obtain ⟨table, htable, hb⟩ := Option.bind_eq_some_iff.1 hown
  obtain ⟨table', htable', hprefix, _⟩ := h.tables scope table htable
  exact Option.bind_eq_some_iff.2 ⟨table', htable', Table.find?_of_prefix hprefix hb⟩

/-- After a declaration the scope has the binding that counts. -/
theorem own?_of_declare (h : a.declare scope name b = .ok (b', a')) :
    a'.own? scope name = some b' := by
  rw [declare] at h
  split at h
  · cases h
  · next table htable =>
    have hlt : scope < a.list.length := (List.getElem?_eq_some_iff.1 htable).1
    split at h
    · next old hold =>
      split at h
      · cases h
        exact Option.bind_eq_some_iff.2 ⟨table, htable, hold⟩
      · cases h
    · cases h
      refine Option.bind_eq_some_iff.2 ⟨table.put name b, ?_, Table.find?_put_self _ _ _⟩
      simp [get?, hlt]

/-- The bindings of a scope in which a further name is bound. -/
theorem own?_set {other : ScopeId} {n : String} {b1 : Binding}
    (htable : a.list[scope]? = some table)
    (h : own? ⟨a.list.set scope (table.put name b)⟩ other n = some b1) :
    a.own? other n = some b1 ∨ (other = scope ∧ b1 = b) := by
  have hlt : scope < a.list.length := (List.getElem?_eq_some_iff.1 htable).1
  obtain ⟨t, ht, hb⟩ := Option.bind_eq_some_iff.1 h
  by_cases heq : scope = other
  · subst heq
    have ht' : table.put name b = t := by simpa [get?, hlt] using ht
    by_cases hn : name = n
    · subst hn
      rw [← ht', Table.find?_put_self] at hb
      exact .inr ⟨rfl, (Option.some.inj hb).symm⟩
    · rw [← ht', Table.find?_put_of_ne _ _ hn] at hb
      exact .inl (Option.bind_eq_some_iff.2 ⟨table, htable, hb⟩)
  · have ht' : a.list[other]? = some t := by simpa [get?, List.getElem?_set, heq] using ht
    exact .inl (Option.bind_eq_some_iff.2 ⟨t, ht', hb⟩)

end Scopes

/-! ### Bindings in sight -/

section

variable {W : Watch} {G : Uses} {s : Compiler} {scope : ScopeId} {name : String} {b : Binding}

theorem BindingOrderly.isValue (h : BindingOrderly W G loops b) : G.IsValue b.slot :=
  Uses.isValue_of_variable h.slot

/-- The slot of a binding may be mentioned where no closure would catch a variable of a loop. -/
theorem BindingOrderly.sees (h : BindingOrderly W G loops b)
    (hloop : ∀ k, loops.lookup b.slot = some k → depth ≤ k) : G.Sees depth b.slot :=
  ⟨_, h.slot, hloop⟩

theorem BindingOrderly.variable_ (h : BindingOrderly W G loops b) (hsees : G.Sees W.depth b.slot) :
    W.Variable G b.slot :=
  ⟨⟨_, _, h.slot⟩, hsees, h.writes⟩

theorem Orderly.resolve (h : Orderly W G s) (hb : s.resolve name = some b) :
    BindingOrderly W G s.loopBindings b := by
  obtain ⟨table, htable, hmem⟩ := Scopes.mem_of_resolve hb
  exact h.scopes.bindings table htable _ hmem

theorem Orderly.own (h : Orderly W G s) (hb : s.scopes.own? scope name = some b) :
    BindingOrderly W G s.loopBindings b := by
  obtain ⟨table, htable, hmem⟩ := Scopes.mem_of_own? hb
  exact h.scopes.bindings table htable _ hmem

/-- The innermost scope belongs to the present function. -/
theorem ScopesOrderly.innermost (h : ScopesOrderly W G s)
    (hscope : s.current.scopes.getLast? = some scope) :
    scope ∈ s.current.scopes.drop W.base := by
  have hbase := h.base
  have hlast : (s.current.scopes.drop W.base).getLast? = some scope := by
    rw [List.getLast?_drop, if_neg (by omega), hscope]
  exact List.mem_of_getLast? hlast

/-- What the innermost scope binds may be written. -/
theorem Orderly.innermost_variable (h : Orderly W G s)
    (hscope : s.current.scopes.getLast? = some scope)
    (hb : s.scopes.own? scope name = some b) : W.Variable G b.slot :=
  (h.own hb).variable_ (h.scopes.sees scope (h.scopes.innermost hscope) name b hb)

/-- A global name may be written anywhere. -/
theorem Orderly.global_variable (h : Orderly W G s)
    (hb : s.scopes.own? globalScope name = some b) : W.Variable G b.slot :=
  (h.own hb).variable_ ((h.own hb).sees fun k hk => by simp [h.scopes.globals name b hb] at hk)

end

/-! ### Further bindings -/

/-- The name can be declared in the scope. -/
def CanDeclare (s : Compiler) (scope : ScopeId) (kind : BindingKind) : Prop :=
  s.current.scopes.getLast? = some scope ∨ (scope = globalScope ∧ kind = .var_)

namespace Compiler

/-- The number of functions around the present loop, for a variable that belongs to it. -/
def loopOf (s : Compiler) (kind : BindingKind) : Option Nat :=
  if s.context.loops > 0 && (kind = .let_ || kind = .const_) then some s.outer.length else none

/-- The state with a binding for the next slot, which is noted if it is one of a loop. -/
def declaring (s : Compiler) (scopes : Scopes) (slot : Slot) (kind : BindingKind) : Compiler :=
  { s with
    names.slots := s.names.slots + 1
    scopes := scopes
    loopBindings := (s.loopOf kind).toList.map (slot, ·) ++ s.loopBindings }

variable {s : Compiler} {kind : BindingKind}

theorem loopOf_of_kind (hlet : kind ≠ .let_) (hconst : kind ≠ .const_) : s.loopOf kind = none := by
  simp [loopOf, hlet, hconst]

theorem loopOf_eq_some (h : s.loopOf kind = some depth) :
    0 < s.context.loops ∧ (kind = .let_ ∨ kind = .const_) ∧ depth = s.outer.length := by
  unfold loopOf at h
  split at h
  · next hcond =>
    simp only [gt_iff_lt, Bool.and_eq_true, decide_eq_true_eq, Bool.or_eq_true] at hcond
    exact ⟨hcond.1, hcond.2, (Option.some.inj h).symm⟩
  · cases h

end Compiler

section

variable {W : Watch} {G : Uses} {s : Compiler} {scope : ScopeId} {name : String}
  {kind : BindingKind}

/-- The next slot was noted for no loop. -/
theorem ScopesOrderly.lookup_fresh (h : ScopesOrderly W G s) :
    s.loopBindings.lookup ⟨s.names.slots⟩ = none := by
  rw [List.lookup_eq_none_iff]
  intro e he
  have hlt := h.noted e he
  simp only [bne_iff_ne, ne_eq]
  rintro heq
  rw [← heq] at hlt
  exact Nat.lt_irrefl _ hlt

theorem ScopesOrderly.lookup_declaring (h : ScopesOrderly W G s) (scopes : Scopes) (a : Slot) :
    (s.declaring scopes ⟨s.names.slots⟩ kind).loopBindings.lookup a =
      if a = ⟨s.names.slots⟩ then s.loopOf kind else s.loopBindings.lookup a := by
  unfold Compiler.declaring
  cases hloop : s.loopOf kind with
  | none =>
    split
    · next ha => simpa [ha] using h.lookup_fresh
    · rfl
  | some depth =>
    split
    · next ha => simp [ha]
    · next ha =>
      have hne : (a == (⟨s.names.slots⟩ : Slot)) = false := by simpa using ha
      simp [List.lookup, hne]

/-- The scopes with one more name. -/
theorem ScopesOrderly.declare (h : Orderly W G s) (hscope : CanDeclare s scope kind)
    (htable : s.scopes.list[scope]? = some table) :
    ScopesOrderly W (G.withSlot ⟨s.names.slots⟩ (.variable_ kind (s.loopOf kind)))
      (s.declaring ⟨s.scopes.list.set scope (table.put name ⟨⟨s.names.slots⟩, kind⟩)⟩
        ⟨s.names.slots⟩ kind) := by
  have hfresh := h.freshSlot _ (Nat.le_refl _)
  have hle := Uses.le_withSlot (.variable_ kind (s.loopOf kind)) hfresh.1
  have hself := Uses.withSlot_self (G := G) ⟨s.names.slots⟩ (.variable_ kind (s.loopOf kind))
  -- what was bound before has another slot
  have hold : ∀ {b}, BindingOrderly W G s.loopBindings b → b.slot ≠ ⟨s.names.slots⟩ := by
    intro b hb heq
    have := hb.slot
    simp [heq, hfresh.1] at this
  refine
    { chain := h.scopes.chain
      base := h.scopes.base
      valid := fun other hother => ?_
      sees := fun other hother n b hb => ?_
      loops := h.scopes.loops
      globals := fun n b hb => ?_
      bindings := fun t ht e he => ?_
      noted := fun e he => ?_ }
  · simpa [Compiler.declaring] using h.scopes.valid other hother
  · rcases Scopes.own?_set htable hb with hb | ⟨_, rfl⟩
    · exact (h.scopes.sees other hother n b hb).mono hle
    · exact ⟨_, hself, fun k hk =>
        Nat.le_of_eq (h.depth.trans (Compiler.loopOf_eq_some hk).2.2.symm)⟩
  · rw [h.scopes.lookup_declaring]
    rcases Scopes.own?_set htable hb with hb | ⟨hglobal, rfl⟩
    · rw [if_neg (hold (h.own hb))]
      exact h.scopes.globals n b hb
    · -- a global name is declared outside of loops, or by `var`
      rw [if_pos rfl]
      cases hloop : s.loopOf kind with
      | none => rfl
      | some depth =>
        obtain ⟨hpos, hkind, _⟩ := Compiler.loopOf_eq_some hloop
        rcases hscope with hlast | ⟨_, hvar⟩
        · rw [← hglobal] at hlast
          exact absurd (h.scopes.loops hlast) (by omega)
        · simp [hvar] at hkind
  · have hcase : e.2 = ⟨⟨s.names.slots⟩, kind⟩ ∨ BindingOrderly W G s.loopBindings e.2 := by
      rcases List.mem_or_eq_of_mem_set ht with ht | rfl
      · exact .inr (h.scopes.bindings t ht e he)
      · rcases Table.mem_put he with rfl | he
        · exact .inl rfl
        · exact .inr (h.scopes.bindings table (List.mem_of_getElem? htable) e he)
    rcases hcase with heq | hb
    · rw [heq]
      refine ⟨?_, hfresh.2, fun k hk => ?_⟩
      · rw [h.scopes.lookup_declaring, if_pos rfl]
        exact hself
      · rw [h.scopes.lookup_declaring, if_pos rfl] at hk
        exact (Compiler.loopOf_eq_some hk).2.1
    · refine ⟨?_, hb.writes, fun k hk => ?_⟩
      · rw [h.scopes.lookup_declaring, if_neg (hold hb)]
        exact hle.slot _ _ hb.slot
      · rw [h.scopes.lookup_declaring, if_neg (hold hb)] at hk
        exact hb.loop k hk
  · rcases List.mem_append.1 he with he | he
    · obtain ⟨depth, _, rfl⟩ := List.mem_map.1 he
      exact Nat.lt_succ_self _
    · exact Nat.lt_succ_of_lt (h.scopes.noted e he)

/-- One more name is bound. -/
theorem Advances.declare (h : Orderly W G s) (hscope : CanDeclare s scope kind)
    (htable : s.scopes.list[scope]? = some table) (hnew : table.has name = false) :
    Advances false W G s (G.withSlot ⟨s.names.slots⟩ (.variable_ kind (s.loopOf kind)))
      (s.declaring ⟨s.scopes.list.set scope (table.put name ⟨⟨s.names.slots⟩, kind⟩)⟩
        ⟨s.names.slots⟩ kind) := by
  have hgrows : s.scopes.Grows (s.current.scopes.drop W.base)
      ⟨s.scopes.list.set scope (table.put name ⟨⟨s.names.slots⟩, kind⟩)⟩ :=
    Scopes.grows_set _ (hscope.imp h.scopes.innermost And.left) htable hnew
  exact
    { (Advances.freshSlot (.variable_ kind (s.loopOf kind)) h : Advances false W G s _ _) with
      orderly :=
        { h.freshSlot_use (.variable_ kind (s.loopOf kind)) with
          scopes := .declare h hscope htable
          declared := fun e he => by
            obtain ⟨b, hb, hslot⟩ := h.declared e he
            exact ⟨b, hgrows.own? hb, hslot⟩ }
      current := .same rfl rfl (.refl _ _ _ _ _)
      scopes := hgrows
      adds := fun _ => { Adds.refl W.toTerms G s with } }

end

/-- What was declared ahead of its place is only noted, for the innermost scope. -/
theorem Advances.hoisted {opens : Bool} {W : Watch} {G : Uses} {s : Compiler} {scope : ScopeId}
    {hoisted : List (ScopeId × String)} (h : Orderly W G s)
    (hscope : s.current.scopes.getLast? = some scope)
    (hother : ∀ e, e.1 ≠ scope → (e ∈ hoisted ↔ e ∈ s.hoisted)) :
    Advances opens W G s G { s with hoisted := hoisted } :=
  { (Advances.refl h : Advances opens W G s G s) with
    orderly := { h with scopes := { h.scopes with } }
    current := .same rfl rfl (.refl _ _ _ _ _)
    ahead := fun e _ hne => hother e fun heq => hne (heq ▸ hscope)
    units := fun _ he => .inl he
    adds := fun _ => { Adds.refl W.toTerms G s with } }

namespace Compile

variable {W : Watch} {G : Uses} {s : Compiler} {scope : ScopeId} {name : String}
  {kind : BindingKind}

/-! ### Declarations -/

theorem declareIn_run {scopes : Scopes} (span : Span)
    (h : s.scopes.declare scope name ⟨⟨s.names.slots⟩, kind⟩ = .ok (b, scopes)) :
    declareIn scope name kind span s = .ok b.slot (s.declaring scopes b.slot kind) := by
  have hnote : noteLoopBinding b.slot kind
      { s with names.slots := s.names.slots + 1, scopes := scopes } =
      .ok () (s.declaring scopes b.slot kind) := by
    refine congrArg (EStateM.Result.ok ()) ?_
    unfold Compiler.declaring Compiler.loopOf
    dsimp only
    split <;> rfl
  refine (bind_of_ok rfl).trans ((bind_of_ok rfl).trans ?_)
  simp only [h]
  exact (bind_of_ok rfl).trans (bind_of_ok hnote)

theorem declareIn_run_error {e : DeclareError} (span : Span)
    (h : s.scopes.declare scope name ⟨⟨s.names.slots⟩, kind⟩ = .error e) :
    ∃ d, declareIn scope name kind span s =
      .error d { s with names.slots := s.names.slots + 1 } := by
  cases e with
  | alreadyDeclared other =>
    refine ⟨.malformed ("Identifier '" ++ other ++ "' has already been declared") span, ?_⟩
    refine (bind_of_ok rfl).trans ((bind_of_ok rfl).trans ?_)
    simp only [h]
    rfl
  | unknownScope other =>
    refine ⟨.invariant "declaration in an unknown scope" span, ?_⟩
    refine (bind_of_ok rfl).trans ((bind_of_ok rfl).trans ?_)
    simp only [h]
    rfl

/-- The scope has a binding of the name with the slot. -/
def Binds (s : Compiler) (scope : ScopeId) (name : String) (slot : Slot) : Prop :=
  ∃ b, s.scopes.own? scope name = some b ∧ b.slot = slot

section

variable (h : Orderly W G s)

include h

theorem declareIn_leads (hscope : CanDeclare s scope kind) :
    Leads W G s (declareIn scope name kind span)
      (fun G' slot s' => W.Variable G' slot ∧ Binds s' scope name slot) := by
  cases hdeclare : s.scopes.declare scope name ⟨⟨s.names.slots⟩, kind⟩ with
  | error e =>
    obtain ⟨d, hrun⟩ := declareIn_run_error span hdeclare
    unfold Leads LeadsIn
    rw [hrun]
    exact ⟨_, .freshSlot (.variable_ kind none) h⟩
  | ok found =>
    obtain ⟨b, scopes⟩ := found
    have hown := Scopes.own?_of_declare hdeclare
    have hrun := declareIn_run span hdeclare
    rcases Scopes.declare_cases hdeclare with
      ⟨rfl, hlet, hconst⟩ | ⟨rfl, table, htable, hnew, rfl⟩
    · -- the binding that is there stays, and the slot that was taken is not used
      have hsame : s.declaring s.scopes b.slot kind =
          { s with names.slots := s.names.slots + 1 } := by
        simp [Compiler.declaring, Compiler.loopOf_of_kind hlet hconst]
      have hb : W.Variable G b.slot := by
        rcases hscope with hlast | ⟨rfl, _⟩
        · exact h.innermost_variable hlast hown
        · exact h.global_variable hown
      have h1 : Advances false W G s _ _ := .freshSlot (.variable_ kind none) h
      exact .of_ok (hsame ▸ hrun) h1 (fun _ hn => hn) ⟨hb.mono h1.le, b, hown, rfl⟩
    · have h1 := Advances.declare h hscope htable hnew
      have hself := Uses.withSlot_self (G := G) ⟨s.names.slots⟩ (.variable_ kind (s.loopOf kind))
      have hsees : Uses.Sees _ W.depth ⟨s.names.slots⟩ := ⟨_, hself, fun k hk =>
        Nat.le_of_eq (h.depth.trans (Compiler.loopOf_eq_some hk).2.2.symm)⟩
      exact .of_ok hrun h1 (fun _ hn => hn)
        ⟨⟨⟨_, _, hself⟩, hsees, (h.freshSlot _ (Nat.le_refl _)).2⟩, _, hown, rfl⟩

theorem existingBinding?_leads (hscope : s.current.scopes.getLast? = some scope) :
    Leads W G s (existingBinding? scope name kind)
      (fun G' b? s' => ∀ b, b? = some b → W.Variable G' b.slot ∧
        (kind ≠ .var_ → s'.scopes.own? scope name = some b)) := by
  have hahead : Leads W G s
      (do if ← claimHoisted scope name then return (← get).scopes.own? scope name
          else return none)
      (fun G' b? s' => ∀ b, b? = some b → W.Variable G' b.slot ∧
        s'.scopes.own? scope name = some b) := by
    have hclaim : GoesOn W G s (claimHoisted scope name) :=
      ⟨G, .hoisted h hscope fun e hne => List.mem_erase_of_ne (by rintro rfl; exact hne rfl),
        fun _ hn => hn, trivial⟩
    refine hclaim.bind fun G1 found s1 h1 _ => ?_
    have hscope1 : s1.current.scopes.getLast? = some scope := h1.chain ▸ hscope
    split
    · exact LeadsIn.read rfl
        (.pure h1.orderly fun b hb => ⟨h1.orderly.innermost_variable hscope1 hb, hb⟩)
    · exact .pure h1.orderly fun _ hb => (nomatch hb)
  refine hahead.bind fun G1 ahead s1 h1 hb1 => ?_
  split
  · exact .pure h1.orderly fun b hb => ⟨(hb1 b hb).1, fun _ => (hb1 b hb).2⟩
  · split
    · next hkind =>
      refine LeadsIn.read rfl (.pure h1.orderly fun b hb => ⟨?_, fun hne => absurd hkind hne⟩)
      -- no `var` is one of a loop
      obtain ⟨hresolve, hvar⟩ := Option.filter_eq_some_iff.1 hb
      have hbinding := h1.orderly.resolve hresolve
      refine hbinding.variable_ (hbinding.sees fun k hk => ?_)
      have := hbinding.loop k hk
      simp [of_decide_eq_true hvar] at this
    · exact .pure h1.orderly fun _ hb => (nomatch hb)

theorem declare_leads :
    Leads W G s (declare name kind span)
      (fun G' slot s' => W.Variable G' slot ∧
        (kind ≠ .var_ → ∀ scope, s.current.scopes.getLast? = some scope →
          Binds s' scope name slot)) := by
  refine LeadsIn.read rfl ?_
  split
  · exact .throw h
  · next scope hscope =>
    refine (existingBinding?_leads h hscope).bind fun G1 b? s1 h1 hb => ?_
    have hscope1 : s1.current.scopes.getLast? = some scope := h1.chain ▸ hscope
    split
    · next b =>
      obtain ⟨hslot, hown⟩ := hb b rfl
      refine .pure h1.orderly ⟨hslot, fun hkind scope' hscope' => ?_⟩
      obtain rfl : scope = scope' := Option.some.inj (hscope.symm.trans hscope')
      exact ⟨b, hown hkind, rfl⟩
    · refine (declareIn_leads h1.orderly (.inl hscope1)).imp
        fun _ _ _ _ ⟨hslot, hbinds⟩ => ⟨hslot, ?_⟩
      intro _ scope' hscope'
      obtain rfl : scope = scope' := Option.some.inj (hscope.symm.trans hscope')
      exact hbinds

/-- A declaration answers the slot of a variable. -/
theorem declare_variable_leads :
    Leads W G s (declare name kind span) (fun G' slot _ => W.Variable G' slot) :=
  (declare_leads h).imp fun _ _ _ _ h => h.1

theorem globalSlot_leads :
    Leads W G s (globalSlot name span) (fun G' slot _ => W.Variable G' slot) := by
  refine LeadsIn.read rfl ?_
  split
  · next b hb => exact .pure h (h.global_variable hb)
  · exact (declareIn_leads h (.inr ⟨rfl, rfl⟩)).imp fun _ _ _ _ h => h.1

/-! ### Declarations ahead of their place -/

theorem hoistVar_leads (hscope : s.current.scopes.getLast? = some scope) :
    GoesOn W G s (hoistVar scope id) := by
  refine LeadsIn.read rfl ?_
  split
  · refine (declareIn_leads h (.inl hscope)).bind fun G1 slot s1 h1 ⟨hslot, _⟩ => ?_
    exact (assign_leads (v := .undefined) h1.orderly hslot.takes trivial).imp
      fun _ _ _ _ _ => trivial
  · exact .pure h trivial

theorem hoistName_leads (hscope : s.current.scopes.getLast? = some scope) :
    GoesOn W G s (hoistName scope kind id) := by
  refine LeadsIn.read rfl ?_
  split
  · refine (declareIn_leads h (.inl hscope)).bind fun G1 slot s1 h1 _ => ?_
    refine ⟨G1, .hoisted h1.orderly (h1.chain ▸ hscope) fun e hne => ?_, fun _ hn => hn, trivial⟩
    rw [List.mem_insert_iff, or_iff_right]
    rintro rfl
    exact hne rfl
  · exact .pure h trivial

theorem hoistNames_leads : GoesOn W G s (hoistNames body) := by
  refine LeadsIn.read rfl ?_
  split
  · exact .pure h trivial
  · next scope hscope =>
    exact LeadsIn.forM (fun _ _ => True) h trivial
      fun _ _ G1 s1 h1 _ => hoistName_leads h1.orderly (h1.chain ▸ hscope)

theorem hoistBody_leads : GoesOn W G s (hoistBody body) := by
  refine LeadsIn.read rfl ?_
  split
  · exact .pure h trivial
  · next scope hscope =>
    refine (LeadsIn.forM (fun _ _ => True) h trivial fun _ _ G1 s1 h1 _ =>
      hoistVar_leads h1.orderly (h1.chain ▸ hscope)).bind fun G2 _ s2 h2 _ => ?_
    exact hoistNames_leads h2.orderly

/-! ### Use of names -/

/-- A name that is not caught may be mentioned. -/
theorem checkLoopCapture_leads (hb : BindingOrderly W G s.loopBindings b) :
    Leads W G s (checkLoopCapture b.slot id) (fun G' _ _ => G' = G ∧ G.Sees W.depth b.slot) := by
  refine LeadsIn.read rfl ?_
  split
  · next depth hdepth =>
    split
    · exact .throw h
    · next hle =>
      refine .pure h ⟨rfl, hb.sees fun k hk => ?_⟩
      obtain rfl : depth = k := Option.some.inj (hdepth.symm.trans hk)
      rw [h.depth]
      omega
  · next hnone => exact .pure h ⟨rfl, hb.sees fun k hk => by simp [hnone] at hk⟩

theorem lowerIdent_leads : Leads W G s (lowerIdent id) (fun G' v _ => v.Readable W G') := by
  refine LeadsIn.read rfl ?_
  split
  · next b hb =>
    have hbinding := h.resolve hb
    refine (checkLoopCapture_leads h hbinding).bind fun G1 _ s1 h1 ⟨_, hsees⟩ => ?_
    exact .pure h1.orderly (Uses.Reads.mono ⟨hbinding.isValue, hsees⟩ h1.le)
  · split
    · exact .pure h trivial
    · exact .pure h trivial
    · exact .pure h trivial
    · exact .throw h
    · exact .throw h

theorem assignableSlot_leads :
    Leads W G s (assignableSlot id) (fun G' slot _ => W.Variable G' slot) := by
  refine LeadsIn.read rfl ?_
  split
  · exact .throw h
  · next b hb =>
    have hbinding := h.resolve hb
    split
    · refine (checkLoopCapture_leads h hbinding).bind fun G1 _ s1 h1 ⟨_, hsees⟩ => ?_
      exact .pure h1.orderly ((hbinding.variable_ hsees).mono h1.le)
    · exact .throw h

end

end Compile

end PackScript
