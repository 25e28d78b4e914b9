import PackScript.Proofs.Control.Reference
import PackScript.Proofs.Folding
import PackScript.Proofs.Steps

namespace PackScript

/-!
# What structured code is compiled to

A structured statement appends instructions to the present unit, finishes some generated units and
leaves everything else as it is.

* `Emits s is s'` — the one way in which the compiler goes on for such statements.
* `Compile.Yields s c Q` — the step succeeds, emits code, and `Q` tells which.
* `Layout`, `Ready` — where the variables are, and that the compiler finds them there.
* `Compile.inChild_yields` — a unit inside of the present one.
-/

/-! ### Emitted code -/

/-- The present unit has grown by the instructions. Besides that, names were handed out and
    generated units were finished. -/
structure Emits (s : Compiler) (is : List Instr) (s' : Compiler) : Prop where
  instrs : s'.current.instrs.toList = s.current.instrs.toList ++ is
  name : s'.current.name = s.current.name
  chain : s'.current.scopes = s.current.scopes
  own : ∀ scope name, s'.scopes.own? scope name = s.scopes.own? scope name
  loopBindings : s'.loopBindings = s.loopBindings
  context : s'.context = s.context
  parents : s'.parents = s.parents
  slots : s.names.slots ≤ s'.names.slots
  count : s.names.units ≤ s'.names.units
  units : s.units <+: s'.units
  added : ∀ e ∈ s'.units, e ∈ s.units ∨
    ∃ k, e.1 = generatedUnit k ∧ s.names.units ≤ k ∧ k < s'.names.units

namespace Emits

variable {s s1 s2 : Compiler} {is js : List Instr}

theorem refl (s : Compiler) : Emits s [] s where
  instrs := (List.append_nil _).symm
  name := rfl
  chain := rfl
  own _ _ := rfl
  loopBindings := rfl
  context := rfl
  parents := rfl
  slots := Nat.le_refl _
  count := Nat.le_refl _
  units := List.prefix_rfl
  added _ h := .inl h

theorem trans (h : Emits s is s1) (h' : Emits s1 js s2) : Emits s (is ++ js) s2 where
  instrs := by rw [h'.instrs, h.instrs, List.append_assoc]
  name := h'.name.trans h.name
  chain := h'.chain.trans h.chain
  own scope name := (h'.own scope name).trans (h.own scope name)
  loopBindings := h'.loopBindings.trans h.loopBindings
  context := h'.context.trans h.context
  parents := h'.parents.trans h.parents
  slots := Nat.le_trans h.slots h'.slots
  count := Nat.le_trans h.count h'.count
  units := h.units.trans h'.units
  added e he := by
    have hcount := h.count
    have hcount' := h'.count
    rcases h'.added e he with he | ⟨k, hk, hlow, hhigh⟩
    · rcases h.added e he with he | ⟨k, hk, hlow, hhigh⟩
      · exact .inl he
      · exact .inr ⟨k, hk, hlow, by omega⟩
    · exact .inr ⟨k, hk, by omega, hhigh⟩

theorem push (s : Compiler) (is : List Instr) : Emits s is (s.push is) :=
  { refl s with instrs := s.toList_instrs_push is }

/-- Names are handed out. -/
theorem names {names : Names} (hslots : s.names.slots ≤ names.slots)
    (hunits : s.names.units = names.units) : Emits s [] { s with names := names } :=
  { refl s with
    slots := hslots
    count := Nat.le_of_eq hunits
    added := fun _ he => .inl he }

/-- Names mean what they meant. -/
theorem resolve (h : Emits s is s1) (name : String) : s1.resolve name = s.resolve name := by
  rw [Compiler.resolve, Compiler.resolve, h.chain, Scopes.resolve, Scopes.resolve]
  exact congrArg (List.findSome? · _) (funext fun scope => h.own scope name)

end Emits

/-! ### Steps that succeed -/

namespace Compile

variable {α β : Type} {s : Compiler}

/-- The step succeeds, and `Q` holds of what it answers, of the code it emits and of the state
    afterwards. -/
def Yields (s : Compiler) (c : Compile α) (Q : α → List Instr → Compiler → Prop) : Prop :=
  ∃ a is s', c s = .ok a s' ∧ Emits s is s' ∧ Q a is s'

variable {c : Compile α} {f : α → Compile β} {Q : α → List Instr → Compiler → Prop}
  {R : β → List Instr → Compiler → Prop}

theorem Yields.pure {a : α} (h : Q a [] s) : Yields s (Pure.pure a) Q :=
  ⟨a, [], s, rfl, .refl s, h⟩

theorem Yields.bind (h : Yields s c Q)
    (hf : ∀ a is s1, Emits s is s1 → Q a is s1 →
      Yields s1 (f a) fun b js s2 => R b (is ++ js) s2) :
    Yields s (c >>= f) R := by
  obtain ⟨a, is, s1, hrun, hemits, hQ⟩ := h
  obtain ⟨b, js, s2, hrun', hemits', hR⟩ := hf a is s1 hemits hQ
  exact ⟨b, is ++ js, s2, (bind_of_ok hrun).trans hrun', hemits.trans hemits', hR⟩

theorem Yields.assoc {g : β → Compile γ} {R : γ → List Instr → Compiler → Prop}
    (h : Yields s ((c >>= f) >>= g) R) : Yields s (c >>= fun a => f a >>= g) R :=
  bind_assoc c f g ▸ h

theorem Yields.imp {Q' : α → List Instr → Compiler → Prop} (h : Yields s c Q)
    (hQ : ∀ a is s', Emits s is s' → Q a is s' → Q' a is s') : Yields s c Q' := by
  obtain ⟨a, is, s', hrun, hemits, h⟩ := h
  exact ⟨a, is, s', hrun, hemits, hQ a is s' hemits h⟩

/-- A step that only looks at the state. -/
theorem Yields.read {a : α} (hc : c s = .ok a s) (h : Yields s (f a) R) :
    Yields s (c >>= f) R := by
  obtain ⟨b, js, s2, hrun, hemits, hR⟩ := h
  exact ⟨b, js, s2, (bind_of_ok hc).trans hrun, hemits, hR⟩

theorem emit_yields (i : Instr) (s : Compiler) :
    Yields s (emit i) fun _ is _ => is = [i] :=
  ⟨(), [i], s.push [i], rfl, .push s [i], rfl⟩

theorem freshSlot_yields (s : Compiler) :
    Yields s freshSlot fun a is s' =>
      a = ⟨s.names.slots⟩ ∧ is = [] ∧ s'.names.slots = s.names.slots + 1 :=
  ⟨⟨s.names.slots⟩, [], _, rfl, .names (Nat.le_succ _) rfl, rfl, rfl, rfl⟩

/-- A call of a library routine whose entries are known. -/
theorem callLibrary_yields (routine : Routine) (entries : Entries) (s : Compiler) :
    Yields s (callLibrary routine entries) fun _ is _ =>
      ∃ c, is = Run.libraryCode c routine entries := by
  have hemits : Emits s [] { s with names.channels := s.names.channels + 1 } :=
    .names (Nat.le_refl _) rfl
  exact ⟨(), _, _, callLibrary_run routine entries s, hemits.trans (.push _ _),
    ⟨s.names.channels⟩, rfl⟩

end Compile

/-! ### Variables -/

/-- Where the variables of a script are: in slots of their own below a number. -/
structure Layout where
  names : List String
  slot : String → Slot
  base : Nat
  below : ∀ x ∈ names, (slot x).index < base
  injective : ∀ x ∈ names, ∀ y ∈ names, slot x = slot y → x = y

/-- The compiler finds the variables in their slots, and is outside of all functions. -/
structure Ready (L : Layout) (s : Compiler) : Prop where
  bound : ∀ x ∈ L.names, s.resolve x = some ⟨L.slot x, .let_⟩
  run : s.resolve Intrinsic.run.name = none
  loopBindings : s.loopBindings = []
  script : s.context.kind = .script
  base : L.base ≤ s.names.slots
  units : ∀ e ∈ s.units, ∃ k, e.1 = generatedUnit k ∧ k < s.names.units

namespace Ready

variable {L : Layout} {s s' : Compiler} {is : List Instr}

theorem emits (h : Ready L s) (he : Emits s is s') : Ready L s' where
  bound x hx := (he.resolve x).trans (h.bound x hx)
  run := (he.resolve _).trans h.run
  loopBindings := he.loopBindings.trans h.loopBindings
  script := he.context ▸ h.script
  base := Nat.le_trans h.base he.slots
  units e he' := by
    have hcount := he.count
    rcases he.added e he' with hold | ⟨k, hk, _, hlt⟩
    · obtain ⟨k, hk, hlt⟩ := h.units e hold
      exact ⟨k, hk, by omega⟩
    · exact ⟨k, hk, hlt⟩

/-- Inside of further loops and switches. -/
theorem enter (h : Ready L s) (breakables loops : Nat) :
    Ready L { s with context := s.context.enter breakables loops } :=
  { h with }

end Ready

/-! ### Scopes -/

theorem Ready.openPart {L : Layout} {s : Compiler} (h : Ready L s) (kind : UnitKind)
    (opensScope : Bool) : Ready L (s.openPart kind opensScope) := by
  have hresolve : ∀ name, (s.openPart kind opensScope).resolve name = s.resolve name := by
    intro name
    cases opensScope with
    | false => simp [Compiler.openPart, Compiler.resolve, Draft.child]
    | true => exact s.scopes.resolve_create s.current.scopes name
  exact
    { bound := fun x hx => (hresolve x).trans (h.bound x hx)
      run := (hresolve _).trans h.run
      loopBindings := h.loopBindings
      script := h.script
      base := h.base
      units := fun e he => by
        obtain ⟨k, hk, hlt⟩ := h.units e he
        exact ⟨k, hk, Nat.lt_succ_of_lt hlt⟩ }

theorem Ready.openScope {L : Layout} {s : Compiler} (h : Ready L s) :
    Ready L (Compile.openScope s) := by
  have hresolve : ∀ name, (Compile.openScope s).resolve name = s.resolve name :=
    fun name => s.scopes.resolve_create s.current.scopes name
  exact { h with
    bound := fun x hx => (hresolve x).trans (h.bound x hx)
    run := (hresolve _).trans h.run }

namespace Compile

variable {α : Type} {L : Layout} {s : Compiler}

/-- What runs inside of further loops and switches emits its code all the same. -/
theorem enter_yields {body : Compile α} {Q : α → List Instr → Compiler → Prop}
    (breakables loops : Nat)
    (h : Yields { s with context := s.context.enter breakables loops } body Q)
    (hQ : ∀ a is s', Q a is s' → Q a is
      { s' with context := s'.context.leave breakables loops }) :
    Yields s (modify (fun s => { s with context := s.context.enter breakables loops }) >>=
      fun _ => ensuring body
        (modify fun s => { s with context := s.context.leave breakables loops })) Q := by
  obtain ⟨a, is, s', hrun, hemits, hq⟩ := h
  refine ⟨a, is, { s' with context := s'.context.leave breakables loops }, ?_,
    { hemits with context := ?_ }, hQ a is s' hq⟩
  · refine (bind_of_ok rfl).trans ?_
    rw [ensuring_run, hrun]
  · have hcontext : s'.context = s.context.enter breakables loops := hemits.context
    show s'.context.leave breakables loops = s.context
    rw [hcontext, FunctionContext.leave_enter]

/-- What runs in a further scope emits its code all the same. -/
theorem inScope_yields {body : Compile α} {Q : α → List Instr → Compiler → Prop}
    (h : Yields (openScope s) body Q)
    (hQ : ∀ a is s', Q a is s' → Q a is
      { s' with current.scopes := s'.current.scopes.dropLast }) :
    Yields s (inScope body) Q := by
  obtain ⟨a, is, s', hrun, hemits, hq⟩ := h
  refine ⟨a, is, { s' with current.scopes := s'.current.scopes.dropLast }, ?_,
    { hemits with chain := ?_, own := fun scope name => ?_ }, hQ a is s' hq⟩
  · have hrun' : inScope body s = ensuring body
        (modify fun s => { s with current.scopes := s.current.scopes.dropLast }) (openScope s) :=
      rfl
    rw [hrun', ensuring_run, hrun]
  · have hchain : s'.current.scopes = s.current.scopes ++ [s.scopes.create.1] := hemits.chain
    show s'.current.scopes.dropLast = s.current.scopes
    rw [hchain, List.dropLast_concat]
  · exact (hemits.own scope name).trans (s.scopes.own?_create scope name)

/-- A unit inside of the present one: it is finished, and nothing is emitted around it. -/
theorem inChild_yields {kind : UnitKind} {opensScope : Bool} {body : Compile Unit}
    {Q : List Instr → Compiler → Prop} (hs : Ready L s)
    (h : Yields (s.openPart kind opensScope) body fun _ is s' => Q is s') :
    Yields s (inChild kind opensScope body) fun name is s' => is = [] ∧
      name = generatedUnit s.names.units ∧
      ∃ u s1, s'.units.find? name = some u ∧ Q u.instrs s1 ∧ s1.units <+: s'.units ∧
        s'.names = s1.names := by
  obtain ⟨_, is, s1, hrun, hemits, hq⟩ := h
  have hopen : openChild kind opensScope s = .ok () (s.openPart kind opensScope) := by
    cases opensScope <;> rfl
  have hname : s1.current.name = generatedUnit s.names.units := hemits.name
  have hcount : s.names.units + 1 ≤ s1.names.units := hemits.count
  -- the units finished inside have other names
  have hfree : s1.units.has s1.current.name = false := by
    rw [hname, ← Table.find?_eq_none_iff]
    cases hfind : s1.units.find? (generatedUnit s.names.units) with
    | none => rfl
    | some u =>
      exfalso
      rcases hemits.added _ (Table.mem_of_find? hfind) with hold | ⟨k, hk, hlow, _⟩
      · obtain ⟨k, hk, hlt⟩ := hs.units _ hold
        have := generatedUnit_injective hk
        omega
      · have := generatedUnit_injective hk
        have hlow' : s.names.units + 1 ≤ k := hlow
        omega
  have hprefix : s1.units <+: s1.units.put s1.current.name s1.current.finish :=
    Table.prefix_put _ hfree
  have hclosed : inChild kind opensScope body s = .ok s1.current.name
      { s1 with
        units := s1.units.put s1.current.name s1.current.finish
        current := s.current, parents := s.parents } := by
    have hbracket : bracket body closeUnit (s.openPart kind opensScope) =
        .ok ((), s1.current.name) { s1 with
          units := s1.units.put s1.current.name s1.current.finish
          current := s.current, parents := s.parents } := by
      rw [bracket, hrun]
      simp only [closeUnit_run hemits.parents]
    exact (bind_of_ok hopen).trans (bind_of_ok hbracket)
  refine ⟨_, [], _, hclosed, ?_, rfl, hname, s1.current.finish, s1,
    Table.find?_put_self _ _ _, ?_, hprefix, rfl⟩
  · exact
      { instrs := (List.append_nil _).symm
        name := rfl
        chain := rfl
        own := fun scope name => by
          refine (hemits.own scope name).trans ?_
          cases opensScope with
          | false => rfl
          | true => exact s.scopes.own?_create scope name
        loopBindings := hemits.loopBindings
        context := hemits.context
        parents := rfl
        slots := hemits.slots
        count := Nat.le_of_succ_le hcount
        units := hemits.units.trans hprefix
        added := fun e he => by
          rcases Table.mem_put he with rfl | he
          · exact .inr ⟨s.names.units, hname, Nat.le_refl _, hcount⟩
          · rcases hemits.added e he with hold | ⟨k, hk, hlow, hhigh⟩
            · exact .inl hold
            · exact .inr ⟨k, hk, Nat.le_of_succ_le hlow, hhigh⟩ }
  · have hinstrs : s1.current.finish.instrs = is := hemits.instrs
    rw [hinstrs]
    exact hq

end Compile

end PackScript
