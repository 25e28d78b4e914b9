import PackScript.Proofs.Operands
import PackScript.Proofs.Promises

namespace PackScript

/-!
# Constants

A name that is declared with `const` cannot be assigned to, and no call writes its slot, whatever is
called. A member of `globalThis` is not looked at in the same way: an assignment to it goes to the
variable of that name, however it was declared.

* `Compile.assignableSlot_const`, `Compile.assignableSlot_ok` — names that are assigned to.
* `Compile.memberReference_variable` — members that are variables.
* `constants_change_by_assignment_only` — what can change a constant.
-/

namespace Compile

variable {k : Lowering} {s s' : Compiler} {id : Ident} {b : Binding} {slot : Slot}

/-- What is reported of an assignment to a constant. -/
def constantAssigned (span : Span) : Diagnostic :=
  .malformed "Assignment to constant variable." span

/-! ### Names -/

theorem assignableSlot_const (hb : s.resolve id.name = some b) (hconst : b.kind = .const_) :
    assignableSlot id s = .error (constantAssigned id.span) s := by
  have hresolve : resolve id.name s = .ok (some b) s := congrArg (EStateM.Result.ok · s) hb
  refine (bind_of_ok hresolve).trans ?_
  simp only [hconst]
  rfl

theorem assignableSlot_ok (h : assignableSlot id s = .ok slot s') :
    ∃ b, s.resolve id.name = some b ∧ b.kind ≠ .const_ ∧ b.slot = slot := by
  obtain ⟨found, s₁, hresolve, h⟩ := bind_ok_cases h
  obtain ⟨rfl, rfl⟩ : s.resolve id.name = found ∧ s = s₁ := by
    cases hresolve
    exact ⟨rfl, rfl⟩
  cases hb : s.resolve id.name with
  | none =>
    rw [hb] at h
    cases h
  | some b =>
    simp only [hb] at h
    split at h
    · next hmutable =>
      obtain ⟨_, s₂, _, h⟩ := bind_ok_cases h
      cases h
      exact ⟨b, rfl, by simpa [BindingKind.isMutable] using hmutable, rfl⟩
    · cases h

/-! ### Members -/

/-- If the step succeeds, its answer has the property. -/
def Gives {α : Type} (s : Compiler) (c : Compile α) (P : α → Prop) : Prop :=
  ∀ a s', c s = .ok a s' → P a

theorem Gives.throw {α : Type} {d : Diagnostic} {P : α → Prop} :
    Gives s (MonadExcept.throw d : Compile α) P := by
  intro a s' h
  cases h

theorem Gives.bind {α β : Type} {c : Compile α} {f : α → Compile β} {P : β → Prop}
    (h : ∀ a s', c s = .ok a s' → Gives s' (f a) P) : Gives s (c >>= f) P := by
  intro b s'' hrun
  obtain ⟨a, s', hc, hf⟩ := bind_ok_cases hrun
  exact h a s' hc b s'' hf

/-- A member that is assigned to as a variable is one of `globalThis`. -/
theorem memberReference_variable {m : Member} :
    Gives s (memberReference k m) fun r => ∀ slot, r = .variable_ slot →
      s.isGlobalThis m.object = true ∧ ∃ id, m.key = .name id := by
  unfold memberReference
  split
  · exact .throw
  · split
    · exact .throw
    · refine .bind ?_
      rintro _ _ ⟨⟩
      split
      · next hglobal hkey => exact fun _ _ _ _ _ => ⟨hglobal, _, hkey⟩
      · refine .bind fun parts s₁ _ => ?_
        rintro _ _ ⟨⟩ _ ⟨⟩

end Compile

/-! ### Constants -/

/-- The target is a variable that is not a constant, or a member of `globalThis`. -/
inductive Compiler.Writes (s : Compiler) (slot : Slot) : AssignTarget → Prop
  | name {id b} (hb : s.resolve id.name = some b) (hkind : b.kind ≠ .const_)
      (hslot : b.slot = slot) : Writes s slot (.ident id)
  | global {m id} (hobject : s.isGlobalThis m.object = true) (hkey : m.key = .name id) :
      Writes s slot (.member m)

/-- What can change a constant. In every run of a compiled program, the slot of a constant keeps its
    value until an instruction assigns to it directly: no call writes it, whatever is called. Such
    an instruction is not made by `=` and the other assignments to the name of a constant, nor by
    `++`, `--` and loops that assign to it, which are all reported. Assignments write the slot of a
    variable for another target only if that is a member of `globalThis`. -/
theorem constants_change_by_assignment_only (ns : String) (texts : List String) (maxDepth : Nat) :
    (∀ name b, (Compiler.after ns texts).globalBinding? name = some b → b.kind = .const_ →
      ∀ m m' : Machine, m.Reached (compileSources ns texts).program maxDepth →
        m.Onward (.assigning b.slot) m' → m'.slots.get? b.slot.key = m.slots.get? b.slot.key) ∧
    (∀ (k : Lowering) (s : Compiler) id b, s.resolve id.name = some b → b.kind = .const_ →
      (∀ op value span, Compile.lowerAssign k op (.ident id) value span s =
        .error (Compile.constantAssigned id.span) s) ∧
      (∀ op before span, Compile.lowerUpdate k op (.ident id) before span s =
        .error (Compile.constantAssigned id.span) s) ∧
      ∀ body, Compile.forOfRound k none id body s =
        .error (Compile.constantAssigned id.span) s) ∧
    ∀ (k : Lowering) (s s' : Compiler) target slot,
      Compile.targetReference k target s = .ok (.variable_ slot) s' → s.Writes slot target := by
  refine ⟨?_, ?_, ?_⟩
  · intro name b hb _ m m' hm honward
    obtain ⟨G, hp, htop, _⟩ := compileSources_orderly ns texts
    obtain ⟨table, htable, hmem⟩ := Scopes.mem_of_own? hb
    exact honward.slot_eq hp hm fun _ _ hu i hi f frames _ =>
      hp.variable_within (htop.binding htable hmem) (Table.mem_of_find? hu) hi f frames
  · intro k s id b hb hconst
    have hrefused := Compile.assignableSlot_const hb hconst
    have hreference :=
      Compile.bind_of_error (f := fun slot => pure (Reference.variable_ slot)) hrefused
    exact ⟨fun _ _ _ => Compile.bind_of_error hreference,
      fun _ _ _ => Compile.bind_of_error hreference, fun _ => Compile.bind_of_error hrefused⟩
  · intro k s s' target slot h
    cases target with
    | ident id =>
      obtain ⟨_, s₁, hslot, h⟩ := Compile.bind_ok_cases h
      cases h
      obtain ⟨b, hb, hkind, hslot⟩ := Compile.assignableSlot_ok hslot
      exact .name hb hkind hslot
    | member m =>
      obtain ⟨hobject, id, hkey⟩ := Compile.memberReference_variable _ _ h slot rfl
      exact .global hobject hkey
    | pattern p => cases h

/-- A constant, and a function that reads it. -/
def constantText : String :=
  "const x = 1;\nfunction f() \x7b let y = x; return y; \x7d\n"

theorem constants_change_by_assignment_only_read :
    ∃ (b : Binding) (m m' : Machine),
      (Compiler.after "pack" [constantText]).globalBinding? "x" = some b ∧ b.kind = .const_ ∧
      m.Reached (compileSources "pack" [constantText]).program 512 ∧
      m.Onward (.assigning b.slot) m' ∧ m'.slots.get? b.slot.key = m.slots.get? b.slot.key ∧
      Compile.lowerUpdate (lowering 1) .increment (.ident ⟨"x", .origin⟩) true .origin
          (Compiler.after "pack" [constantText]) =
        .error (Compile.constantAssigned .origin) (Compiler.after "pack" [constantText]) := by
  have hbinding : (Compiler.after "pack" [constantText]).globalBinding? "x" =
      some ⟨⟨0⟩, .const_⟩ ∧
      (Compiler.after "pack" [constantText]).resolve "x" = some ⟨⟨0⟩, .const_⟩ := by
    decide +kernel
  have hm := Machine.reached_afterAll (compileSources "pack" [constantText]).program 512 [.entry]
  have honward := Machine.onward_afterBy (.assigning ⟨0⟩) .never
    ([HostStep.entry].foldl Machine.after
      (.start (compileSources "pack" [constantText]).program 512)) (.call "f" [])
  obtain ⟨hkept, hrefused, _⟩ := constants_change_by_assignment_only "pack" [constantText] 512
  exact ⟨⟨⟨0⟩, .const_⟩, _, _, hbinding.1, rfl, hm, honward,
    hkept "x" _ hbinding.1 rfl _ _ hm honward,
    (hrefused (lowering 1) _ ⟨"x", .origin⟩ _ hbinding.2 rfl).2.1 _ _ _⟩

/-- A constant that is assigned to as a member of `globalThis`. -/
def globalMemberText : String :=
  "const x = 1; globalThis.x = 2;"

/-- Nothing is reported, and the constant changes. -/
theorem constant_changes_by_globalThis :
    (compileSources "pack" [globalMemberText]).diagnostics = [] ∧
    (Compiler.after "pack" [globalMemberText]).globalBinding? "x" = some ⟨⟨0⟩, .const_⟩ ∧
    let m := (Machine.start (compileSources "pack" [globalMemberText]).program 512).after .entry
    (m.global? "x").map m.display = some "2" := by
  decide +kernel

end PackScript
