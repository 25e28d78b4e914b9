import PackScript.Proofs.Uses.Reached

namespace PackScript

/-!
# Values that machines hold

* `Machine.Holds` — a value that stands in a slot, in a record of the heap, in a channel or in a
  scheduled task.
* `held_values_are_well_formed` — on the machine of a compiled program, every value in the slot of a
  variable or anywhere else is a script value, at every moment.
-/

/-! ### Places of values -/

/-- The machine holds a value, where the slots with some keys count. -/
inductive Machine.Holds (m : Machine) (keys : String → Prop) : Nbt → Prop
  | slot {key v} (hkey : keys key) (h : m.slots.get? key = some v) : Holds m keys v
  | property {address record name v} (hr : m.record? address = some record)
      (h : record.getPath ["props", name] = some v) : Holds m keys v
  | element {address v} (h : v ∈ m.elements address) : Holds m keys v
  /-- The value of a resolved promise -/
  | promised {address record v} (hr : m.record? address = some record)
      (h : record.getPath ["promise", "value"] = some v) : Holds m keys v
  /-- A function that waits for a promise -/
  | listener {address record items v} (hr : m.record? address = some record)
      (hitems : record.getPath ["promise", "listeners"] = some (.list items)) (h : v ∈ items) :
      Holds m keys v
  /-- The `this` that a function was bound to -/
  | bound {address record v} (hr : m.record? address = some record)
      (h : record.get? "bound" = some v) : Holds m keys v
  /-- An argument, the `this` or the `new.target` of a call -/
  | passed {channel name v} (hname : ValueEntry name)
      (h : m.channels.getPath [channel, name] = some v) : Holds m keys v
  | scheduled {t} (h : t ∈ m.scheduled) : Holds m keys t.function

section

variable {L : Limits} {n : Nat} {m : Machine} {keys : String → Prop} {v : Nbt}

/-- A property of script values that refer to known records, and of the slots that count, is one of
    all values. -/
theorem Tidy.of_holds (hm : Tidy L n m) {P : Nbt → Prop} (hcallable : ∀ v, v.Callable L n → P v)
    (hslots : ∀ key v, keys key → m.slots.get? key = some v → P v) (hv : m.Holds keys v) : P v := by
  cases hv with
  | slot hkey h => exact hslots _ _ hkey h
  | property hr h =>
    rw [Nbt.getPath_pair] at h
    obtain ⟨props, hprops, hget⟩ := Option.bind_eq_some_iff.1 h
    exact hcallable _ ((((hm.heap.record hr).2 _ _ hprops).props rfl).2 _ _ hget).callable
  | element h => exact hcallable _ (hm.heap.elements _ _ h).callable
  | promised hr h =>
    rw [Nbt.getPath_pair] at h
    obtain ⟨state, hstate, hget⟩ := Option.bind_eq_some_iff.1 h
    have hpromise := ((hm.heap.record hr).2 _ _ hstate).promise rfl
    exact hcallable _ ((hpromise.2 _ _ hget).value rfl).callable
  | listener hr hitems h =>
    rw [Nbt.getPath_pair] at hitems
    obtain ⟨state, hstate, hget⟩ := Option.bind_eq_some_iff.1 hitems
    have hpromise := ((hm.heap.record hr).2 _ _ hstate).promise rfl
    obtain ⟨_, ⟨⟩, hitems⟩ := (hpromise.2 _ _ hget).listeners rfl
    exact hcallable _ (hitems _ h)
  | bound hr h => exact hcallable _ (((hm.heap.record hr).2 _ _ h).bound rfl).callable
  | passed hname h =>
    rw [Nbt.getPath_pair] at h
    obtain ⟨entries, hentries, hget⟩ := Option.bind_eq_some_iff.1 h
    exact hcallable _ (((hm.channels.2 _ _ hentries).2 _ _ hget).value hname).callable
  | scheduled h => exact hcallable _ (hm.scheduled _ h)

/-- Nothing that a machine holds refers to a record that was not handed out. -/
theorem Tidy.refers_of_holds (hm : Tidy L n m) (hv : m.Holds keys v) : v.Refers (Known n) :=
  hm.of_holds (fun _ h => h.refers) (fun _ _ _ h => (hm.slots.2 _ _ h).refers) hv

end

/-! ### Well-formed values -/

/-- The keys of the slots of all variables that the sources declare, in any scope. -/
def IsVariableKey (ns : String) (texts : List String) (key : String) : Prop :=
  ∃ t ∈ (Compiler.after ns texts).scopes.list, ∃ e ∈ t, key = e.2.slot.key

/-- Whatever is done with the machine of a compiled program, all values that it holds are compounds
    with the tag of a kind and a payload of that kind, and only functions have the id of one. This
    is so at every moment, also in the middle of a step. -/
theorem held_values_are_well_formed (ns : String) (texts : List String) (maxDepth : Nat)
    {m : Machine} (hm : m.Reached (compileSources ns texts).program maxDepth) {v : Nbt}
    (hv : m.Holds (IsVariableKey ns texts) v) : v.WellFormed := by
  obtain ⟨G, hp, htop, _⟩ := compileSources_orderly ns texts
  obtain ⟨n, htidy⟩ := hm.tidy hp
  refine htidy.of_holds (fun _ h => h.wellFormed) (fun key v hkey hget => ?_) hv
  obtain ⟨t, ht, e, he, rfl⟩ := hkey
  exact (((htidy.slots.2 _ _ hget).holds _ _ rfl (htop.binding ht he)).fair rfl).wellFormed

/-- An object that is kept in a variable and passed to a function. -/
def passingText : String :=
  "let o = \x7b a: \"x\" \x7d;\nfunction f(p) \x7b return p; \x7d\nlet g = f(o);\n"

/-- Where the function is entered, the variable, the property and the argument hold values. -/
theorem held_values_are_well_formed_passing :
    ∃ m : Machine, m.Reached (compileSources "pack" [passingText]).program 512 ∧
      ∃ variable_ property argument,
        (m.global? "o" = some variable_ ∧ variable_.WellFormed) ∧
        (m.heap.getPath ["h2", "props", "a"] = some property ∧ property.WellFormed) ∧
        (m.channels.getPath ["c3", "arg0"] = some argument ∧ argument.WellFormed) := by
  let m := (Machine.start (compileSources "pack" [passingText]).program 512).afterBy
    (Check.never.or (.entering "f")) .entry
  have hm : m.Reached (compileSources "pack" [passingText]).program 512 :=
    ⟨[], .entry, .entering "f", rfl⟩
  have hglobal : m.program.globals.find? "o" = some ⟨0⟩ := by decide +kernel
  have hkey : IsVariableKey "pack" [passingText] (Slot.mk 0).key := by
    unfold IsVariableKey
    decide +kernel
  have hslot : (m.slots.get? (Slot.mk 0).key).isSome = true := by decide +kernel
  have hproperty : (m.heap.getPath ["h2", "props", "a"]).isSome = true := by decide +kernel
  have hargument : (m.channels.getPath ["c3", "arg0"]).isSome = true := by decide +kernel
  obtain ⟨variable_, hslot⟩ := Option.isSome_iff_exists.1 hslot
  obtain ⟨property, hproperty⟩ := Option.isSome_iff_exists.1 hproperty
  obtain ⟨argument, hargument⟩ := Option.isSome_iff_exists.1 hargument
  refine ⟨m, hm, variable_, property, argument, ⟨?_, ?_⟩, ⟨hproperty, ?_⟩, ⟨hargument, ?_⟩⟩
  · simp [Machine.global?, hglobal, Machine.slot, hslot]
  · exact held_values_are_well_formed "pack" _ 512 hm (.slot hkey hslot)
  · rw [Nbt.getPath_cons] at hproperty
    obtain ⟨record, hr, hget⟩ := Option.bind_eq_some_iff.1 hproperty
    exact held_values_are_well_formed "pack" _ 512 hm (.property hr hget)
  · exact held_values_are_well_formed "pack" _ 512 hm (.passed (.inr (.inr ⟨0, rfl⟩)) hargument)

end PackScript
