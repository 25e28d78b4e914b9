import PackScript.Value
import PackScript.Proofs.Machine.Tree

namespace PackScript

/-!
# Slot values

What a tree has to look like that stands for a script value.

* `Kind.HasPayload` — the payload of a value of a kind.
* `Nbt.ValueOf` — a compound with the tag of the kind and such a payload. Only a function may have
  the id of one.
* `Nbt.WellFormed` — a value of some kind.
-/

/-- The tree is what values of the kind hold. -/
def Kind.HasPayload : Kind → Nbt → Prop
  | .string, v => ∃ text, v = .string text
  | .number, v => ∃ x, v = .double x
  | .boolean, v => ∃ b, v = .bool b
  | .undefined, v => v = .int 0
  | .null, v => v = .int 0
  | .object, v => ∃ address, v = .string address
  | .array, v => ∃ address, v = .string address
  | .function, v => ∃ address, v = .string address

namespace Nbt

/-- The tree is a value of the kind. -/
structure ValueOf (kind : Kind) (v : Nbt) : Prop where
  compound : ∃ entries, v = .compound entries
  type : v.get? "type" = some (.string kind.tag)
  payload : ∃ payload, v.get? "value" = some payload ∧ kind.HasPayload payload
  function : ∀ f, v.get? "function" = some f → kind = .function ∧ ∃ id, f = .string id

/-- The tree is a script value. -/
def WellFormed (v : Nbt) : Prop :=
  ∃ kind, v.ValueOf kind

/-! ### Values that code and routines make -/

theorem valueOf_slot {kind : Kind} {payload : Nbt} (h : kind.HasPayload payload) :
    (slot kind payload none).ValueOf kind where
  compound := ⟨_, rfl⟩
  type := rfl
  payload := ⟨payload, rfl, h⟩
  function f hf := by simp [slot, get?, Table.find?] at hf

theorem wellFormed_function (address : String) (id : Option String) :
    (slot .function (.string address) id).WellFormed := by
  cases id with
  | none => exact ⟨.function, valueOf_slot ⟨address, rfl⟩⟩
  | some id =>
    refine ⟨.function, ⟨_, rfl⟩, rfl, ⟨_, rfl, address, rfl⟩, fun f hf => ⟨rfl, id, ?_⟩⟩
    simpa [slot, get?, Table.find?, eq_comm] using hf

theorem wellFormed_reference {kind : Kind} (h : kind.isReference = true) (address : String) :
    (slot kind (.string address) none).WellFormed := by
  refine ⟨kind, valueOf_slot ?_⟩
  cases kind with
  | object | array | function => exact ⟨address, rfl⟩
  | _ => cases h

end Nbt

theorem Scalar.valueOf_kind (a : Scalar) : a.slot.ValueOf a.kind := by
  refine Nbt.valueOf_slot ?_
  cases a with
  | string text => exact ⟨text, rfl⟩
  | number x => exact ⟨x, rfl⟩
  | boolean b => exact ⟨b, rfl⟩
  | undefined | null => exact rfl

theorem Scalar.wellFormed (a : Scalar) : a.slot.WellFormed :=
  ⟨a.kind, a.valueOf_kind⟩

namespace Nbt

/-! ### Values of which the payload is written -/

section

variable {kind : Kind} {v payload child : Nbt}

theorem ValueOf.setPayload (h : v.ValueOf kind) (hset : v.setPath ["value"] payload = some child)
    (hpayload : kind.HasPayload payload) : child.ValueOf kind := by
  obtain ⟨_, hinner, hcompound, hget⟩ := setPath_cons hset
  cases hinner
  refine ⟨hcompound, ?_, ⟨payload, by simp [hget], hpayload⟩, fun f hf => h.function f ?_⟩
  · simpa [hget] using h.type
  · simpa [hget] using hf

/-- A value is read as what its kind makes of its payload. -/
theorem ValueOf.ofSlot (h : v.ValueOf kind) :
    Value.ofSlot v = .ofPayload kind (v.get? "value") := by
  have htag : Kind.ofTag? kind.tag = some kind := by
    cases kind <;> decide
  simp [Value.ofSlot, h.type, Nbt.text?, htag]

/-- The id of a function, if a value has one, is a text. -/
theorem WellFormed.function_text {f : Nbt} (h : v.WellFormed) (hf : v.get? "function" = some f) :
    ∃ id, f = .string id := by
  obtain ⟨kind, hkind⟩ := h
  exact (hkind.function f hf).2

end

end Nbt

end PackScript
