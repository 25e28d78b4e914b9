import Mathlib
import PackScript.Compile.State
import PackScript.Program.UnitName

namespace PackScript

/-!
# Keys and names are told apart

Slots, heap records, channels and generated units are numbered, and their keys are a letter or
word before the number. Different numbers have different keys, and the keys of one family are
never those of another: a generated unit has a slash in its name, which the name of a declared
function cannot have.
-/

/-! ### Numbers -/

theorem toString_nat_injective {m n : Nat} (h : toString m = toString n) : m = n := by
  have hdigits : Nat.toDigits 10 m = Nat.toDigits 10 n := by
    rw [← Nat.toList_repr, ← Nat.toList_repr]
    exact congrArg String.toList h
  rw [← Nat.ofDigitChars_ten_toDigits (n := m), hdigits, Nat.ofDigitChars_ten_toDigits]

/-- A text before a number can be told apart from it. -/
theorem numbered_injective {start : String} {m n : Nat}
    (h : start ++ toString m = start ++ toString n) : m = n :=
  toString_nat_injective ((String.append_right_inj start).1 h)

theorem isDigit_of_mem_toString {c : Char} {n : Nat} (h : c ∈ (toString n).toList) :
    c.isDigit = true := by
  have hc : c ∈ Nat.toDigits 10 n := by
    rw [← Nat.toList_repr]
    exact h
  exact Nat.isDigit_of_mem_toDigits (by decide) (by decide) hc

/-! ### Keys -/

theorem Slot.key_injective {a b : Slot} (h : a.key = b.key) : a = b := by
  cases a
  cases b
  exact congrArg Slot.mk (numbered_injective h)

@[simp] theorem Slot.key_inj {a b : Slot} : a.key = b.key ↔ a = b :=
  ⟨Slot.key_injective, congrArg Slot.key⟩

theorem Channel.key_injective {a b : Channel} (h : a.key = b.key) : a = b := by
  cases a
  cases b
  exact congrArg Channel.mk (numbered_injective h)

theorem Record.key_injective {a b : Record} (h : a.key = b.key) : a = b := by
  cases a
  cases b
  exact congrArg Record.mk (numbered_injective h)

/-- All characters of a key of a slot behind the first one are digits. -/
theorem Slot.toList_key (s : Slot) : ∃ digits, s.key.toList = 's' :: digits ∧
    ∀ c ∈ digits, c.isDigit = true :=
  ⟨(toString s.index).toList, by simp [Slot.key], fun _ => isDigit_of_mem_toString⟩

theorem Slot.colon_notMem_key (s : Slot) : ':' ∉ s.key.toList := by
  obtain ⟨digits, hkey, hdigits⟩ := s.toList_key
  rw [hkey, List.mem_cons]
  rintro (h | h)
  · exact absurd h (by decide)
  · exact absurd (hdigits _ h) (by decide)

/-! ### Names of units -/

/-- The name of the unit that is generated with a number. -/
def generatedUnit (n : Nat) : String :=
  "__gen/u" ++ toString n

theorem generatedUnit_injective {m n : Nat} (h : generatedUnit m = generatedUnit n) : m = n :=
  numbered_injective h

theorem slash_mem_generatedUnit (n : Nat) : '/' ∈ (generatedUnit n).toList := by
  rw [generatedUnit, String.toList_append]
  exact List.mem_append_left _ (by decide)

theorem generatedUnit_ne_entryUnit (n : Nat) : generatedUnit n ≠ entryUnit := by
  intro h
  have hlist := congrArg String.toList h
  rw [generatedUnit, String.toList_append] at hlist
  simp [entryUnit] at hlist

theorem slash_notMem_toDigits (n : Nat) : '/' ∉ Nat.toDigits 16 n := by
  induction n using Nat.strongRecOn with
  | ind n ih =>
    rw [Nat.toDigits_eq_if (by decide)]
    split
    · simp
    · next h =>
      have hrest := ih (n / 16) (by omega)
      simp [hrest]

theorem toLower_ne_slash {c : Char} (h : c ≠ '/') : c.toLower ≠ '/' := by
  intro hslash
  have hval := congrArg Char.val hslash
  rw [Char.toLower] at hslash hval
  split at hval
  · next hupper =>
    simp only [UInt32.le_iff_toNat_le, ge_iff_le] at hupper
    have := congrArg UInt32.toNat hval
    simp [UInt32.toNat_add] at this hupper
    omega
  · exact h (Char.ext hval)

theorem slash_notMem_unitNameChar (c : Char) : '/' ∉ (unitNameChar c).toList := by
  rw [unitNameChar]
  split
  · next h =>
    have hc : c ≠ '/' := by rintro rfl; exact absurd h (by decide)
    simpa using Ne.symm hc
  · split
    · next h =>
      have hc : c ≠ '/' := by rintro rfl; exact absurd h (by decide)
      simpa using Ne.symm (toLower_ne_slash hc)
    · split
      · decide
      · rw [String.toList_append, List.mem_append]
        rintro (h | h)
        · exact absurd h (by decide)
        · rw [hexDigits, String.toList_ofList] at h
          exact slash_notMem_toDigits _ h

/-- A slash is none of the characters that a name is spelled with. -/
theorem slash_notMem_unitNameOf (name : String) : '/' ∉ (unitNameOf name).toList := by
  rw [unitNameOf, String.toList_join]
  intro h
  obtain ⟨part, hpart, hslash⟩ := List.mem_flatMap.1 h
  obtain ⟨c, _, rfl⟩ := List.mem_map.1 hpart
  exact slash_notMem_unitNameChar c hslash

theorem unitNameOf_ne_generatedUnit (name : String) (n : Nat) :
    unitNameOf name ≠ generatedUnit n := by
  intro h
  exact slash_notMem_unitNameOf name (h ▸ slash_mem_generatedUnit n)

theorem unitNameOf_ne_entryUnit (name : String) : unitNameOf name ≠ entryUnit := by
  intro h
  exact slash_notMem_unitNameOf name (h ▸ by decide)

/-- A function id leads to one unit. -/
theorem functionId_injective {ns a b : String} (h : functionId ns a = functionId ns b) : a = b := by
  have hlist := congrArg String.toList h
  simpa [functionId, String.ext_iff] using hlist

end PackScript
