import Mathlib
import PackScript.Json.Read
import PackScript.Json.Write

namespace PackScript

/-!
# Numbers in texts

What the texts of integers and doubles consist of.

* `isDecimalDigit_of_mem_digitsOf` — an integer is written with digits.
* `DecimalLayout.mem_format` — a finite double is written with digits, a sign, a point and an `e`.
-/

variable {negative : Bool} {c : Char} {x : Float} {digits : List Char} {n : Nat}

/-! ### Digits -/

theorem isDecimalDigit_eq_isDigit (c : Char) : isDecimalDigit c = c.isDigit := by
  simp only [isDecimalDigit, Char.isDigit, Char.le_def, ge_iff_le]

theorem isDecimalDigit_of_mem_digitsOf (h : c ∈ digitsOf n) : isDecimalDigit c = true := by
  rw [isDecimalDigit_eq_isDigit]
  exact Nat.isDigit_of_mem_toDigits (by decide) (by decide) h

theorem digitsOf_ne_nil (n : Nat) : digitsOf n ≠ [] :=
  Nat.toDigits_ne_nil

/-! ### The text of a double -/

theorem Float.isNaN_of_isFinite (h : x.isFinite = true) : x.isNaN = false := by
  simp only [Float.isFinite, Float.Model.isFinite] at h
  simp only [Float.isNaN, Float.Model.isNaN]
  cases hx : x.toModel.unpack <;> simp_all [Float.Model.UnpackedFloat.isFinite,
    Float.Model.UnpackedFloat.isNaN]

theorem Float.isInf_of_isFinite (h : x.isFinite = true) : x.isInf = false := by
  simp only [Float.isFinite, Float.Model.isFinite] at h
  simp only [Float.isInf, Float.Model.isInf]
  cases hx : x.toModel.unpack <;> simp_all [Float.Model.UnpackedFloat.isFinite,
    Float.Model.UnpackedFloat.isInf]

/-- A character of the text of a double: a digit, a point, a sign or the mark of an exponent. -/
def isNumberChar (c : Char) : Bool :=
  isDecimalDigit c || c == '.' || c == '-' || c == '+' || c == 'e'

theorem isNumberChar_of_isDecimalDigit (h : isDecimalDigit c = true) : isNumberChar c = true := by
  simp [isNumberChar, h]

theorem isNumberChar_of_mem_zeros (h : c ∈ zeros n) : isNumberChar c = true := by
  rw [List.eq_of_mem_replicate h]
  decide

theorem mem_positional {pointZero : Bool} {point : Int}
    (hdigits : ∀ c ∈ digits, isNumberChar c = true) :
    ∀ c ∈ positional pointZero digits point, isNumberChar c = true := by
  have hpoint : isNumberChar '.' = true := by decide
  have hzero : isNumberChar '0' = true := by decide
  intro c hc
  have htake := fun h => hdigits c (List.mem_of_mem_take (i := point.toNat) h)
  have hdrop := fun h => hdigits c (List.mem_of_mem_drop (i := point.toNat) h)
  rw [positional] at hc
  split at hc
  · simp only [List.mem_cons, List.mem_append] at hc
    rcases hc with rfl | rfl | hc | hc
    · exact hzero
    · exact hpoint
    · exact isNumberChar_of_mem_zeros hc
    · exact hdigits c hc
  · simp only at hc
    split at hc
    · simp only [List.mem_append] at hc
      rcases hc with (hc | hc) | hc
      · exact htake hc
      · exact isNumberChar_of_mem_zeros hc
      · split at hc
        · simp only [List.mem_cons, List.not_mem_nil, or_false] at hc
          rcases hc with rfl | rfl
          · exact hpoint
          · exact hzero
        · cases hc
    · simp only [List.mem_append, List.mem_cons] at hc
      rcases hc with hc | rfl | hc
      · exact htake hc
      · exact hpoint
      · exact hdrop hc

theorem mem_scientific {plus : Bool} {exponent : Int}
    (hdigits : ∀ c ∈ digits, isNumberChar c = true) :
    ∀ c ∈ scientific plus digits exponent, isNumberChar c = true := by
  intro c hc
  simp only [scientific, List.append_assoc, List.cons_append, List.mem_append,
    List.mem_cons] at hc
  rcases hc with hc | rfl | hc | hc
  · split at hc
    · next d f fs =>
      simp only [List.mem_cons] at hc
      rcases hc with rfl | rfl | hc
      · exact hdigits c (by simp)
      · decide
      · exact hdigits c (by simp [hc])
    · exact hdigits c hc
  · decide
  · split at hc
    · rw [List.mem_singleton.1 hc]
      decide
    · split at hc
      · rw [List.mem_singleton.1 hc]
        decide
      · cases hc
  · exact isNumberChar_of_isDecimalDigit (isDecimalDigit_of_mem_digitsOf hc)

/-- The text of a finite double has characters of numbers only. -/
theorem DecimalLayout.mem_format {l : DecimalLayout} (hx : x.isFinite = true) :
    ∀ c ∈ (l.format x).toList, isNumberChar c = true := by
  have hdigits : ∀ b : Binary64, ∀ c ∈ (if b.mantissa = 0 then
      (if l.pointZero then ['0', '.', '0'] else ['0'])
      else (shortest l.tie b.mantissa b.exponent).layout l), isNumberChar c = true := by
    intro b c hc
    split at hc
    · split at hc
      · exact List.all_eq_true.1 (show ['0', '.', '0'].all isNumberChar = true by decide) c hc
      · exact List.all_eq_true.1 (show ['0'].all isNumberChar = true by decide) c hc
    · rw [Decimal.layout] at hc
      have hmem : ∀ n, ∀ c ∈ digitsOf n, isNumberChar c = true := fun n c hc =>
        isNumberChar_of_isDecimalDigit (isDecimalDigit_of_mem_digitsOf hc)
      split at hc
      · exact mem_positional (hmem _) c hc
      · exact mem_scientific (hmem _) c hc
  intro c hc
  simp only [format, Float.isNaN_of_isFinite hx, Float.isInf_of_isFinite hx, Bool.false_eq_true,
    if_false, String.toList_ofList] at hc
  split at hc
  · rcases List.mem_cons.1 hc with rfl | hc
    · decide
    · exact hdigits _ c hc
  · exact hdigits _ c hc

end PackScript
