import Mathlib
import PackScript.Token.Lexer

namespace PackScript

/-!
# Tokens of numbers

* `Numeral` — the numerals of the language as data, among them those that end too early.
* `isNaN_nearestDouble` — what is rounded to a double is a number.
* `readDouble_decimal` — a decimal has a value exactly if its exponent, if any, has a digit.
* `number_token_is_numeral` — every number token is a numeral of the text. It is not a number
  exactly where an exponent has no digits.
-/

/-! ### Numerals -/

/-- Digits of a class, with underscores anywhere among them. -/
abbrev DigitText (isDigit : Char → Bool) : Type :=
  { cs : List Char // ∀ c ∈ cs, (isDigit c || c == '_') = true }

/-- The digits alone. -/
abbrev DigitText.digits {isDigit : Char → Bool} (d : DigitText isDigit) : List Char :=
  withoutUnderscores d.val

/-- The exponent of a decimal, possibly without digits. -/
structure Exponent where
  mark : Char
  sign : List Char
  digits : DigitText isDecimalDigit
  isMark : mark = 'e' ∨ mark = 'E'
  isSign : sign = [] ∨ sign = ['+'] ∨ sign = ['-']

/-- A numeral as it stands in a text. It starts with a digit, or with a point and a digit. -/
inductive Numeral where
  | radix (letter : Char) (base : Nat) (digits : DigitText (isDigitOf base))
      (isLetter : radixOf? letter = some base)
  | decimal (whole : DigitText isDecimalDigit) (fraction : Option (DigitText isDecimalDigit))
      (exponent : Option Exponent)
      (starts : startsWithDigit (whole.val ++ (fraction.elim [] (·.val))) = true)

/-- A fraction with its point. -/
def fractionText (fraction : Option (DigitText isDecimalDigit)) : List Char :=
  fraction.elim [] ('.' :: ·.val)

/-- An exponent with its mark. -/
def exponentText (exponent : Option Exponent) : List Char :=
  exponent.elim [] fun e => e.mark :: (e.sign ++ e.digits.val)

namespace Numeral

/-- The characters of a numeral. -/
def text : Numeral → List Char
  | radix letter _ digits _ => '0' :: letter :: digits.val
  | decimal whole fraction exponent _ => whole.val ++ fractionText fraction ++ exponentText exponent

def isRadix : Numeral → Bool
  | radix .. => true
  | decimal .. => false

/-- There are digits where there have to be: after the letter of a radix, and in an exponent. -/
def isComplete : Numeral → Bool
  | radix _ _ digits _ => !digits.digits.isEmpty
  | decimal _ _ exponent _ => exponent.all fun e => !e.digits.digits.isEmpty

/-- An integer in another radix that has more than 63 bits. -/
def isLarge : Numeral → Bool
  | radix _ base digits _ =>
    2 ^ 63 ≤ digitsValue base (fun c => (hexDigitValue? c).getD 0) digits.digits
  | decimal .. => false

/-- The character behind a numeral belongs to it. -/
def goesOn : Numeral → Char → Bool
  | radix _ base _ _, c => isDigitOf base c || c == '_'
  | decimal _ _ exponent _, c =>
    isDecimalDigit c || c == '_' || exponent.isNone && (c == 'e' || c == 'E')

end Numeral

/-- The text starts with a digit, or with a point and a digit. -/
def startsNumeral : List Char → Bool
  | c :: cs => isDecimalDigit c || c == '.' && startsWithDigit cs
  | [] => false

/-! ### Rounding gives numbers -/

open Float.Model

theorem nearestBits_le (num den : Nat) : nearestBits num den ≤ 2047 * 2 ^ 52 := by
  unfold nearestBits
  split
  · exact Nat.zero_le _
  · exact Nat.min_le_right _ _

theorem isNaN_unpack_iff {spec : Format} (b : BitVec spec.numBits) :
    (UnpackedFloat.unpack spec b).isNaN = true ↔
      UnpackedFloat.unpackExponent b = -1#_ ∧ UnpackedFloat.unpackMantissa b ≠ 0#_ := by
  unfold UnpackedFloat.unpack
  dsimp only
  split
  · next hexp =>
    split
    · next hmantissa => simp [hmantissa, UnpackedFloat.isNaN]
    · next hmantissa => simp [hexp, hmantissa, UnpackedFloat.isNaN]
  · next hexp =>
    split
    · split <;> simp [hexp, UnpackedFloat.isNaN]
    · simp [hexp, UnpackedFloat.isNaN]

/-- A double is made of bits by packing them anew. What was no NaN gets a mantissa with the
    largest exponent nowhere. -/
theorem isNaN_ofBits {bits : UInt64}
    (h : (UnpackedFloat.unpack .binary64 bits.toBitVec).isNaN = false) :
    (Float.ofBits bits).isNaN = false := by
  show (UnpackedFloat.unpack .binary64 (UnpackedFloat.pack .binary64
    (UnpackedFloat.unpack .binary64 bits.toBitVec))).isNaN = false
  generalize UnpackedFloat.unpack .binary64 bits.toBitVec = parts at h
  rw [← Bool.not_eq_true, isNaN_unpack_iff]
  rintro ⟨hexp, hmantissa⟩
  cases parts with
  | notANumber => cases h
  | infinity sign => simp [UnpackedFloat.pack, UnpackedFloat.packedInfinity] at hmantissa
  | zero sign => simp [UnpackedFloat.pack, UnpackedFloat.packedZero] at hmantissa
  | finite sign mantissa exponent hpos =>
    -- too large an exponent is packed as an infinity, and any other one is below the largest
    simp only [UnpackedFloat.pack] at hexp hmantissa
    split at hexp
    · next hlarge =>
      rw [if_pos hlarge] at hmantissa
      simp [UnpackedFloat.packedInfinity] at hmantissa
    · next hsmall =>
      have hexp' : BitVec.toNat _ = 2047 := congrArg BitVec.toNat hexp
      split at hexp' <;> rw [UnpackedFloat.unpackExponent_packComponents] at hexp'
      · have hbits : (2 ^ Format.binary64.exponentBits : Nat) = 2048 := rfl
        rw [BitVec.toNat_ofNat, hbits] at hexp'
        omega
      · cases hexp'

theorem isNaN_nearestDouble (negative : Bool) (num den : Nat) :
    (nearestDouble negative num den).isNaN = false := by
  have hle := nearestBits_le num den
  refine isNaN_ofBits (Bool.eq_false_iff.2 fun hnan => ?_)
  obtain ⟨hexp, hmantissa⟩ := (isNaN_unpack_iff _).1 hnan
  let sign : Nat := if negative then 2 ^ 63 else 0
  have hsign : sign = 2 ^ 63 ∨ sign = 0 := by cases negative <;> simp [sign]
  let bits : Nat := sign + nearestBits num den
  have hbits : bits % 2 ^ 64 = bits := Nat.mod_eq_of_lt (by omega)
  have hexp' : (bits % 2 ^ 64) >>> 52 % 2 ^ 11 = 2047 := congrArg BitVec.toNat hexp
  -- the bound on the bits leaves no room for a mantissa beside the largest exponent
  refine hmantissa (BitVec.eq_of_toNat_eq ?_)
  show (bits % 2 ^ 64) >>> 0 % 2 ^ 52 = 0
  rw [hbits, Nat.shiftRight_eq_div_pow] at hexp' ⊢
  omega

/-! ### Digits -/

variable {isDigit : Char → Bool} {cs rest : List Char}

theorem withoutUnderscores_append (cs ds : List Char) :
    withoutUnderscores (cs ++ ds) = withoutUnderscores cs ++ withoutUnderscores ds :=
  List.filter_append cs ds

theorem DigitText.isDigit_of_mem (d : DigitText isDigit) {c : Char} (hc : c ∈ d.digits) :
    isDigit c = true := by
  obtain ⟨hmem, hne⟩ := List.mem_filter.1 hc
  have hclass := d.property c hmem
  simp_all

/-- A run of digits is as long as it can be. -/
theorem exists_digitRun (isDigit : Char → Bool) (cs : List Char) :
    ∃ (d : DigitText isDigit) (rest : List Char), digitRun isDigit cs = d.val ∧
      cs = d.val ++ rest ∧ ∀ c ∈ rest.head?, (isDigit c || c == '_') = false := by
  refine ⟨⟨digitRun isDigit cs, fun c => List.mem_takeWhile_imp⟩, cs.dropWhile _, rfl,
    List.takeWhile_append_dropWhile.symm, fun c hc => ?_⟩
  have hnot := List.head?_dropWhile_not (fun c => isDigit c || c == '_') cs
  rwa [Option.mem_def.1 hc] at hnot

/-- The digits before a character of another kind are read up to it. -/
theorem span_digits (hcs : ∀ c ∈ cs, isDecimalDigit c = true)
    (hrest : ∀ c ∈ rest.head?, isDecimalDigit c = false) :
    (cs ++ rest).span isDecimalDigit = (cs, rest) := by
  rw [List.span_eq_takeWhile_dropWhile, List.takeWhile_append_of_pos hcs,
    List.dropWhile_append_of_pos hcs]
  cases rest with
  | nil => simp
  | cons c rest => simp [hrest c rfl]

theorem startsWithDigit_of_append {ds : List Char}
    (hrest : ∀ c ∈ rest.head?, (isDecimalDigit c || c == '_') = false)
    (h : startsWithDigit (ds ++ rest) = true) : startsWithDigit ds = true := by
  cases ds with
  | nil =>
    cases rest with
    | nil => cases h
    | cons c rest => simp [show isDecimalDigit c = true from h] at hrest
  | cons c ds => exact h

theorem exists_fractionRun (cs : List Char) :
    ∃ (fraction : Option (DigitText isDecimalDigit)) (rest : List Char),
      fractionRun cs = fractionText fraction ∧ cs = fractionText fraction ++ rest ∧
      ((∀ c ∈ cs.head?, (isDecimalDigit c || c == '_') = false) →
        ∀ c ∈ rest.head?, (isDecimalDigit c || c == '_') = false) := by
  unfold fractionRun
  split
  · next cs =>
    obtain ⟨digits, rest, hrun, hcs, hrest⟩ := exists_digitRun isDecimalDigit cs
    exact ⟨some digits, rest, by rw [hrun]; rfl, by rw [hcs]; rfl, fun _ => hrest⟩
  · exact ⟨none, cs, rfl, rfl, id⟩

theorem exists_exponentRun (cs : List Char)
    (h : ∀ c ∈ cs.head?, (isDecimalDigit c || c == '_') = false) :
    ∃ (exponent : Option Exponent) (rest : List Char),
      exponentRun cs = exponentText exponent ∧ cs = exponentText exponent ++ rest ∧
      ∀ c ∈ rest.head?, (isDecimalDigit c || c == '_' ||
        exponent.isNone && (c == 'e' || c == 'E')) = false := by
  cases cs with
  | nil => exact ⟨none, [], rfl, rfl, nofun⟩
  | cons mark cs =>
    rw [exponentRun]
    split
    · next hmark =>
      obtain ⟨hsign, hcs⟩ : (signRun cs = [] ∨ signRun cs = ['+'] ∨ signRun cs = ['-']) ∧
          cs = signRun cs ++ cs.drop (signRun cs).length := by
        unfold signRun
        split
        · split
          · next hsign => rcases hsign with rfl | rfl <;> simp
          · simp
        · simp
      obtain ⟨digits, rest, hrun, hdrop, hrest⟩ :=
        exists_digitRun isDecimalDigit (cs.drop (signRun cs).length)
      refine ⟨some ⟨mark, signRun cs, digits, hmark, hsign⟩, rest, ?_, ?_, ?_⟩
      · simp [exponentText, hrun]
      · simp [exponentText, ← hdrop, ← hcs]
      · simpa using hrest
    · next hmark =>
      refine ⟨none, mark :: cs, rfl, rfl, fun c hc => ?_⟩
      have hdigit := h c hc
      cases hc
      simp_all

/-! ### Values of decimals -/

theorem isNaN_doubleOfDecimal (negative : Bool) (coefficient : Nat) (exponent : Int) :
    (doubleOfDecimal negative coefficient exponent).isNaN = false := by
  unfold doubleOfDecimal
  dsimp only
  split
  · exact isNaN_nearestDouble ..
  · split <;> exact isNaN_nearestDouble ..

/-- What starts with a digit or a point has no sign. -/
theorem readSign_eq (h : ∀ c ∈ cs.head?, isDecimalDigit c = true ∨ c = '.') :
    readSign cs = (false, cs) := by
  unfold readSign
  split
  · exact absurd (h '-' rfl) (by decide)
  · exact absurd (h '+' rfl) (by decide)
  · rfl

theorem readExponent_isSome (exponent : Option Exponent) :
    (readExponent (withoutUnderscores (exponentText exponent))).isSome =
      exponent.all fun e => !e.digits.digits.isEmpty := by
  cases exponent with
  | none => rfl
  | some e =>
    obtain ⟨mark, sign, digits, hmark, hsign⟩ := e
    have hdigits : digits.digits.all isDecimalDigit = true :=
      List.all_eq_true.2 fun c => digits.isDigit_of_mem
    have hread : readSign (withoutUnderscores (sign ++ digits.val)) =
        (sign == ['-'], digits.digits) := by
      rcases hsign with rfl | rfl | rfl
      · exact readSign_eq fun c hc => .inl (digits.isDigit_of_mem (List.mem_of_mem_head? hc))
      · rfl
      · rfl
    have htext : withoutUnderscores (mark :: (sign ++ digits.val)) =
        mark :: withoutUnderscores (sign ++ digits.val) := by
      rcases hmark with rfl | rfl <;> rfl
    show (readExponent (withoutUnderscores (mark :: (sign ++ digits.val)))).isSome = _
    rw [htext, readExponent, if_pos hmark, hread]
    cases hempty : digits.digits.isEmpty <;> simp [hempty, hdigits]

theorem head_exponentText (exponent : Option Exponent) :
    ∀ c ∈ (withoutUnderscores (exponentText exponent)).head?,
      isDecimalDigit c = false ∧ c ≠ '.' := by
  cases exponent with
  | none => nofun
  | some e =>
    have hmark : ∀ c, c = 'e' ∨ c = 'E' → isDecimalDigit c = false ∧ c ≠ '.' := by
      rintro c (rfl | rfl) <;> decide
    have hhead : (withoutUnderscores (exponentText (some e))).head? = some e.mark := by
      rcases e.isMark with he | he <;> simp [exponentText, withoutUnderscores, he]
    intro c hc
    obtain rfl : e.mark = c := Option.some.inj (hhead.symm.trans hc)
    exact hmark _ e.isMark

/-- Among the digits of a decimal there is one. -/
theorem digits_of_starts {cs ds : List Char} (h : startsWithDigit (cs ++ ds) = true) :
    ¬ ((withoutUnderscores cs).isEmpty = true ∧ (withoutUnderscores ds).isEmpty = true) := by
  cases happend : cs ++ ds with
  | nil => simp [happend, startsWithDigit] at h
  | cons c rest =>
    rw [happend, startsWithDigit] at h
    have hne : c ≠ '_' := by
      rintro rfl
      exact absurd h (by decide)
    have hc : c ∈ withoutUnderscores (cs ++ ds) :=
      List.mem_filter.2 ⟨happend ▸ List.mem_cons_self, by simpa using hne⟩
    rw [withoutUnderscores_append] at hc
    rintro ⟨hcs, hds⟩
    simp_all

/-- Digits, a point with digits unless it is left out, and what else there is. -/
theorem readDouble_parts {whole fraction point tail : List Char}
    (hwhole : ∀ c ∈ whole, isDecimalDigit c = true)
    (hfraction : ∀ c ∈ fraction, isDecimalDigit c = true)
    (hpoint : point = '.' :: fraction ∨ point = [] ∧ fraction = [])
    (hdigits : ¬ (whole.isEmpty = true ∧ fraction.isEmpty = true))
    (htail : ∀ c ∈ tail.head?, isDecimalDigit c = false ∧ c ≠ '.') :
    readDouble (whole ++ (point ++ tail)) = (readExponent tail).map fun e =>
      doubleOfDecimal false (decimalValue (whole ++ fraction)) (e - fraction.length) := by
  have hend : ∀ c ∈ tail.head?, isDecimalDigit c = false := fun c hc => (htail c hc).1
  have hsign : readSign (whole ++ (point ++ tail)) = (false, whole ++ (point ++ tail)) := by
    refine readSign_eq fun c hc => ?_
    cases whole with
    | nil =>
      rcases hpoint with rfl | ⟨_, rfl⟩
      · cases hc
        exact .inr rfl
      · simp at hdigits
    | cons d whole =>
      cases hc
      exact .inl (hwhole _ List.mem_cons_self)
  -- without a point the digits are followed by the tail at once, which does not start with one
  rw [readDouble, hsign]
  rcases hpoint with rfl | ⟨rfl, rfl⟩
  · have hrest : ∀ c ∈ ('.' :: (fraction ++ tail)).head?, isDecimalDigit c = false := by
      rintro c ⟨⟩
      decide
    simp only [List.cons_append, span_digits hwhole hrest, span_digits hfraction hend]
    rw [if_neg hdigits]
  · simp only [List.nil_append, span_digits hwhole hend]
    split
    · next rest => exact absurd rfl (htail '.' rfl).2
    · rw [if_neg hdigits]

/-- A decimal has a value exactly if its exponent, where it has one, has a digit. -/
theorem readDouble_decimal {whole : DigitText isDecimalDigit}
    {fraction : Option (DigitText isDecimalDigit)} (exponent : Option Exponent)
    (starts : startsWithDigit (whole.val ++ fraction.elim [] (·.val)) = true) :
    let n := Numeral.decimal whole fraction exponent starts
    ∃ x, x.isNaN = false ∧
      readDouble (withoutUnderscores n.text) = if n.isComplete then some x else none := by
  intro n
  let places := fraction.elim [] (·.digits)
  have hplaces : ∀ c ∈ places, isDecimalDigit c = true := by
    cases fraction with
    | none => exact fun c hc => absurd hc List.not_mem_nil
    | some f => exact fun c => f.isDigit_of_mem
  have hpoint : withoutUnderscores (fractionText fraction) = '.' :: places ∨
      withoutUnderscores (fractionText fraction) = [] ∧ places = [] := by
    cases fraction with
    | none => exact .inr ⟨rfl, rfl⟩
    | some f => exact .inl rfl
  have hdigits : ¬ (whole.digits.isEmpty = true ∧ places.isEmpty = true) := by
    have hstarts := digits_of_starts starts
    cases fraction <;> exact hstarts
  have htext : withoutUnderscores n.text = whole.digits ++
      (withoutUnderscores (fractionText fraction) ++
        withoutUnderscores (exponentText exponent)) := by
    simp only [n, Numeral.text, withoutUnderscores_append, List.append_assoc]
  rw [htext, readDouble_parts (fun c => whole.isDigit_of_mem) hplaces hpoint hdigits
    (head_exponentText exponent)]
  have hsome := readExponent_isSome exponent
  have hcomplete : n.isComplete = exponent.all fun e => !e.digits.digits.isEmpty := rfl
  rw [hcomplete, ← hsome]
  cases readExponent (withoutUnderscores (exponentText exponent)) with
  | none => exact ⟨_, isNaN_doubleOfDecimal false 0 0, rfl⟩
  | some e => exact ⟨_, isNaN_doubleOfDecimal _ _ _, rfl⟩

/-! ### Tokens -/

/-- What the token of a numeral is. -/
def Numeral.Reads (n : Numeral) (kind : Token.Kind) : Prop :=
  (n.isComplete = true → n.isLarge = false → ∃ x, kind = .number x ∧ x.isNaN = false) ∧
  (n.isRadix = true → n.isComplete = false ∨ n.isLarge = true → kind = .invalid '0') ∧
  (n.isRadix = false → n.isComplete = false → ∃ x, kind = .number x ∧ x.isNaN = true)

/-- What is scanned from a digit, or from a point and a digit, is a decimal. -/
theorem exists_decimalRun {first : Char} (h : startsNumeral (first :: cs) = true) :
    ∃ (whole : DigitText isDecimalDigit) (fraction : Option (DigitText isDecimalDigit))
      (exponent : Option Exponent)
      (starts : startsWithDigit (whole.val ++ fraction.elim [] (·.val)) = true)
      (rest : List Char),
      let n := Numeral.decimal whole fraction exponent starts
      first :: decimalRun first cs = n.text ∧ first :: cs = n.text ++ rest ∧
      ∀ c ∈ rest.head?, n.goesOn c = false := by
  obtain ⟨digits, afterDigits, hdigits, rfl, hafter⟩ := exists_digitRun isDecimalDigit cs
  -- behind a point the digits are those of the fraction, and no second point is read
  by_cases hpoint : first = '.'
  · subst hpoint
    obtain ⟨exponent, rest, hexponent, rfl, hrest⟩ := exists_exponentRun afterDigits hafter
    refine ⟨⟨[], nofun⟩, some digits, exponent, ?_, rest, ?_, ?_, hrest⟩
    · exact startsWithDigit_of_append hafter h
    · simp [decimalRun, hdigits, hexponent, Numeral.text, fractionText]
    · simp [Numeral.text, fractionText]
  · obtain ⟨fraction, afterFraction, hfraction, rfl, hfollows⟩ := exists_fractionRun afterDigits
    obtain ⟨exponent, rest, hexponent, rfl, hrest⟩ :=
      exists_exponentRun afterFraction (hfollows hafter)
    have hfirst : isDecimalDigit first = true := by simpa [startsNumeral, hpoint] using h
    refine ⟨⟨first :: digits.val, ?_⟩, fraction, exponent, hfirst, rest, ?_, ?_, hrest⟩
    · simpa [hfirst] using digits.property
    · simp [decimalRun, hdigits, hfraction, hexponent, hpoint, Numeral.text]
    · simp [Numeral.text]

/-- What is scanned as a numeral of a text, and the number of characters that are taken. -/
def ScansNumeral (text : List Char) (scanned : Token.Kind × Nat) : Prop :=
  ∃ (n : Numeral) (rest : List Char), text = n.text ++ rest ∧ scanned.2 = n.text.length ∧
    (∀ c ∈ rest.head?, n.goesOn c = false) ∧ n.Reads scanned.1

theorem scanDecimal_scans {first : Char} (h : startsNumeral (first :: cs) = true) :
    ScansNumeral (first :: cs) (scanDecimal first cs) := by
  obtain ⟨whole, fraction, exponent, starts, rest, htext, hcs, hrest⟩ := exists_decimalRun h
  obtain ⟨x, hx, hread⟩ := readDouble_decimal exponent starts
  refine ⟨.decimal whole fraction exponent starts, rest, hcs, ?_, hrest, ?_⟩
  · rw [← htext]
    rfl
  · simp only [scanDecimal, htext, hread]
    refine ⟨fun hcomplete _ => ⟨x, ?_, hx⟩, nofun, fun _ hcut => ⟨0.0 / 0.0, ?_, ?_⟩⟩
    · rw [if_pos hcomplete]
      rfl
    · rw [if_neg (by simp [hcut])]
      rfl
    · decide +kernel

theorem scanRadix_scans {letter : Char} {base : Nat} (h : radixOf? letter = some base) :
    ScansNumeral ('0' :: letter :: cs) (scanRadix base cs) := by
  obtain ⟨digits, rest, hrun, rfl, hrest⟩ := exists_digitRun (isDigitOf base) cs
  refine ⟨.radix letter base digits h, rest, rfl, ?_, hrest, ?_⟩
  · simp [scanRadix, hrun, Numeral.text]
  · simp only [scanRadix, hrun]
    refine ⟨fun hcomplete hsmall => ⟨_, if_neg ?_, isNaN_nearestDouble _ _ _⟩,
      fun _ hbad => if_pos ?_, nofun⟩
    · simp_all [Numeral.isComplete, Numeral.isLarge]
    · simp_all [Numeral.isComplete, Numeral.isLarge]

theorem scanNumber_scans {first : Char} (h : isDecimalDigit first = true) :
    ScansNumeral (first :: cs) (scanNumber first cs) := by
  have hstarts : startsNumeral (first :: cs) = true := by simp [startsNumeral, h]
  unfold scanNumber
  split
  · next c rest =>
    split
    · next base hradix =>
      split at hradix
      · next hzero =>
        subst hzero
        exact scanRadix_scans hradix
      · cases hradix
    · exact scanDecimal_scans hstarts
  · exact scanDecimal_scans hstarts

theorem scanString_ne_number (quote : Char) (cs : List Char) (x : Float) :
    (scanString quote cs).1 ≠ .number x := by
  unfold scanString
  split <;> nofun

theorem scanTemplate_ne_number (opening : Bool) (cs : List Char) (x : Float) :
    (scanTemplate opening cs).1 ≠ .number x := by
  unfold scanTemplate
  split <;> nofun

theorem scanWord_ne_number (first : Char) (cs : List Char) (x : Float) :
    (scanWord first cs).1 ≠ .number x := by
  unfold scanWord
  dsimp only
  split <;> nofun

theorem scanToken_scans {c : Char} (h : startsNumeral (c :: cs) = true) :
    ScansNumeral (c :: cs) (scanToken c cs) := by
  have hquote : ¬ (c = '"' ∨ c = '\'') := by
    rintro (rfl | rfl) <;> simp [startsNumeral, isDecimalDigit] at h
  have htick : c ≠ '\x60' := by
    rintro rfl
    simp [startsNumeral, isDecimalDigit] at h
  rw [scanToken, if_neg hquote, if_neg htick]
  split
  · next hdigit => exact scanNumber_scans hdigit
  · next hdigit =>
    rw [if_pos (by simpa [startsNumeral, hdigit] using h)]
    exact scanDecimal_scans h

theorem scanToken_ne_number {c : Char} (h : startsNumeral (c :: cs) = false) (x : Float) :
    (scanToken c cs).1 ≠ .number x := by
  unfold scanToken
  split
  · exact scanString_ne_number c cs x
  split
  · exact scanTemplate_ne_number true cs x
  split
  · next hdigit => simp [startsNumeral, hdigit] at h
  split
  · next hpoint => simp [startsNumeral, hpoint] at h
  split
  · nofun
  split
  · exact scanWord_ne_number c cs x
  · nofun

/-- **A number token is a numeral of the text, and almost always a number.** Only a text that starts
    with a digit, or with a point and a digit, gives one, and then the token is the longest numeral
    there. If digits are missing after the letter of a radix, or the integer is too large, the token
    is invalid. If they are missing in an exponent, it is the number that is not a number. All other
    numerals read as numbers that are numbers. -/
theorem number_token_is_numeral (l : Lexer) :
    (startsNumeral l.skip.rest = false → ∀ x, l.next.1.kind ≠ .number x) ∧
    (startsNumeral l.skip.rest = true → ∃ n : Numeral, l.skip.rest = n.text ++ l.next.2.rest ∧
      (∀ c ∈ l.next.2.rest.head?, n.goesOn c = false) ∧ n.Reads l.next.1.kind) := by
  unfold Lexer.next
  dsimp only
  split
  · next hend =>
    rw [hend]
    exact ⟨fun _ => nofun, nofun⟩
  · next c cs hrest =>
    rw [hrest]
    refine ⟨scanToken_ne_number, fun hstarts => ?_⟩
    obtain ⟨n, rest, htext, htaken, hends, hreads⟩ := scanToken_scans hstarts
    have hafter : (l.skip.move (scanToken c cs).2).rest = rest := by
      rw [Lexer.move, hrest, htext, htaken, List.drop_left]
    exact ⟨n, by rw [hafter]; exact htext, by rw [hafter]; exact hends, hreads⟩

/-- An exponent without digits makes a number token that is not a number. -/
theorem cut_exponent_is_nan :
    ∃ x, (Lexer.ofText "1e").next.1.kind = .number x ∧ x.isNaN = true ∧
      (Lexer.ofText "1e").next.2.rest = [] :=
  ⟨0.0 / 0.0, rfl, by decide +kernel, rfl⟩

end PackScript
