import PackScript.Binary64

namespace PackScript

/-!
# Reading decimals

The grammar of a decimal is an optional sign, digits with at most one point among them and at
least one digit, and an optional exponent. The double is the nearest one to the exact value.
-/

/-- The character is one of `0` to `9`. -/
def isDecimalDigit (c : Char) : Bool :=
  '0' ≤ c && c ≤ '9'

/-- The natural number that the digits write in the radix. -/
def digitsValue (radix : Nat) (value : Char → Nat) (digits : List Char) : Nat :=
  digits.foldl (fun n c => n * radix + value c) 0

/-- The value of a decimal digit. -/
def decimalDigitValue (c : Char) : Nat :=
  c.toNat - '0'.toNat

/-- The natural number that decimal digits write. -/
def decimalValue (digits : List Char) : Nat :=
  digitsValue 10 decimalDigitValue digits

/-- The value of a hexadecimal digit of either case. -/
def hexDigitValue? (c : Char) : Option Nat :=
  if '0' ≤ c && c ≤ '9' then some (c.toNat - '0'.toNat)
  else if 'a' ≤ c && c ≤ 'f' then some (c.toNat - 'a'.toNat + 10)
  else if 'A' ≤ c && c ≤ 'F' then some (c.toNat - 'A'.toNat + 10)
  else none

/-- The double nearest to `± coefficient · 10 ^ exponent`. Beyond `10 ^ 400` and below
    `10 ^ -400` the answer does not depend on the exponent, so no larger power is formed. -/
def doubleOfDecimal (negative : Bool) (coefficient : Nat) (exponent : Int) : Float :=
  let size : Int := (coefficient.log2 : Int) * 30103 / 100000 + exponent
  if coefficient = 0 ∨ size < -400 then nearestDouble negative 0 1
  else if 400 < size then nearestDouble negative (Nat.pow 10 400) 1
  else
    nearestDouble negative (coefficient * Nat.pow 10 exponent.toNat) (Nat.pow 10 (-exponent).toNat)

/-- A sign at the head of the text, if any: whether it is `-`, and the rest. -/
def readSign : List Char → Bool × List Char
  | '-' :: rest => (true, rest)
  | '+' :: rest => (false, rest)
  | cs => (false, cs)

/-- The exponent part after the digits: nothing, or `e` with an optional sign and digits up to
    the end. -/
def readExponent : List Char → Option Int
  | [] => some 0
  | c :: rest =>
    if c = 'e' ∨ c = 'E' then
      let (negative, digits) := readSign rest
      if digits.isEmpty ∨ ¬ digits.all isDecimalDigit then none
      else
        let e : Int := decimalValue digits
        some (if negative then -e else e)
    else none

/-- The double that the whole text writes, if it is a decimal. -/
def readDouble (cs : List Char) : Option Float :=
  let (negative, cs) := readSign cs
  let (whole, rest) := cs.span isDecimalDigit
  let (fraction, rest) := match rest with
    | '.' :: rest => rest.span isDecimalDigit
    | _ => ([], rest)
  if whole.isEmpty ∧ fraction.isEmpty then none
  else
    (readExponent rest).map fun e =>
      doubleOfDecimal negative (decimalValue (whole ++ fraction)) (e - fraction.length)

end PackScript
