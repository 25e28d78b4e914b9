import PackScript.Toml.Basic
import PackScript.Toml.Text

namespace PackScript.Toml

/-!
# Numbers of TOML

Underscores may stand between digits. Integers have 64 bits, and may be written in radix 16, 8
and 2. A number with a fraction or an exponent is a float, and so are infinity and not-a-number.
-/

/-- The digits ahead, without the underscores between them. -/
def spanDigits (isDigit : Char → Bool) : List Char → List Char × List Char
  | [] => ([], [])
  | c :: rest =>
    if isDigit c then
      let (digits, rest) := spanDigits isDigit rest
      (c :: digits, rest)
    else if c = '_' && (rest.head?.map isDigit).getD false then spanDigits isDigit rest
    else ([], c :: rest)

/-- Digits, the first of which is no underscore. -/
def readDigits (isDigit : Char → Bool) : Reader (List Char)
  | [] => none
  | c :: rest => if isDigit c then some (spanDigits isDigit (c :: rest)) else none

/-- The digits of a decimal integer: no zero stands before others. -/
def readWhole : Reader (List Char)
  | '0' :: rest => some (['0'], rest)
  | cs => readDigits isDecimalDigit cs

/-- An integer in the range of 64 bits. -/
def int64? (i : Int) : Option Node :=
  if -0x8000000000000000 ≤ i ∧ i < 0x8000000000000000 then some (.int i) else none

/-- The digits of an integer in a radix. -/
def readRadix (radix : Nat) : Reader Node := fun cs => do
  let value (c : Char) : Nat := (hexDigitValue? c).getD radix
  let (digits, rest) ← readDigits (fun c => value c < radix) cs
  let n ← int64? (digitsValue radix value digits)
  return (n, rest)

/-- The digits of the fraction ahead, if there is one. -/
def fraction? : List Char → Option (List Char × List Char)
  | '.' :: rest => readDigits isDecimalDigit rest
  | _ => none

/-- The exponent ahead, if there is one. -/
def exponent? : List Char → Option (Int × List Char)
  | c :: rest =>
    if c = 'e' ∨ c = 'E' then
      let (negative, rest) := readSign rest
      (readDigits isDecimalDigit rest).map fun (digits, rest) =>
        let e : Int := decimalValue digits
        (if negative then -e else e, rest)
    else none
  | [] => none

/-- The float of its digits. One above the range is refused; one below it is infinite. -/
def float? (negative : Bool) (digits : List Char) (exponent : Int) : Option Node :=
  let x := doubleOfDecimal negative (decimalValue digits) exponent
  if x.isInf && !negative then none else some (.float x)

/-- A decimal number after its sign. -/
def readDecimal (negative : Bool) : Reader Node := fun cs => do
  let (whole, rest) ← readWhole cs
  let fraction := fraction? rest
  let (digits, rest) := fraction.getD ([], rest)
  match exponent? rest with
  | some (e, rest) => return (← float? negative (whole ++ digits) (e - digits.length), rest)
  | none =>
    if fraction.isSome then
      return (← float? negative (whole ++ digits) (-digits.length), rest)
    else
      let n : Int := decimalValue whole
      return (← int64? (if negative then -n else n), rest)

/-- A number. -/
def readNumber : Reader Node
  | '0' :: 'x' :: rest => readRadix 16 rest
  | '0' :: 'o' :: rest => readRadix 8 rest
  | '0' :: 'b' :: rest => readRadix 2 rest
  | cs =>
    match readSign cs with
    | (negative, 'i' :: 'n' :: 'f' :: rest) =>
      some (.float ((if negative then -1.0 else 1.0) / 0.0), rest)
    | (_, 'n' :: 'a' :: 'n' :: rest) => some (.float (0.0 / 0.0), rest)
    | (negative, cs) => readDecimal negative cs

end PackScript.Toml
