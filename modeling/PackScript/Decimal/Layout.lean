import PackScript.Decimal.Shortest

namespace PackScript

/-!
# Numbers as text

A layout says how the digits of a double are written: for which magnitudes positionally, with
or without `.0`, how the exponent looks. Three layouts are in use, one for each text a number
appears in.

* `DecimalLayout.script` — the text a script sees when a number becomes a string.
* `DecimalLayout.storage` — the literal in a storage command.
* `DecimalLayout.json` — the number in JSON.
-/

/-- How the digits of a double are laid out. -/
structure DecimalLayout where
  /-- Smallest decimal exponent written positionally -/
  least : Int
  /-- Decimal exponent from which on the exponent is written -/
  bound : Int
  /-- Positional integers end in `.0` -/
  pointZero : Bool
  /-- A nonnegative exponent is written with `+` -/
  plus : Bool
  /-- Zero keeps its sign -/
  signedZero : Bool
  nan : String
  infinity : String
  tie : DecimalTie
deriving Repr

namespace DecimalLayout

/-- A number turned into a string by a script: positional from `1e-6` up to `1e21`. -/
def script : DecimalLayout where
  least := -6
  bound := 21
  pointZero := false
  plus := true
  signedZero := false
  nan := "NaN"
  infinity := "Infinity"
  tie := .up

/-- A number in a storage literal or in the description of a token: positional from `1e-4` up
    to `1e16`, and never mistaken for an integer. -/
def storage : DecimalLayout where
  least := -4
  bound := 16
  pointZero := true
  plus := false
  signedZero := true
  nan := "NaN"
  infinity := "inf"
  tie := .up

/-- A number in JSON: positional from `1e-5` up to `1e16`. JSON has no text for what is not
    finite, which is written `null`. -/
def json : DecimalLayout where
  least := -5
  bound := 16
  pointZero := true
  plus := true
  signedZero := true
  nan := "null"
  infinity := "null"
  tie := .even

end DecimalLayout

/-- Decimal digits of a natural number. -/
def digitsOf (n : Nat) : List Char :=
  Nat.toDigits 10 n

/-- `n` zeros. -/
def zeros (n : Nat) : List Char :=
  List.replicate n '0'

/-- Digits with the point after the first `point` of them, padded with zeros on either side. -/
def positional (pointZero : Bool) (digits : List Char) (point : Int) : List Char :=
  if point ≤ 0 then '0' :: '.' :: (zeros (-point).toNat ++ digits)
  else
    let whole := digits.take point.toNat
    let fraction := digits.drop point.toNat
    let pad := zeros (point.toNat - digits.length)
    if fraction.isEmpty then whole ++ pad ++ (if pointZero then ['.', '0'] else [])
    else whole ++ '.' :: fraction

/-- Digits with the point after the first one, and the decimal exponent. -/
def scientific (plus : Bool) (digits : List Char) (exponent : Int) : List Char :=
  let mantissa := match digits with
    | d :: f :: fs => d :: '.' :: f :: fs
    | ds => ds
  let sign := if exponent < 0 then ['-'] else if plus then ['+'] else []
  mantissa ++ 'e' :: sign ++ digitsOf exponent.natAbs

/-- The digits of a positive decimal in a layout. -/
def Decimal.layout (l : DecimalLayout) (d : Decimal) : List Char :=
  let digits := digitsOf d.coefficient
  let exponent := d.exponent + digits.length - 1
  if l.least ≤ exponent ∧ exponent < l.bound then
    positional l.pointZero digits (exponent + 1)
  else scientific l.plus digits exponent

/-- Text of a double in a layout. -/
def DecimalLayout.format (l : DecimalLayout) (x : Float) : String :=
  if x.isNaN then l.nan
  else if x.isInf then if x < 0.0 then "-" ++ l.infinity else l.infinity
  else
    let b := Binary64.ofFloat x
    let digits := if b.mantissa = 0 then (if l.pointZero then ['0', '.', '0'] else ['0'])
      else (shortest l.tie b.mantissa b.exponent).layout l
    let negative := b.negative && (l.signedZero || b.mantissa ≠ 0)
    String.ofList (if negative then '-' :: digits else digits)

end PackScript
