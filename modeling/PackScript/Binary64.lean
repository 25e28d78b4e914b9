namespace PackScript

/-!
# Finite doubles as integers times powers of two

A finite `Float` is `± mantissa · 2 ^ exponent` with natural `mantissa`. The decimal reader and
printer and the remainder work on these integers, where arithmetic is exact, and come back to
`Float` by rounding once.

* `Binary64.ofFloat` — the parts of a finite double.
* `nearestDouble` — the double nearest to a quotient of naturals, a tie going to the even mantissa.
* `Float.remainder` — the exact remainder of truncated division.
* `Float.toInteger` — the integer part.
-/

/-- A finite double, as `± mantissa · 2 ^ exponent`. -/
structure Binary64 where
  negative : Bool
  mantissa : Nat
  exponent : Int
deriving Repr, DecidableEq

namespace Binary64

/-- The parts of a finite double; the mantissa has at most 53 bits and the exponent is at
    least -1074. -/
def ofFloat (x : Float) : Binary64 :=
  let bits : Nat := x.toBits.toNat
  let fraction : Nat := bits % (1 <<< 52)
  let biased : Nat := (bits >>> 52) % (1 <<< 11)
  let negative := decide (1 <<< 63 ≤ bits)
  if biased = 0 then ⟨negative, fraction, -1074⟩
  else ⟨negative, 1 <<< 52 + fraction, (biased : Int) - 1075⟩

end Binary64

/-- `num / den` times `2 ^ -q`, as a quotient of naturals. -/
def scaleDown (num den : Nat) (q : Int) : Nat × Nat :=
  if 0 ≤ q then (num, den <<< q.toNat) else (num <<< (-q).toNat, den)

/-- The largest `e` with `2 ^ e ≤ num / den`, for positive `num` and `den`. -/
def quotientLog (num den : Nat) : Int :=
  let e : Int := (num.log2 : Int) - den.log2
  let (n, d) := scaleDown num den e
  if d ≤ n then e else e - 1

/-- Bits of the nonnegative double nearest to `num / den` for positive `den`, a tie going to the
    even mantissa and what lies beyond the largest finite double to infinity. -/
def nearestBits (num den : Nat) : Nat :=
  if num = 0 then 0
  else
    let q := max (quotientLog num den - 52) (-1074)
    let (n, d) := scaleDown num den q
    let m := n / d
    let r := n % d
    let m := if d < 2 * r ∨ (d = 2 * r ∧ m % 2 = 1) then m + 1 else m
    let bits := if m < 1 <<< 52 then m else (q + 1075).toNat <<< 52 + (m - 1 <<< 52)
    min bits (2047 <<< 52)

/-- The double nearest to `± num / den`, for positive `den`. -/
def nearestDouble (negative : Bool) (num den : Nat) : Float :=
  let sign := if negative then 1 <<< 63 else 0
  Float.ofBits (UInt64.ofNat (sign + nearestBits num den))

/-- `± m · 2 ^ e` as a double, exact when a double has that value. -/
def Binary64.toFloat (b : Binary64) : Float :=
  if 0 ≤ b.exponent then nearestDouble b.negative (b.mantissa <<< b.exponent.toNat) 1
  else nearestDouble b.negative b.mantissa (1 <<< (-b.exponent).toNat)

/-- The double nearest to a natural number. -/
def doubleOfNat (n : Nat) : Float :=
  nearestDouble false n 1

/-- The double nearest to an integer; zero is positive. -/
def doubleOfInt (i : Int) : Float :=
  nearestDouble (decide (i < 0)) i.natAbs 1

/-- Remainder of the truncated division of `x` by `y`: it has the sign of `x`, and is computed
    without rounding. -/
def remainder (x y : Float) : Float :=
  if x.isNaN || y.isNaN || x.isInf || y == 0.0 then 0.0 / 0.0
  else if y.isInf then x
  else
    let a := Binary64.ofFloat x
    let b := Binary64.ofFloat y
    let e := min a.exponent b.exponent
    let r := (a.mantissa <<< (a.exponent - e).toNat) % (b.mantissa <<< (b.exponent - e).toNat)
    Binary64.toFloat ⟨a.negative, r, e⟩

/-- The integer part of a finite double. -/
def integerPart (x : Float) : Int :=
  let b := Binary64.ofFloat x
  let n := if 0 ≤ b.exponent then b.mantissa <<< b.exponent.toNat
    else b.mantissa >>> (-b.exponent).toNat
  if b.negative then -(n : Int) else n

end PackScript
