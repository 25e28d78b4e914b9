import PackScript.Binary64

namespace PackScript

/-!
# The fewest digits that read back

Every finite double is read back from any decimal that lies close enough to it: the decimals in
its rounding interval. `shortest` picks, among those with the fewest digits, the one nearest to
the double. All comparisons are between naturals, so nothing is rounded on the way.
-/

/-- Which of two equally near decimals is taken: the larger one, or the one with even last
    digit. -/
inductive DecimalTie where
  | up
  | even
deriving Repr, DecidableEq

/-- A positive decimal `coefficient · 10 ^ exponent`. -/
structure Decimal where
  coefficient : Nat
  exponent : Int
deriving Repr, DecidableEq

/-- A positive double with its rounding interval, over one denominator: the double is `value /
    unit`, and the decimals that read back as it lie between `lower / unit` and `upper / unit`,
    both included iff `closed`. -/
structure RoundingInterval where
  value : Nat
  lower : Nat
  upper : Nat
  unit : Nat
  closed : Bool
deriving Repr

namespace RoundingInterval

/-- The interval of `mantissa · 2 ^ exponent`. Below a power of two the neighbour is twice as
    near as above it; the smallest exponent has no such step. -/
def ofBinary (mantissa : Nat) (exponent : Int) : RoundingInterval :=
  let low := if mantissa = 1 <<< 52 ∧ -1074 < exponent then 1 else 2
  let up := 1 <<< (exponent - 2).toNat
  { value := 4 * mantissa * up
    lower := (4 * mantissa - low) * up
    upper := (4 * mantissa + 2) * up
    unit := 1 <<< (2 - exponent).toNat
    closed := mantissa % 2 = 0 }

/-- The interval with everything multiplied by `10 ^ e`. -/
def scale (i : RoundingInterval) (e : Int) : RoundingInterval :=
  let up := Nat.pow 10 e.toNat
  { i with
    value := i.value * up
    lower := i.lower * up
    upper := i.upper * up
    unit := i.unit * Nat.pow 10 (-e).toNat }

/-- The natural number reads back as the double. -/
def admits (i : RoundingInterval) (n : Nat) : Bool :=
  let x := n * i.unit
  if i.closed then i.lower ≤ x && x ≤ i.upper else i.lower < x && x < i.upper

/-- The natural number nearest to the double among those that read back as it. Only the two
    around the double have to be looked at. -/
def nearest? (i : RoundingInterval) (tie : DecimalTie) : Option Nat :=
  let n := i.value / i.unit
  let below := i.value - n * i.unit
  let above := (n + 1) * i.unit - i.value
  match i.admits n, i.admits (n + 1) with
  | true, true =>
    if below < above then some n
    else if above < below then some (n + 1)
    else match tie with
      | .up => some (n + 1)
      | .even => some (if n % 2 = 0 then n else n + 1)
  | true, false => some n
  | false, true => some (n + 1)
  | false, false => none

end RoundingInterval

/-- The largest `k` with `10 ^ k ≤ value / unit`, starting from an estimate that is not too
    large and at most `fuel` too small. -/
def decimalLogFrom (i : RoundingInterval) (k : Int) : Nat → Int
  | 0 => k
  | fuel + 1 =>
    let next := i.scale (-(k + 1))
    if next.unit ≤ next.value then decimalLogFrom i (k + 1) fuel else k

/-- The largest `k` with `10 ^ k ≤ value / unit`. The estimate multiplies the binary logarithm
    by a number just below `log 2`, so it is at most a few units too small. -/
def decimalLog (i : RoundingInterval) : Int :=
  let e := quotientLog i.value i.unit
  let estimate := if 0 ≤ e then e * 30102 / 100000 else e * 30104 / 100000
  decimalLogFrom i (estimate - 1) 4

/-- The coefficient without its trailing zeros. -/
def Decimal.trim (d : Decimal) : Nat → Decimal
  | 0 => d
  | fuel + 1 =>
    if d.coefficient % 10 = 0 ∧ d.coefficient ≠ 0 then
      Decimal.trim ⟨d.coefficient / 10, d.exponent + 1⟩ fuel
    else d

/-- Tries `count`, `count + 1`, … digits, at most `fuel` grids, and falls back on the digits of
    the last one. -/
def shortestFrom (i : RoundingInterval) (tie : DecimalTie) (log : Int) (count : Nat) :
    Nat → Decimal
  | 0 =>
    let e := (count : Int) - 1 - log
    let grid := i.scale e
    ⟨grid.value / grid.unit, -e⟩
  | fuel + 1 =>
    let e := (count : Int) - 1 - log
    match (i.scale e).nearest? tie with
    | some n => Decimal.trim ⟨n, -e⟩ 18
    | none => shortestFrom i tie log (count + 1) fuel

/-- The decimal with the fewest digits that reads back as `mantissa · 2 ^ exponent`, the nearest
    one of those. Seventeen digits always suffice. -/
def shortest (tie : DecimalTie) (mantissa : Nat) (exponent : Int) : Decimal :=
  let i := RoundingInterval.ofBinary mantissa exponent
  shortestFrom i tie (decimalLog i) 1 17

end PackScript
