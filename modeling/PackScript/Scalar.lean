import PackScript.Kind
import PackScript.Operator
import PackScript.Nbt.Basic
import PackScript.Decimal.Layout
import PackScript.Decimal.Read
import PackScript.Text.Blank

namespace PackScript

/-!
# Script values without identity

A scalar is a value that is known by itself: `undefined`, `null`, a boolean, a number or a
string. This module has the conversions between scalars and the operators on them. The compiler
folds constants with these functions, and the library routines of the machine use the same ones
at run time.
-/

/-- A script value that is not a reference. -/
inductive Scalar where
  | undefined
  | null
  | boolean (value : Bool)
  | number (value : Float)
  | string (value : String)
deriving Repr, Inhabited

/-- The number that is none. -/
def notANumber : Float := 0.0 / 0.0

/-- Text of a number in a script. -/
def numberText (x : Float) : String :=
  DecimalLayout.script.format x

/-- An ASCII letter that no number can hold: every one but the mark of the exponent. -/
def isForeignLetter (c : Char) : Bool :=
  c.isAlpha && c != 'e' && c != 'E'

/-- The number a string stands for: blanks at the ends do not count, the empty string is zero,
    and what is no decimal is no number. -/
def textNumber (s : String) : Float :=
  let cs := Text.trimBlanks s.toList
  if cs.isEmpty then 0.0
  else if cs = "Infinity".toList ∨ cs = "+Infinity".toList then 1.0 / 0.0
  else if cs = "-Infinity".toList then -1.0 / 0.0
  else if cs.any isForeignLetter then notANumber
  else (readDouble cs).getD notANumber

/-- The low 32 bits of the integer part, as a signed number; zero for what is not finite. -/
def toInt32 (x : Float) : Int32 :=
  if x.isFinite then Int32.ofInt (integerPart x) else 0

/-- `base ** exponent`: no number when the exponent is none, or when `1` or `-1` is raised to an
    infinite power. -/
def power (base exponent : Float) : Float :=
  if exponent.isNaN || (base.abs == 1.0 && exponent.isInf) then notANumber
  else Float.pow base exponent

namespace Scalar

/-! ### Conversions -/

/-- The kind of a scalar. -/
def kind : Scalar → Kind
  | .undefined => .undefined
  | .null => .null
  | .boolean _ => .boolean
  | .number _ => .number
  | .string _ => .string

/-- `undefined` or `null`. -/
def isNullish : Scalar → Bool
  | .undefined | .null => true
  | _ => false

/-- The value counts as true in a condition. -/
def truthy : Scalar → Bool
  | .undefined | .null => false
  | .boolean b => b
  | .number x => x != 0.0 && !x.isNaN
  | .string s => !s.isEmpty

/-- The value as a number. -/
def toNumber : Scalar → Float
  | .undefined => notANumber
  | .null => 0.0
  | .boolean b => if b then 1.0 else 0.0
  | .number x => x
  | .string s => textNumber s

/-- The value as a string. -/
def toText : Scalar → String
  | .undefined => "undefined"
  | .null => "null"
  | .boolean b => if b then "true" else "false"
  | .number x => numberText x
  | .string s => s

/-! ### Slots -/

/-- What the `value` field of a slot holds for the scalar. -/
def payload : Scalar → Nbt
  | .undefined | .null => .int 0
  | .boolean b => .bool b
  | .number x => .double x
  | .string s => .string s

end Scalar

/-- A slot: the tag of the kind, the payload, and for a function its function id. -/
def Nbt.slot (kind : Kind) (payload : Nbt) (function : Option String) : Nbt :=
  .compound ([("type", .string kind.tag), ("value", payload)] ++
    match function with
    | some id => [("function", .string id)]
    | none => [])

/-- The slot that holds a scalar. -/
def Scalar.slot (s : Scalar) : Nbt :=
  Nbt.slot s.kind s.payload none

/-- The slot that holds `undefined`. -/
def Nbt.undefinedSlot : Nbt :=
  Scalar.undefined.slot

namespace Scalar

/-! ### Comparison -/

/-- `===`: the same kind and the same value; a number that is none differs from itself. -/
def strictEquals : Scalar → Scalar → Bool
  | .undefined, .undefined => true
  | .null, .null => true
  | .boolean a, .boolean b => a == b
  | .number a, .number b => a == b
  | .string a, .string b => a == b
  | _, _ => false

/-- `==`: values of different kinds are compared as numbers, except that `undefined` and `null`
    equal each other and nothing else. -/
def looseEquals (a b : Scalar) : Bool :=
  if a.kind = b.kind then a.strictEquals b
  else if a.isNullish || b.isNullish then a.isNullish && b.isNullish
  else a.toNumber == b.toNumber

/-- The order of two doubles, unless one is no number. -/
def compareNumbers (a b : Float) : Option Ordering :=
  if a < b then some .lt
  else if b < a then some .gt
  else if a == b then some .eq
  else none

/-- The relational order: two strings by their characters, all else as numbers. -/
def order : Scalar → Scalar → Option Ordering
  | .string a, .string b => some (compare a b)
  | a, b => compareNumbers a.toNumber b.toNumber

/-- A relational operator: false when the operands have no order. -/
def compareBy (test : Ordering → Bool) (a b : Scalar) : Bool :=
  match order a b with
  | some o => test o
  | none => false

/-! ### Operators -/

/-- `+`: joins when either side is a string, adds otherwise. -/
def add : Scalar → Scalar → Scalar
  | .string a, b => .string (a ++ b.toText)
  | a, .string b => .string (a.toText ++ b)
  | a, b => .number (a.toNumber + b.toNumber)

/-- An arithmetic operator on the operands as numbers. -/
def arithmetic (f : Float → Float → Float) (a b : Scalar) : Scalar :=
  .number (f a.toNumber b.toNumber)

/-- A bitwise operator on the operands as 32-bit words. -/
def bitwise (f : Int32 → Int32 → Int32) (a b : Scalar) : Scalar :=
  .number (doubleOfInt (f (toInt32 a.toNumber) (toInt32 b.toNumber)).toInt)

/-- `>>>`: the left operand is taken as an unsigned word, the amount modulo 32. -/
def shiftRightZero (a b : Scalar) : Scalar :=
  let word := (toInt32 a.toNumber).toUInt32
  let amount := (toInt32 b.toNumber).toUInt32 &&& 31
  .number (doubleOfNat (word >>> amount).toNat)

/-- A binary operator on scalars; `in` and `instanceof` have no meaning on them. -/
def binary (op : BinaryOp) (a b : Scalar) : Option Scalar :=
  match op with
  | .add => some (add a b)
  | .sub => some (arithmetic (· - ·) a b)
  | .mul => some (arithmetic (· * ·) a b)
  | .div => some (arithmetic (· / ·) a b)
  | .mod => some (arithmetic remainder a b)
  | .exp => some (arithmetic power a b)
  | .eq => some (.boolean (looseEquals a b))
  | .notEq => some (.boolean (!looseEquals a b))
  | .strictEq => some (.boolean (strictEquals a b))
  | .strictNotEq => some (.boolean (!strictEquals a b))
  | .lt => some (.boolean (compareBy (·.isLT) a b))
  | .ltEq => some (.boolean (compareBy (·.isLE) a b))
  | .gt => some (.boolean (compareBy (·.isGT) a b))
  | .gtEq => some (.boolean (compareBy (·.isGE) a b))
  | .bitAnd => some (bitwise (· &&& ·) a b)
  | .bitOr => some (bitwise (· ||| ·) a b)
  | .bitXor => some (bitwise (· ^^^ ·) a b)
  | .shiftLeft => some (bitwise (· <<< ·) a b)
  | .shiftRight => some (bitwise (· >>> ·) a b)
  | .shiftRightZero => some (shiftRightZero a b)
  | .isIn | .instanceOf => none

end Scalar

end PackScript
