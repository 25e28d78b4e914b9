import PackScript.Json.Basic
import PackScript.Decimal.Read

namespace PackScript.Json

/-!
# Reading JSON

`Json.parse?` reads a text as a JSON value. Readers take the characters ahead and answer what
they read and what is left.
-/

/-! ### Numbers -/

/-- The bound of significands. -/
def significandBound : Nat := 1 <<< 64

/-- Takes digits into a significand as long as it stays in bounds: the significand, and the
    number of digits that were left. -/
def takeDigits (significand : Nat) : List Char → Nat × Nat
  | [] => (significand, 0)
  | c :: rest =>
    let next := 10 * significand + decimalDigitValue c
    if next < significandBound then takeDigits next rest else (significand, rest.length + 1)

/-- Scales a number down in steps that powers of ten in range can do. -/
def scaleDown : Nat → Float → Nat → Float
  | 0, x, _ => x
  | steps + 1, x, exponent =>
    if exponent ≤ 308 then x / doubleOfNat (Nat.pow 10 exponent)
    else if x == 0.0 then x
    else scaleDown steps (x / doubleOfNat (Nat.pow 10 308)) (exponent - 308)

/-- The double for a significand and a decimal exponent: the nearest double to the significand,
    multiplied or divided by the power of ten. `none` when it is out of range. -/
def scaled (significand : Nat) (exponent : Int) : Option Float :=
  let x := doubleOfNat significand
  if exponent < 0 then some (scaleDown 4 x exponent.natAbs)
  else if exponent ≤ 308 then
    let y := x * doubleOfNat (Nat.pow 10 exponent.toNat)
    if y.isInf then none else some y
  else if significand = 0 then some x
  else none

/-- Largest exponent that is computed with. -/
def maxExponent : Nat := 2147483647

/-- The double for a significand, the exponent that its digits have, and a written exponent. One
    that is too large leaves zero, or nothing. -/
def withExponent (significand : Nat) (exponent : Int) (negative : Bool) (written : Nat) :
    Option Float :=
  if written ≤ maxExponent then
    scaled significand (if negative then exponent - written else exponent + written)
  else if negative || significand = 0 then some 0.0
  else none

/-- A double with its sign. -/
def signed (negative : Bool) (x : Option Float) : Json :=
  match x with
  | some x => .float (if negative then -x else x)
  | none => .unreadable

/-- A number without fraction and exponent. Zero with a sign, and what does not fit 64 bits, is
    no integer. -/
def ofDigits (negative : Bool) (digits : List Char) : Json :=
  let (n, left) := takeDigits 0 digits
  if left ≠ 0 then signed negative (scaled n left)
  else if !negative then .int n
  else if n = 0 ∨ n > 1 <<< 63 then .float (-(doubleOfNat n))
  else .int (-n)

/-- A number with fraction or exponent. -/
def ofParts (negative : Bool) (digits fraction : List Char) (exponent : Bool × Nat) : Json :=
  let (n, left) := takeDigits 0 digits
  let (n, dropped) := takeDigits n fraction
  signed negative
    (withExponent n (left - (fraction.length - dropped : Nat)) exponent.1 exponent.2)

/-- The digits ahead. -/
def spanDigits (cs : List Char) : List Char × List Char :=
  cs.span isDecimalDigit

/-- The digits ahead, of which there must be one. -/
def someDigits (cs : List Char) : Option (List Char × List Char) :=
  match spanDigits cs with
  | ([], _) => none
  | found => some found

/-- Digits of a whole part, which start with zero only if it is the only one. -/
def wholeDigits (cs : List Char) : Option (List Char × List Char) :=
  match spanDigits cs with
  | ([], _) => none
  | ('0' :: _ :: _, _) => none
  | found => some found

/-- A fraction after its point, if there is one. -/
def fraction? : List Char → Option (Option (List Char) × List Char)
  | '.' :: rest => (someDigits rest).map fun (digits, rest) => (some digits, rest)
  | rest => some (none, rest)

/-- The sign of an exponent. -/
def exponentSign : List Char → Bool × List Char
  | '-' :: rest => (true, rest)
  | '+' :: rest => (false, rest)
  | rest => (false, rest)

/-- An exponent after its mark, if there is one: its sign and its amount. -/
def exponent? : List Char → Option (Option (Bool × Nat) × List Char)
  | c :: rest =>
    if c = 'e' ∨ c = 'E' then
      let (negative, rest) := exponentSign rest
      (someDigits rest).map fun (digits, rest) => (some (negative, decimalValue digits), rest)
    else some (none, c :: rest)
  | [] => some (none, [])

/-- A number without its sign. -/
def unsigned (negative : Bool) (cs : List Char) : Option (Json × List Char) := do
  let (digits, rest) ← wholeDigits cs
  let (fraction, rest) ← fraction? rest
  let (exponent, rest) ← exponent? rest
  let value := match fraction, exponent with
    | none, none => ofDigits negative digits
    | fraction, exponent =>
      ofParts negative digits (fraction.getD []) (exponent.getD (false, 0))
  return (value, rest)

/-- A number. -/
def readNumber : List Char → Option (Json × List Char)
  | '-' :: rest => unsigned true rest
  | cs => unsigned false cs

/-! ### Strings -/

/-- Where a string is read: between characters, after a backslash, or inside of a code with some
    digits left. -/
inductive StringMode where
  | plain
  | escape
  | code (left value : Nat)
deriving Repr, DecidableEq, Inhabited

/-- What was read of a string: its characters, last first, and the first half of a pair of codes
    that waits for the second one. A half without the other leaves no text. -/
structure StringText where
  chars : List Char
  half : Option Nat
  whole : Bool
deriving Repr, Inhabited

namespace StringText

/-- Nothing. -/
def empty : StringText := ⟨[], none, true⟩

/-- Nothing waits. A half that did was without the other. -/
def settle (t : StringText) : StringText :=
  ⟨t.chars, none, t.whole && t.half.isNone⟩

/-- Adds a character. -/
def push (t : StringText) (c : Char) : StringText :=
  let t := t.settle
  { t with chars := c :: t.chars }

/-- Adds the character of a code, or half of one. -/
def pushCode (t : StringText) (code : Nat) : StringText :=
  if 0xdc00 ≤ code ∧ code ≤ 0xdfff then
    match t.half with
    | some high =>
      { t with
        chars := Char.ofNat (0x10000 + (high - 0xd800) * 0x400 + (code - 0xdc00)) :: t.chars
        half := none }
    | none => { t with whole := false }
  else if 0xd800 ≤ code ∧ code ≤ 0xdbff then { t.settle with half := some code }
  else t.push (Char.ofNat code)

/-- The text, unless a half was without the other. -/
def text? (t : StringText) : Option String :=
  let t := t.settle
  if t.whole then some (String.ofList t.chars.reverse) else none

end StringText

/-- The character that a backslash and a letter stand for. -/
def escaped? : Char → Option Char
  | '"' => some '"'
  | '\\' => some '\\'
  | '/' => some '/'
  | 'b' => some '\x08'
  | 'f' => some '\x0c'
  | 'n' => some '\n'
  | 'r' => some '\r'
  | 't' => some '\t'
  | _ => none

/-- Reads a string after its opening quote. -/
def stringFrom (t : StringText) : StringMode → List Char → Option (Option String × List Char)
  | _, [] => none
  | .plain, c :: rest =>
    if c = '"' then some (t.text?, rest)
    else if c = '\\' then stringFrom t .escape rest
    else if c.toNat < 0x20 then none
    else stringFrom (t.push c) .plain rest
  | .escape, c :: rest =>
    if c = 'u' then stringFrom t (.code 4 0) rest
    else match escaped? c with
      | some d => stringFrom (t.push d) .plain rest
      | none => none
  | .code left value, c :: rest =>
    match hexDigitValue? c with
    | none => none
    | some d =>
      let value := 16 * value + d
      if left ≤ 1 then stringFrom (t.pushCode value) .plain rest
      else stringFrom t (.code (left - 1) value) rest

/-- A string after its opening quote. -/
def readString : List Char → Option (Option String × List Char) :=
  stringFrom .empty .plain

/-! ### Values -/

/-- A blank between tokens. -/
def isGap (c : Char) : Bool :=
  c = ' ' || c = '\t' || c = '\n' || c = '\r'

/-- Skips blanks. -/
def skipGap (cs : List Char) : List Char :=
  cs.dropWhile isGap

/-- Skips blanks and takes a character. -/
def takeChar (c : Char) (cs : List Char) : Option (List Char) :=
  match skipGap cs with
  | d :: rest => if c = d then some rest else none
  | [] => none

/-- Takes the characters of a word. -/
def readWord : List Char → List Char → Option (List Char)
  | [], cs => some cs
  | c :: expected, d :: rest => if c = d then readWord expected rest else none
  | _ :: _, [] => none

/-- The key of an entry and the colon behind it. -/
def readKey (cs : List Char) : Option (Option String × List Char) := do
  let rest ← takeChar '"' cs
  let (text, rest) ← readString rest
  let rest ← takeChar ':' rest
  return (text, rest)

/-- An object of entries; one whose keys are not all texts has no value. -/
def ofEntries (entries : List (Option String × Json)) : Json :=
  match entries.mapM fun (key, j) => key.map (·, j) with
  | some entries => .object entries
  | none => .unreadable

/-- A string as a value. -/
def ofText : Option String → Json
  | some s => .string s
  | none => .unreadable

mutual

/-- Reads a value; each list, object, item and entry takes one of the given steps. -/
def readValue : Nat → List Char → Option (Json × List Char)
  | 0, _ => none
  | steps + 1, cs => match skipGap cs with
    | '"' :: rest => (readString rest).map fun (text, rest) => (ofText text, rest)
    | '[' :: rest => match takeChar ']' rest with
      | some rest => some (.array [], rest)
      | none => (readItems steps rest).map fun (js, rest) => (.array js, rest)
    | '\x7b' :: rest => match takeChar '\x7d' rest with
      | some rest => some (.object [], rest)
      | none => (readEntries steps rest).map fun (es, rest) => (ofEntries es, rest)
    | 't' :: rest => (readWord "rue".toList rest).map fun rest => (.bool true, rest)
    | 'f' :: rest => (readWord "alse".toList rest).map fun rest => (.bool false, rest)
    | 'n' :: rest => (readWord "ull".toList rest).map fun rest => (.null, rest)
    | cs => readNumber cs

/-- Reads the items of a list up to its closing bracket. -/
def readItems : Nat → List Char → Option (List Json × List Char)
  | 0, _ => none
  | steps + 1, cs => match readValue steps cs with
    | none => none
    | some (j, rest) => match skipGap rest with
      | ',' :: rest => (readItems steps rest).map fun (js, rest) => (j :: js, rest)
      | ']' :: rest => some ([j], rest)
      | _ => none

/-- Reads the entries of an object up to its closing brace. -/
def readEntries : Nat → List Char → Option (List (Option String × Json) × List Char)
  | 0, _ => none
  | steps + 1, cs => match readKey cs with
    | none => none
    | some (key, rest) => match readValue steps rest with
      | none => none
      | some (j, rest) => match skipGap rest with
        | ',' :: rest => (readEntries steps rest).map fun (es, rest) => ((key, j) :: es, rest)
        | '\x7d' :: rest => some ([(key, j)], rest)
        | _ => none

end

/-- The JSON value that a text is. A step takes a character, or leads to one that does. -/
def parse? (s : String) : Option Json :=
  let cs := s.toList
  match readValue (2 * cs.length + 2) cs with
  | some (j, rest) => if (skipGap rest).isEmpty then some j else none
  | none => none

end PackScript.Json
