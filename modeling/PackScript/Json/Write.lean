import PackScript.Json.Basic
import PackScript.Decimal.Layout

namespace PackScript.Json

/-!
# Writing JSON

Lists and objects are written over several lines, two blanks deeper for each level; empty ones on
one line.
-/

/-- A code of four hexadecimal digits. -/
def codeChars (n : Nat) : List Char :=
  let digits := Nat.toDigits 16 n
  '\\' :: 'u' :: (zeros (4 - digits.length) ++ digits)

/-- A character inside of a string. -/
def escapeChar : Char → List Char
  | '"' => ['\\', '"']
  | '\\' => ['\\', '\\']
  | '\x08' => ['\\', 'b']
  | '\x0c' => ['\\', 'f']
  | '\n' => ['\\', 'n']
  | '\r' => ['\\', 'r']
  | '\t' => ['\\', 't']
  | c => if c.toNat < 0x20 then codeChars c.toNat else [c]

/-- A string in quotes. -/
def stringChars (s : String) : List Char :=
  '"' :: (s.toList.flatMap escapeChar ++ ['"'])

/-- An integer. -/
def intChars (i : Int) : List Char :=
  if i < 0 then '-' :: digitsOf i.natAbs else digitsOf i.natAbs

/-- A double. What is not finite has no number and is written `null`. -/
def floatChars (x : Float) : List Char :=
  if x.isFinite then (DecimalLayout.json.format x).toList else ['n', 'u', 'l', 'l']

/-- A truth value. -/
def boolChars (b : Bool) : List Char :=
  if b then ['t', 'r', 'u', 'e'] else ['f', 'a', 'l', 's', 'e']

/-- A new line, indented. -/
def newline (indent : Nat) : List Char :=
  '\n' :: List.replicate indent ' '

mutual

/-- A value whose first line is indented already. -/
def chars (indent : Nat) : Json → List Char
  | .null | .unreadable => ['n', 'u', 'l', 'l']
  | .bool b => boolChars b
  | .int i => intChars i
  | .float x => floatChars x
  | .string s => stringChars s
  | .array [] => ['[', ']']
  | .array (j :: rest) =>
    '[' :: (newline (indent + 2) ++ chars (indent + 2) j ++ itemsChars (indent + 2) rest ++
      newline indent ++ [']'])
  | .object [] => ['\x7b', '\x7d']
  | .object ((key, j) :: rest) =>
    '\x7b' :: (newline (indent + 2) ++ stringChars key ++ [':', ' '] ++ chars (indent + 2) j ++
      entriesChars (indent + 2) rest ++ newline indent ++ ['\x7d'])

/-- Items after the first one. -/
def itemsChars (indent : Nat) : List Json → List Char
  | [] => []
  | j :: rest => ',' :: (newline indent ++ chars indent j ++ itemsChars indent rest)

/-- Entries after the first one. -/
def entriesChars (indent : Nat) : List (String × Json) → List Char
  | [] => []
  | (key, j) :: rest =>
    ',' :: (newline indent ++ stringChars key ++ [':', ' '] ++ chars indent j ++
      entriesChars indent rest)

end

/-- The text of a value. -/
def pretty (j : Json) : String :=
  String.ofList (chars 0 j)

end PackScript.Json
