import PackScript.Nbt.Basic
import PackScript.Decimal.Layout

namespace PackScript

/-!
# Trees as command text

The commands of the target write a storage tree as text: flags `1b` and `0b`, integers, doubles
with the suffix `d`, quoted strings, lists in brackets and compounds in braces.
-/

namespace Snbt

/-- A character inside a quoted text. Quote, backslash and line feed are escaped. -/
def escapeChar : Char → List Char
  | '"' => ['\\', '"']
  | '\\' => ['\\', '\\']
  | '\n' => ['\\', 'n']
  | c => [c]

/-- A text in quotes. -/
def quoteChars (cs : List Char) : List Char :=
  '"' :: (cs.flatMap escapeChar ++ ['"'])

/-- A text in quotes. -/
def quote (s : String) : String :=
  String.ofList (quoteChars s.toList)

/-- The character needs no quotes in a key. -/
def isBareKeyChar (c : Char) : Bool :=
  c.isAlphanum || c == '_' || c == '-' || c == '.' || c == '+'

/-- A key of a compound, in quotes unless all its characters are bare. -/
def keyChars (cs : List Char) : List Char :=
  if !cs.isEmpty && cs.all isBareKeyChar then cs else quoteChars cs

/-- A key of a compound. -/
def key (s : String) : String :=
  String.ofList (keyChars s.toList)

/-- A double with its suffix. What is not finite has no literal and is written as zero. -/
def doubleChars (x : Float) : List Char :=
  if x.isFinite then (DecimalLayout.storage.format x).toList ++ ['d'] else ['0', '.', '0', 'd']

mutual

/-- Text of a tree. -/
def chars : Nbt → List Char
  | .bool b => [if b then '1' else '0', 'b']
  | .int i => (toString i.toInt).toList
  | .double x => doubleChars x
  | .string s => quoteChars s.toList
  | .list [] => ['[', ']']
  | .list (item :: items) => '[' :: (chars item ++ itemsChars items ++ [']'])
  | .compound [] => ['\x7b', '\x7d']
  | .compound ((k, v) :: entries) =>
    '\x7b' :: (keyChars k.toList ++ ':' :: chars v ++ entriesChars entries ++ ['\x7d'])

/-- Text of the items after the first, each with its comma. -/
def itemsChars : List Nbt → List Char
  | [] => []
  | item :: items => ',' :: (chars item ++ itemsChars items)

/-- Text of the entries after the first, each with its comma. -/
def entriesChars : List (String × Nbt) → List Char
  | [] => []
  | (k, v) :: entries => ',' :: (keyChars k.toList ++ ':' :: chars v ++ entriesChars entries)

end

end Snbt

/-- Text of a tree as commands write it. -/
def Nbt.snbt (node : Nbt) : String :=
  String.ofList (Snbt.chars node)

end PackScript
