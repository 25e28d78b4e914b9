import PackScript.Text.Printable

namespace PackScript.Text

/-!
# Texts quoted for a message

A message shows a text in quotes, with the quote, the backslash and the usual controls escaped
by a letter and every character that cannot stand by itself written by its code point.
-/

/-- The code point of a character in braces, in lowercase hexadecimal. -/
def codeEscape (c : Char) : List Char :=
  ['\\', 'u', '\x7b'] ++ Nat.toDigits 16 c.toNat ++ ['\x7d']

/-- A character between the given quotes. -/
def escapeIn (quote : Char) (c : Char) : List Char :=
  match c with
  | '\x00' => ['\\', '0']
  | '\t' => ['\\', 't']
  | '\r' => ['\\', 'r']
  | '\n' => ['\\', 'n']
  | '\\' => ['\\', '\\']
  | c =>
    if c = quote then ['\\', c]
    else if isPrintable c then [c]
    else codeEscape c

/-- A text in double quotes. -/
def quoted (s : String) : String :=
  String.ofList ('"' :: (s.toList.flatMap (escapeIn '"') ++ ['"']))

/-- A character in single quotes. -/
def quotedChar (c : Char) : String :=
  String.ofList ('\'' :: (escapeIn '\'' c ++ ['\'']))

end PackScript.Text
