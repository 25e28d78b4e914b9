namespace PackScript

/-!
# Names of function units

The unit of a function is named after it, in the characters that the target allows in a name.
-/

/-- Hexadecimal digits of a number. -/
def hexDigits (n : Nat) : String :=
  String.ofList (Nat.toDigits 16 n)

/-- A character of a name in the characters of a unit name: `-` marks a capital letter, a point
    stands for `$`, and `-.` marks the code of any other character. -/
def unitNameChar (c : Char) : String :=
  if c.isLower || c.isDigit || c = '_' then c.toString
  else if c.isUpper then "-" ++ c.toLower.toString
  else if c = '$' then "."
  else "-." ++ hexDigits c.toNat

/-- The unit of a function declared at the top level. -/
def unitNameOf (identifier : String) : String :=
  String.join (identifier.toList.map unitNameChar)

/-- The path of the file of a unit in a pack. -/
def unitPath (ns unit : String) : String :=
  "data/" ++ ns ++ "/function/" ++ unit ++ ".mcfunction"

end PackScript
