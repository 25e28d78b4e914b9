import PackScript.Text.Runs

namespace PackScript.Text

/-!
# Blanks

The Unicode property `White_Space`, and the trimming of it from both ends of a text.
-/

/-- Code points with the property `White_Space`. -/
def blankRuns : Runs :=
  [9, 5, 18, 1, 100, 1, 26, 1, 5599, 1, 2431, 11, 29, 2, 5, 1, 47, 1, 4000, 1]

/-- The character has the property `White_Space`. -/
def isBlank (c : Char) : Bool :=
  blankRuns.contains c

/-- The text without the blanks at its two ends. -/
def trimBlanks (cs : List Char) : List Char :=
  (((cs.dropWhile isBlank).reverse).dropWhile isBlank).reverse

end PackScript.Text
