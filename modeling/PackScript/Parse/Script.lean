import PackScript.Parse.Statement

namespace PackScript

/-!
# Scripts

`Parse.nested` ties the rules of the grammar together: the parsers at one level hold those of the
level below. A rule takes a token before it goes one level down, so a text has no more levels
than bytes, and `parseScript` gives one level more than that.
-/

namespace Parse

/-- The parsers of parts that may nest the given number of levels deep. -/
def nested : Nat → Nested
  | 0 => .none
  | levels + 1 =>
    let p := nested levels
    { assignment := assignment p
      unary := unary p
      binary := binary p
      member := memberExpression p
      leftHandSide := leftHandSide p
      pattern := bindingPattern p
      statement := statement p }

/-- All statements up to the end of the text. -/
def script (levels : Nat) : Parse Script := do
  return ⟨← manyUntil Cursor.atEnd (statement (nested levels))⟩

end Parse

/-- The tree of a script, or what is wrong with the text. -/
def parseScript (source : String) : Except Diagnostic Script :=
  (Parse.script (source.utf8ByteSize + 1) (Cursor.ofText source)).map (·.1)

end PackScript
