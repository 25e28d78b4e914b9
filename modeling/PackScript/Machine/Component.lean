import PackScript.Json.Read
import PackScript.Json.Write
import PackScript.Table

namespace PackScript

/-!
# Texts that commands show

`tellraw` shows a text component, which is JSON, and `say` shows its argument.
-/

namespace Json

mutual

/-- The text of a component: a string is itself, an object shows its entry `text`, a list shows
    its items one after the other, and anything else is shown as it is written. -/
def componentText : Json → String
  | .string s => s
  | .object entries => entryText entries
  | .array items => itemsText items
  | .null => "null"
  | .bool b => String.ofList (boolChars b)
  | .int i => String.ofList (intChars i)
  | .float x => String.ofList (floatChars x)
  | .unreadable => ""

/-- The text of the last entry `text`. -/
def entryText : List (String × Json) → String
  | [] => ""
  | (key, j) :: rest =>
    if key = "text" && !rest.any (·.1 == "text") then componentText j else entryText rest

/-- The texts of items. -/
def itemsText : List Json → String
  | [] => ""
  | j :: rest => componentText j ++ itemsText rest

end

end Json

/-- A text without the quotes around it. -/
def unquoted (cs : List Char) : List Char :=
  match cs with
  | '"' :: rest => if rest.getLast? = some '"' then rest.dropLast else cs
  | _ => cs

/-- The text of a component. What is no JSON is shown as it is. -/
def componentText (component : String) : String :=
  match (Json.parse? component).filter (Json.isReadable Json.maxLevels) with
  | some j => j.componentText
  | none => String.ofList (unquoted component.toList)

/-- What follows a start of a text. -/
def afterStart? (start text : String) : Option (List Char) :=
  start.toList.isPrefixOf? text.toList

/-- The text that a command shows. -/
def shownText? (command : String) : Option String :=
  match afterStart? "tellraw " command with
  | some rest => some (componentText (String.ofList ((rest.dropWhile (· ≠ ' ')).drop 1)))
  | none => (afterStart? "say " command).map String.ofList

end PackScript
