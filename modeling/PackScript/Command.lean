import PackScript.Nbt.Snbt
import PackScript.Program.Basic

namespace PackScript

/-!
# Commands

Every instruction is one command of the target. The storages of a namespace are `ns:slots`,
`ns:heap` and `ns:channels`. A unit that takes parameters is called with its channel, and finds
the name of the channel in the macro argument `frame`; an entry that is missing there leaves what
it would be written to as it is.
-/

namespace Command

/-- The character needs no quotes in a path. -/
def isBareSegmentChar (c : Char) : Bool :=
  c.isAlphanum || c == '_' || c == '-' || c == '+'

/-- A key on a path, in quotes unless all its characters are bare. -/
def segment (s : String) : String :=
  if !s.isEmpty && s.toList.all isBareSegmentChar then s else Snbt.quote s

/-- The path of a place in its storage. -/
def path (p : Place) : String :=
  p.address.key ++ String.join (p.path.map fun s => "." ++ segment s)

variable (ns : String)

/-- The name of a storage. -/
def storage (s : Storage) : String :=
  functionId ns s.name

/-- A place with its storage. -/
def place (p : Place) : String :=
  "storage " ++ storage ns p.address.storage ++ " " ++ path p

/-- What a write takes. -/
def source : Source → String
  | .literal value => "value " ++ value.snbt
  | .copy p => "from " ++ place ns p
  | .param entry => "from storage " ++ storage ns .channels ++ " $(frame)." ++ segment entry

/-- The command has a macro argument. -/
def isMacro : Source → Bool
  | .param _ => true
  | _ => false

/-- A test: the compound that holds the place, filtered by the last key of its path. -/
def test (t : Test) : String :=
  let keys := t.place.fullPath.map segment
  (if t.negated then "unless" else "if") ++ " data storage " ++
    storage ns t.place.address.storage ++ " " ++ ".".intercalate keys.dropLast ++
    "\x7b" ++ keys.getLastD "" ++ ":" ++ t.value.snbt ++ "\x7d"

/-- A command under conditions and with a place for its result. -/
def executing (clauses : List String) (command : String) : String :=
  if clauses.isEmpty then command
  else "execute " ++ " ".intercalate clauses ++ " run " ++ command

/-- A command under a guard. -/
def guarded (guard : Guard) (command : String) : String :=
  executing (guard.map (test ns)) command

/-- Marks a command with a macro argument. -/
def marked (s : Source) (command : String) : String :=
  if isMacro s then "$" ++ command else command

/-- The channel that a unit is called with. -/
def withChannel : Option Channel → String
  | some c => " with storage " ++ storage ns .channels ++ " " ++ c.key
  | none => ""

/-- The place that takes a return code. -/
def storing : Option Place → List String
  | some p => ["store result " ++ place ns p ++ " int 1"]
  | none => []

/-- The return command. -/
def returning (code : Int32) : String :=
  "return " ++ toString code.toInt

/-- The command of an instruction. -/
def ofInstr : Instr → String
  | .set guard target s =>
    marked s (guarded ns guard ("data modify " ++ place ns target ++ " set " ++ source ns s))
  | .append target s => marked s ("data modify " ++ place ns target ++ " append " ++ source ns s)
  | .invoke guard callee channel store =>
    executing (guard.map (test ns) ++ storing ns store)
      ("function " ++ functionId ns callee.unitName ++ withChannel ns channel)
  | .returnIf guard code => guarded ns guard (returning code)
  | .returnWith code => returning code
  | .raw command => command

end Command

/-- The commands of a unit, each ending with a line feed. -/
def CodeUnit.commands (u : CodeUnit) (ns : String) : String :=
  String.join (u.instrs.map fun i => Command.ofInstr ns i ++ "\n")

end PackScript
