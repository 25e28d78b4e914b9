import PackScript.Compile.State

namespace PackScript.Compile

/-!
# Instructions and units

Code goes to the end of the unit under construction. A branch, a loop or the right side of a
logical operator is a unit inside of it. Such a unit ends its caller by its return code:
`invokeRelaying` passes the codes on.
-/

variable {α : Type}

/-! ### Instructions -/

/-- Adds an instruction. -/
def emit (i : Instr) : Compile Unit :=
  modify fun s => { s with current.instrs := s.current.instrs.push i }

/-- Writes when the guard holds. -/
def setIf (guard : Guard) (target : Place) (source : Source) : Compile Unit :=
  emit (.set guard target source)

/-- Writes. -/
def set (target : Place) (source : Source) : Compile Unit :=
  setIf .always target source

/-- Writes `true` to the value of a boolean slot when the guard holds. -/
def raise (guard : Guard) (flag : Slot) : Compile Unit :=
  setIf guard (.field flag "value") (.literal (.bool true))

/-- Calls a unit that cannot end its caller. -/
def invoke (guard : Guard) (callee : Callee) (channel : Option Channel) : Compile Unit :=
  emit (.invoke guard callee channel none)

/-- The code that `return` has in the unit under construction. -/
def returnCode : Compile Int32 := do
  return if (← get).current.depth = 0 then Instr.normal else Instr.returnCode

/-- Ends the unit when the slot holds the code. -/
def relay (cell : Slot) (code answer : Int32) : Compile Unit :=
  emit (.returnIf (.when (.slot cell) (.int code)) answer)

/-- Calls a unit that may end its caller. Its return code goes to a slot of its own; a `break`
    ends this unit too unless this call is the loop or switch it belongs to, and a `return` ends
    it in any case. -/
def invokeRelaying (guard : Guard) (callee : Callee) (channel : Option Channel)
    (consumesBreak : Bool) : Compile Unit := do
  let cell ← freshSlot
  set (.slot cell) (.literal (.int Instr.normal))
  emit (.invoke guard callee channel (some (.slot cell)))
  let context := (← get).context
  if !consumesBreak && context.breakables > 0 then
    relay cell Instr.breakCode Instr.breakCode
  if context.kind ≠ .script then
    relay cell Instr.returnCode (← returnCode)

/-! ### Channels -/

/-- Entries of a channel. -/
abbrev Entries := List (String × Source)

/-- Empties a fresh channel and writes its entries. -/
def fillChannel (entries : Entries) : Compile Channel := do
  let channel ← freshChannel
  set (.channel channel) (.literal (.compound [("frame", .string channel.key)]))
  entries.forM fun (name, source) => set (.entry channel name) source
  return channel

/-- Calls a library routine. -/
def callLibrary (routine : Routine) (entries : Entries) : Compile Unit := do
  let channel ← fillChannel entries
  invoke .always (.library routine) (some channel)

/-! ### Units -/

/-- Keeps a finished unit. -/
def addUnit (u : CodeUnit) : Compile Unit :=
  modify fun s => { s with units := s.units.put u.name u }

/-- Adds a scope. -/
def createScope : Compile ScopeId :=
  modifyGet fun s =>
    let (id, scopes) := s.scopes.create
    (id, { s with scopes := scopes })

/-- Starts a unit; the present one waits. -/
def enterUnit (d : Draft) : Compile Unit :=
  modify fun s => { s with current := d, parents := s.current :: s.parents }

/-- Starts a unit inside of the present one. -/
def openChild (kind : UnitKind) (opensScope : Bool) : Compile Unit := do
  let name ← freshUnit
  let scope ← (do if opensScope then return some (← createScope) else return none)
  enterUnit ((← get).current.child name kind scope)

/-- Finishes the present unit and goes back to the one around it. -/
def closeUnit : Compile String := do
  let s ← get
  match s.parents with
  | [] => throw (.invariant "no enclosing unit" .origin)
  | parent :: parents =>
    modify fun s => { s with current := parent, parents := parents }
    addUnit s.current.finish
    return s.current.name

/-- Compiles into a unit inside of the present one, and answers its name. -/
def inChild (kind : UnitKind) (opensScope : Bool) (body : Compile Unit) : Compile String := do
  openChild kind opensScope
  return (← bracket body closeUnit).2

/-- Compiles with a further scope in the present unit. -/
def inScope (body : Compile α) : Compile α := do
  let scope ← createScope
  modify fun s => { s with current.scopes := s.current.scopes ++ [scope] }
  ensuring body (modify fun s => { s with current.scopes := s.current.scopes.dropLast })

end PackScript.Compile
