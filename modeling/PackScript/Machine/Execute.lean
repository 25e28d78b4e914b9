import PackScript.Machine.Library

namespace PackScript

/-!
# Execution

`Run.execute` runs a unit. Calls may be inside of each other up to a depth, which is what makes
every execution end.
-/

namespace Run

variable {α : Type}

/-- Calls a unit or routine. -/
def callee (call : Executor) (channel : Option String) : Callee → Run Int32
  | .unit name => call name channel
  | .library r => callRoutine call r channel

/-- Stores a return code. -/
def storeCode (store : Option Place) (code : Int32) : Run Unit :=
  match store with
  | some p => write p.address.storage p.fullPath (.int code)
  | none => pure ()

/-- Executes one instruction in a unit that was called with a channel. Answers the return code if
    the unit ends here. -/
def step (call : Executor) (channel : Option String) : Instr → Run (Option Int32)
  | .set guard target source => do
    let m ← get
    if m.holds guard then
      match m.take channel source with
      | some value => write target.address.storage target.fullPath value
      | none => pure ()
    return none
  | .append target source => do
    match (← get).take channel source with
    | some value => append target.address.storage target.fullPath value
    | none => pure ()
    return none
  | .invoke guard target args store => do
    if (← get).holds guard then
      let code ← callee call (args.map (·.key)) target
      storeCode store code
    return none
  | .returnIf guard code => do
    return if (← get).holds guard then some code else none
  | .returnWith code => return some code
  | .raw text => do
    modify (·.command text)
    return none

/-- Executes instructions up to one that ends the unit. -/
def steps (call : Executor) (channel : Option String) : List Instr → Run Int32
  | [] => return Instr.normal
  | i :: rest => do
    match ← step call channel i with
    | some code => return code
    | none => steps call channel rest

/-- Runs a step one call deeper, and comes back also when it fails. -/
def deeper (body : Run α) : Run α := fun m =>
  match body { m with depth := m.depth + 1 } with
  | .ok a m => .ok a { m with depth := m.depth - 1 }
  | .error e m => .error e { m with depth := m.depth - 1 }

/-- The unit of a name. -/
def findUnit (name : String) : Run CodeUnit := do
  match (← get).program.units.find? name with
  | some u => return u
  | none => throw (.unknownUnit name)

/-- Executes a unit with a channel. Calls may be inside of each other as deep as the first
    argument says. -/
def execute : Nat → Executor
  | 0, name, _ => do
    let _ ← findUnit name
    throw (.depthExceeded (← get).maxDepth)
  | levels + 1, name, channel => do
    let u ← findUnit name
    deeper (steps (execute levels) channel u.instrs)

/-- Executes a unit from outside of all units. -/
def fromHost : Executor := fun name channel => do
  execute (← get).maxDepth name channel

end Run

end PackScript
