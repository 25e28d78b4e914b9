import PackScript.Machine.Execute

namespace PackScript

/-!
# Use of the machine

What can be done with a machine from outside: run the entry unit, call a top-level function, let
the time pass, and look at variables.
-/

/-- The channel of calls from outside. -/
def hostChannel : String := "host"

/-- The slot for the result of calls from outside. -/
def hostResult : String := "host_result"

/-- The channel of scheduled functions. -/
def scheduleChannel : String := "sched"

namespace Run

/-- Runs the entry unit. -/
def entry : Run Unit := do
  let _ ← fromHost (← get).program.entry none

/-- The channel of a call with arguments. -/
def hostEntries (args : List Scalar) : List (String × Nbt) :=
  frame hostChannel ++ (args.mapIdx fun i a => (argumentName i, a.slot)) ++
    [("return", .string hostResult)]

/-- Calls a top-level function, and answers the slot it returned. -/
def callGlobal (name : String) (args : List Scalar) : Run Nbt := do
  match (← get).program.functions.find? name with
  | none => throw (.unknownUnit name)
  | some f =>
    write .channels [hostChannel] (.compound (hostEntries args))
    write .slots [hostResult] .undefinedSlot
    let _ ← fromHost f.unit (some hostChannel)
    slot hostResult

/-! ### Time -/

/-- Runs a scheduled function. -/
def runTask (t : Task) : Run Unit := do
  write .channels [scheduleChannel] (.compound (frame scheduleChannel))
  let _ ← invokeFunction fromHost t.function scheduleChannel

/-- Lets a tick pass and runs the functions that are due. -/
def passTick : Run Unit := do
  let m ← get
  let tick := m.tick + 1
  let (due, pending) := m.scheduled.partition (·.due ≤ tick)
  set { m with tick := tick, scheduled := pending }
  due.forM runTask

/-- Lets ticks pass. -/
def passTicks : Nat → Run Unit
  | 0 => return
  | n + 1 => do
    passTick
    passTicks n

/-- Lets ticks pass until nothing is scheduled, at most the given number. -/
def untilIdle : Nat → Run Unit
  | 0 => return
  | n + 1 => do
    if !(← get).scheduled.isEmpty then
      passTick
      untilIdle n

end Run

namespace Machine

/-- The slot of a global variable. -/
def global? (m : Machine) (name : String) : Option Nbt :=
  (m.program.globals.find? name).map fun s => m.slot s.key

/-- The value of a global variable that holds a scalar. -/
def globalScalar? (m : Machine) (name : String) : Option Scalar :=
  (m.global? name).bind fun slot => match Value.ofSlot slot with
    | .scalar s => some s
    | .reference _ _ => none

end Machine

end PackScript
