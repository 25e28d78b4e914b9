import PackScript.Machine.Heap

namespace PackScript

/-!
# Library routines

What the routines do that compiled code calls. They take their arguments from the channel they
are called with: slots and records are given by their keys, functions by their ids. Routines that
call functions take the executor of units as `call`.
-/

/-- Executes a unit with a channel. -/
abbrev Executor := String → Option String → Run Int32

/-- The arguments of a routine: the channel, and what it held when the routine was called. -/
structure Args where
  channel : String
  entries : Nbt

/-- An argument that is a string. -/
def Args.text? (a : Args) (key : String) : Option String :=
  (a.entries.get? key).bind Nbt.text?

/-- A channel that holds its own key only. -/
def frame (channel : String) : List (String × Nbt) :=
  [("frame", .string channel)]

/-- The state of a promise. -/
def promiseState (listeners : List Nbt) (resolved : Bool) (value : Nbt) : Nbt :=
  .compound [("listeners", .list listeners), ("resolved", .bool resolved), ("value", value)]

/-- The state of a promise that waits. -/
def pendingPromise : Nbt :=
  promiseState [] false .undefinedSlot

/-- The promise is resolved. -/
def isResolved (state : Nbt) : Bool :=
  (state.get? "resolved").bind Nbt.flag? == some true

/-- The delay of a scheduled function: at least one tick, parts of a tick count whole. -/
def delayTicks (x : Float) : UInt64 :=
  if x.isFinite && x > 1.0 then max x.ceil.toUInt64 1 else 1

/-- Loops over an array end after this many rounds. -/
def maxRounds : Nat := 1 <<< 32

/-- Two values are equal. References are equal to themselves only; one and a scalar are compared
    by the scalar that the reference stands for, unless the comparison is strict. -/
def Machine.equalValues (m : Machine) (strict : Bool) : Value → Value → Bool
  | .reference a x, .reference b y => a = b && x = y
  | .scalar a, .scalar b => if strict then a.strictEquals b else a.looseEquals b
  | .reference k x, .scalar b =>
    !strict && !b.isNullish && (m.scalar (.reference k x)).looseEquals b
  | .scalar a, .reference k y =>
    !strict && !a.isNullish && (m.scalar (.reference k y)).looseEquals a

namespace Run

/-! ### Arguments -/

/-- An argument that must be a string. -/
def argument (a : Args) (key : String) : Run String :=
  match a.text? key with
  | some s => return s
  | none => throw (.storage (a.channel ++ "." ++ key) .missingArgument)

/-- The slot whose key is an argument. -/
def slotArgument (a : Args) (key : String) : Run Nbt := do
  slot (← argument a key)

/-- The value in the slot whose key is an argument. -/
def valueArgument (a : Args) (key : String) : Run Value := do
  return .ofSlot (← slotArgument a key)

/-- The scalar that the value of an argument stands for. -/
def scalarArgument (a : Args) (key : String) : Run Scalar := do
  let value ← valueArgument a key
  return (← get).scalar value

/-- The operator that an argument is. -/
def operatorArgument (a : Args) : Run BinaryOp := do
  let text ← argument a "operation"
  match BinaryOp.ofText? text with
  | some op => return op
  | none => throw (.storage (a.channel ++ ".operation") (.unknownOperator text))

/-- Writes the result of a routine. -/
def answer (a : Args) (value : Nbt) : Run Unit := do
  setSlot (← argument a "result") value

/-! ### Operators -/

/-- An operator on two scalars. -/
def binaryRoutine (a : Args) (f : Scalar → Scalar → Scalar) : Run Unit := do
  let left ← valueArgument a "left"
  let right ← valueArgument a "right"
  let m ← get
  answer a (f (m.scalar left) (m.scalar right)).slot

/-- An operator that an argument names. -/
def operatorRoutine (a : Args) : Run Unit := do
  let op ← operatorArgument a
  binaryRoutine a fun l r => (Scalar.binary op l r).getD .undefined

/-- A comparison for equality. -/
def equalsRoutine (a : Args) : Run Unit := do
  let op ← operatorArgument a
  let left ← valueArgument a "left"
  let right ← valueArgument a "right"
  let strict := op = .strictEq || op = .strictNotEq
  let negated := op = .notEq || op = .strictNotEq
  let equal := (← get).equalValues strict left right
  answer a (Scalar.boolean (equal != negated)).slot

/-- The number that a value stands for. -/
def toNumberRoutine (a : Args) : Run Unit := do
  let value ← scalarArgument a "value"
  answer a (Scalar.number value.toNumber).slot

/-! ### Members -/

/-- Reads a member of a known name. -/
def getMemberRoutine (a : Args) : Run Unit := do
  let object ← valueArgument a "object"
  let property ← argument a "property"
  answer a ((← get).member object property)

/-- Reads a member of a computed name. -/
def computedMemberRoutine (a : Args) : Run Unit := do
  let object ← valueArgument a "object"
  let property ← scalarArgument a "property"
  answer a ((← get).member object property.toText)

/-- Reads a property starting with a prototype. -/
def prototypeMemberRoutine (a : Args) : Run Unit := do
  match a.text? "prototype" with
  | some prototype =>
    let property ← argument a "property"
    answer a ((← get).lookup prototype property)
  | none => answer a .undefinedSlot

/-- The name of the member that is written. -/
def writtenProperty (a : Args) : Run String := do
  match a.text? "property" with
  | some property => return property
  | none => return (← scalarArgument a "key").toText

/-- Writes an element of an array, if the name is that of one. -/
def setElement (address property : String) (value : Nbt) : Run Unit := do
  match elementIndex? property with
  | some index =>
    write .heap [address, "elements"]
      (.list (putElement ((← get).elements address) index value))
  | none => return

/-- Writes a member. A write to a scalar does nothing. -/
def setMemberRoutine (a : Args) : Run Unit := do
  let object ← valueArgument a "object"
  let property ← writtenProperty a
  let value ← slotArgument a "value"
  match object with
  | .reference .array address => setElement address property value
  | .reference _ address =>
    if !address.isEmpty then write .heap [address, "props", property] value
  | .scalar _ => return

/-! ### Records -/

/-- The key of the next heap record. -/
def freshRecord : Run String :=
  modifyGet fun m =>
    ((Record.mk m.nextRecord.toNat).key, { m with nextRecord := m.nextRecord + 1 })

/-- The record of a new array or object. -/
def newRecord (kind : Kind) (prototype : Option String) : Nbt :=
  if kind = .array then
    .compound [("type", .string Kind.array.tag), ("elements", .list [])]
  else
    .compound ([("props", .empty)] ++ prototype.toList.map fun p => ("prototype", .string p))

/-- Creates an array or object. -/
def allocateRoutine (a : Args) : Run Unit := do
  let kind := ((a.text? "kind").bind Kind.ofTag?).getD .object
  let address ← freshRecord
  write .heap [address] (newRecord kind (a.text? "prototype"))
  answer a (.slot kind (.string address) none)

/-- Makes the prototype of a class follow that of its parent class. -/
def setClassPrototypeRoutine (a : Args) : Run Unit := do
  let prototype ← argument a "prototype"
  match ← valueArgument a "parent" with
  | .scalar _ => return
  | .reference _ address =>
    let parent := (((← get).record? address).bind
      (·.getPath ["props", "prototype", "value"])).bind Nbt.text?
    match parent with
    | some parent => write .heap [prototype, "prototype"] (.string parent)
    | none => return

/-- Creates a function with a fixed `this`. -/
def bindFunctionRoutine (a : Args) : Run Unit := do
  let callee ← slotArgument a "function"
  let that ← slotArgument a "that"
  let address ← freshRecord
  write .heap [address] (.compound [("props", .empty), ("bound", that)])
  answer a (.slot .function (.string address) ((callee.get? "function").bind Nbt.text?))

/-- Copies a slot, unless the key of the target is empty. -/
def setVariableRoutine (a : Args) : Run Unit := do
  let target ← argument a "target"
  if !target.isEmpty then
    setSlot target (← slotArgument a "source")

/-! ### Functions -/

/-- The unit of a function id. -/
def unitOf (function : String) : Run String := do
  match afterStart? ((← get).program.ns ++ ":") function with
  | some unit => return String.ofList unit
  | none => throw (.unknownUnit function)

/-- The `this` that is fixed in a function value. -/
def boundThis (callee : Nbt) : Run (Option Nbt) := do
  match Value.ofSlot callee with
  | .reference .function address =>
    return ((← get).record? address).bind (·.get? "bound")
  | _ => return none

/-- Calls a function value with a filled channel. What is no function does nothing. -/
def invokeFunction (call : Executor) (callee : Nbt) (channel : String) : Run Int32 := do
  match ((callee.get? "function").bind Nbt.text?).filter (!·.isEmpty) with
  | none => return Instr.normal
  | some function =>
    let unit ← unitOf function
    match ← boundThis callee with
    | some bound => write .channels [channel, "this"] bound
    | none => pure ()
    call unit (some channel)

/-- Calls a function value in a slot. -/
def callFunctionRoutine (call : Executor) (a : Args) : Run Int32 := do
  let callee ← slotArgument a "function"
  invokeFunction call callee (← argument a "channel")

/-- Calls the unit of a loop for the elements of an array from an index on. `break` ends the
    loop, and `return` is passed on. -/
def eachElement (call : Executor) (address unit channel : String) : Nat → Nat → Run Int32
  | 0, _ => throw .endlessLoop
  | rounds + 1, index => do
    match ((← get).elements address)[index]? with
    | none => return Instr.normal
    | some element =>
      write .channels [channel] (.compound (frame channel ++
        [("arg0", element), ("arg1", (Scalar.number (doubleOfNat index)).slot)]))
      let code ← call unit (some channel)
      if code = Instr.breakCode then return Instr.normal
      else if code = Instr.returnCode then return code
      else eachElement call address unit channel rounds (index + 1)

/-- A loop over an array. -/
def loopArrayRoutine (call : Executor) (a : Args) : Run Int32 := do
  match ← valueArgument a "array" with
  | .reference .array address =>
    let unit ← unitOf (← argument a "function")
    let channel ← argument a "channel"
    eachElement call address unit channel maxRounds 0
  | _ => return Instr.normal

/-! ### Promises -/

/-- The state of the promise in a record. -/
def promise? (address : String) : Run (Option Nbt) := do
  return ((← get).record? address).bind (·.get? "promise")

/-- Calls a function that waited for a promise. -/
def callListener (call : Executor) (channel : String) (value listener : Nbt) : Run Unit := do
  write .channels [channel] (.compound (frame channel ++ [("arg0", value)]))
  let _ ← invokeFunction call listener channel

/-- Makes an object a promise. -/
def initPromiseRoutine (a : Args) : Run Unit := do
  match ← valueArgument a "promise" with
  | .reference _ address => write .heap [address, "promise"] pendingPromise
  | .scalar _ => return

/-- Resolves a promise, the first time, and calls those who wait. -/
def resolvePromiseRoutine (call : Executor) (a : Args) : Run Unit := do
  match ← valueArgument a "promise" with
  | .scalar _ => return
  | .reference _ address =>
    let state := (← promise? address).getD pendingPromise
    if !isResolved state then
      let value ← slotArgument a "value"
      let listeners := ((state.get? "listeners").bind Nbt.items?).getD []
      write .heap [address, "promise"] (promiseState [] true value)
      let channel ← argument a "channel"
      listeners.forM (callListener call channel value)

/-- The record and state of the promise that a value is. -/
def awaitedPromise (awaited : Nbt) : Run (Option (String × Nbt)) := do
  match Value.ofSlot awaited with
  | .reference .object address => return (← promise? address).map (address, ·)
  | _ => return none

/-- Calls a function when a promise is resolved: at once if it is, or if the value is no
    promise. -/
def awaitPromiseRoutine (call : Executor) (a : Args) : Run Unit := do
  let awaited ← slotArgument a "promise"
  let listener ← slotArgument a "listener"
  let channel ← argument a "channel"
  match ← awaitedPromise awaited with
  | none => callListener call channel awaited listener
  | some (address, state) =>
    if isResolved state then
      callListener call channel ((state.get? "value").getD .undefinedSlot) listener
    else append .heap [address, "promise", "listeners"] listener

/-! ### Commands and time -/

/-- Runs a command. -/
def runRoutine (a : Args) : Run Unit := do
  let text ← scalarArgument a "command"
  modify (·.command text.toText)

/-- Has a function run later. What is no function is not scheduled. -/
def scheduleRoutine (a : Args) : Run Unit := do
  let function ← slotArgument a "function"
  let ticks ← scalarArgument a "ticks"
  match (function.get? "function").bind Nbt.text? with
  | none => return
  | some id =>
    let _ ← unitOf id
    let due := (← get).tick + delayTicks ticks.toNumber
    modify fun m => { m with scheduled := m.scheduled ++ [⟨due, function⟩] }

/-! ### All routines -/

/-- A routine that answers the normal code. -/
def normally (r : Run Unit) : Run Int32 := do
  r
  return Instr.normal

/-- What a routine does. -/
def routine (call : Executor) (a : Args) : Routine → Run Int32
  | .add => normally (binaryRoutine a Scalar.add)
  | .subtract => normally (binaryRoutine a (Scalar.arithmetic (· - ·)))
  | .mathOperation | .numberCompare => normally (operatorRoutine a)
  | .equals => normally (equalsRoutine a)
  | .toNumber => normally (toNumberRoutine a)
  | .singleQuoteConcat =>
    normally (binaryRoutine a fun l r => .string (l.toText ++ r.toText))
  | .getMember => normally (getMemberRoutine a)
  | .computedMember => normally (computedMemberRoutine a)
  | .prototypeMember => normally (prototypeMemberRoutine a)
  | .setMember => normally (setMemberRoutine a)
  | .allocate => normally (allocateRoutine a)
  | .setClassPrototype => normally (setClassPrototypeRoutine a)
  | .loopArray => loopArrayRoutine call a
  | .callFunction => callFunctionRoutine call a
  | .bindFunction => normally (bindFunctionRoutine a)
  | .setVariable => normally (setVariableRoutine a)
  | .initPromise => normally (initPromiseRoutine a)
  | .resolvePromise => normally (resolvePromiseRoutine call a)
  | .awaitPromise => normally (awaitPromiseRoutine call a)
  | .run => normally (runRoutine a)
  | .schedule => normally (scheduleRoutine a)

/-- Calls a routine with a channel. -/
def callRoutine (call : Executor) (r : Routine) (channel : Option String) : Run Int32 := do
  let channel := channel.getD ""
  let entries := ((← get).channels.get? channel).getD .empty
  routine call ⟨channel, entries⟩ r

end Run

end PackScript
