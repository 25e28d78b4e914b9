import PackScript.Compile.Invoke

namespace PackScript.Compile

/-!
# Asynchronous functions

An asynchronous function answers a promise, which its end or a `return` resolves. An `await`
splits the function: the rest of it becomes a unit of its own that waits for the promise. Only
the body of the function can be split, not a unit inside of it.
-/

variable (k : Lowering)

/-- The slot compound of a function. -/
def functionLiteral (address unit : String) : Compile Nbt := do
  return .slot .function (.string address) (some (functionId (← get).ns unit))

/-- A fresh slot that holds the tree. -/
def literalSlot (literal : Nbt) : Compile Slot := do
  let s ← freshSlot
  set (.slot s) (.literal literal)
  return s

/-- Hands the value of a slot to the caller. -/
def answerSlot (address value : Slot) : Compile Unit :=
  callLibrary .setVariable [("target", .valueOf address), ("source", .addressOf value)]

/-- Resolves a promise. -/
def resolvePromise (promise : Slot) (value : Lowered) : Compile Unit := do
  let value ← materialize value
  let channel ← freshChannel
  callLibrary .resolvePromise
    [("promise", .addressOf promise), ("value", .addressOf value),
     ("channel", .text channel.key)]

/-- Has a function wait for a promise. -/
def awaitPromise (promise listener : Slot) : Compile Unit := do
  let channel ← freshChannel
  callLibrary .awaitPromise
    [("promise", .addressOf promise), ("listener", .addressOf listener),
     ("channel", .text channel.key)]

/-- Creates the promise of an asynchronous function and answers it. -/
def beginAsync : Compile Unit := do
  let promise ← allocateInstance "Promise"
  modify fun s => { s with context.promise := some promise }
  callLibrary .initPromise [("promise", .addressOf promise)]
  match (← get).context.returnAddress with
  | some address => answerSlot address promise
  | none => return

/-- Resolves the promise of the present function, if it has one. -/
def resolveResult (value : Lowered) : Compile Unit := do
  match (← get).context.promise with
  | some promise => resolvePromise promise value
  | none => return

/-- Hands a value to the caller and leaves the function. -/
def emitReturn (value : Lowered) : Compile Unit := do
  let context := (← get).context
  match context.promise, context.returnAddress with
  | some promise, _ => resolvePromise promise value
  | none, some address => answerSlot address (← materialize value)
  | none, none => pure ()
  emit (.returnWith (← returnCode))

/-- Finishes the present unit and goes on in another one at the same level. -/
def continueIn (unit : String) : Compile Unit := do
  let finished := (← get).current
  let info : UnitInfo :=
    { finished.info with kind := .continuation, isAsync := true, scopes := finished.scopes }
  modify fun s => { s with current := ⟨unit, info, #[], 0, finished.scopes⟩ }
  addUnit finished.finish

/-- A slot that takes an entry of the channel, and is `undefined` without it. -/
def paramSlot (entry : String) : Compile Slot := do
  let s ← slotOf .undefined
  set (.slot s) (.param entry)
  return s

/-- An `await`. -/
def lowerAwait (argument : Expr) (span : Span) : Compile Lowered := do
  let s ← get
  if !s.context.isAsync then malformed "await is only valid in async functions" span
  else if s.current.depth > 0 then
    unsupported "await inside a nested block or expression" span
  else
    let awaited ← exprSlot k argument
    let continuation ← freshUnit
    let listener ← literalSlot (← functionLiteral "" continuation)
    awaitPromise awaited listener
    emit (.returnWith Instr.normal)
    continueIn continuation
    return .slot (← paramSlot "arg0")

end PackScript.Compile
