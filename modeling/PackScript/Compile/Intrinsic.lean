import PackScript.Compile.Promise

namespace PackScript

/-!
# Built-in operations

Calls of these names are compiled in place, unless the script binds the name. The prelude is
written with them.
-/

/-- A built-in operation. -/
inductive Intrinsic where
  /-- Runs a command -/
  | run
  /-- Joins two strings -/
  | singleQuoteConcat
  /-- The storage address of the record of an object -/
  | resolveObject
  /-- The storage address of the slot of a variable -/
  | resolveVariable
  /-- The id of a function -/
  | callableFunction
  | resolvePromise
  | initPromise
  | thenPromise
  /-- Runs a function some ticks later -/
  | schedule
  /-- A function with a fixed `this` -/
  | bind
deriving Repr, DecidableEq, Inhabited

namespace Intrinsic

/-- All built-in operations. -/
def all : List Intrinsic :=
  [.run, .singleQuoteConcat, .resolveObject, .resolveVariable, .callableFunction,
   .resolvePromise, .initPromise, .thenPromise, .schedule, .bind]

/-- The name of an operation. -/
def name : Intrinsic → String
  | .run => "__run"
  | .singleQuoteConcat => "__singleQuoteConcat"
  | .resolveObject => "__resolveObject"
  | .resolveVariable => "__resolveVariable"
  | .callableFunction => "__callableFunction"
  | .resolvePromise => "__resolvePromise"
  | .initPromise => "__initPromise"
  | .thenPromise => "__thenPromise"
  | .schedule => "__schedule"
  | .bind => "__bind"

/-- The number of arguments of an operation. -/
def arity : Intrinsic → Nat
  | .run | .resolveObject | .resolveVariable | .callableFunction | .initPromise => 1
  | .singleQuoteConcat | .resolvePromise | .thenPromise | .schedule | .bind => 2

/-- The operation of a name. -/
def ofName? (name : String) : Option Intrinsic :=
  all.find? (·.name == name)

end Intrinsic

namespace Compile

variable (k : Lowering)

/-- The slot of an argument that must not be known. -/
def runtimeSlot (callee : Ident) : Lowered → Compile Slot
  | .slot s => return s
  | .known _ => unsupported (callee.name ++ " on a constant") callee.span

/-- Joins two strings. -/
def concat (left right : Lowered) : Compile Lowered := do
  match left, right with
  | .known a, .known b => return .known (.string (a.toText ++ b.toText))
  | left, right =>
    let left ← materialize left
    let right ← materialize right
    let result ← freshSlot
    callLibrary .singleQuoteConcat
      [("left", .addressOf left), ("right", .addressOf right), ("result", .addressOf result)]
    return .slot result

/-- A string slot with a field of another slot. -/
def fieldText (s : Slot) (name : String) : Compile Slot := do
  let result ← slotOf (.string "")
  set (.field result "value") (.copy (.field s name))
  return result

/-- The storage of the present namespace. -/
def storageName (storage : Storage) : Compile String := do
  return functionId (← get).ns storage.name

/-- Runs a command. -/
def runCommand : Lowered → Compile Unit
  | .known command => emit (.raw command.toText)
  | .slot s => callLibrary .run [("command", .addressOf s)]

/-- A built-in operation on its arguments. -/
def applyIntrinsic (op : Intrinsic) (callee : Ident) (first second : Lowered) :
    Compile Lowered := do
  match op with
  | .run =>
    runCommand first
    return .undefined
  | .singleQuoteConcat => concat first second
  | .resolveObject =>
    let key ← fieldText (← runtimeSlot callee first) "value"
    let heap := (← storageName .heap) ++ " "
    concat (.known (.string heap)) (.slot key)
  | .resolveVariable =>
    let variable_ ← runtimeSlot callee first
    return .known (.string ((← storageName .slots) ++ " " ++ variable_.key))
  | .callableFunction => return .slot (← fieldText (← runtimeSlot callee first) "function")
  | .resolvePromise =>
    resolvePromise (← runtimeSlot callee first) second
    return .undefined
  | .initPromise =>
    callLibrary .initPromise [("promise", .addressOf (← runtimeSlot callee first))]
    return .undefined
  | .thenPromise =>
    let promise ← runtimeSlot callee first
    awaitPromise promise (← materialize second)
    return .undefined
  | .schedule =>
    let function ← materialize first
    let ticks ← materialize second
    callLibrary .schedule [("function", .addressOf function), ("ticks", .addressOf ticks)]
    return .undefined
  | .bind =>
    let function ← materialize first
    let that ← materialize second
    let result ← freshSlot
    callLibrary .bindFunction
      [("function", .addressOf function), ("that", .addressOf that),
       ("result", .addressOf result)]
    return .slot result

/-- The operation that a call of a name is, unless the name is bound. -/
def intrinsic? (callee : Ident) : Compile (Option Intrinsic) := do
  if (← resolve callee.name).isSome then return none else return Intrinsic.ofName? callee.name

/-- A call of a built-in operation. -/
def callIntrinsic (op : Intrinsic) (callee : Ident) (es : List Expr) : Compile Lowered := do
  if es.length ≠ op.arity then
    malformed (op.name ++ " expects " ++ toString op.arity ++ " argument(s), got " ++
      toString es.length) callee.span
  else
    let values ← es.mapM k.expr
    applyIntrinsic op callee (values.headD .undefined) (values.tail.headD .undefined)

end Compile

end PackScript
