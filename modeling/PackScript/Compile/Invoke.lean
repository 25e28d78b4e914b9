import PackScript.Compile.Member
import PackScript.Tree.Effect

namespace PackScript.Compile

/-!
# Calls

A call fills a channel with the arguments, `this`, `new.target` and the slot for the result, and
calls the unit of the function with it.
-/

variable (k : Lowering)

/-- The arguments of a call, as entries of a channel. Those that are read from their variable are
    copied when a later one may write it. -/
def argumentsFrom (index : Nat) : List Expr → Compile Entries
  | [] => return []
  | .spread _ span :: _ => unsupported "spread argument" span
  | e :: rest => do
    let value ← k.expr e
    let value ← (if e.isName && anyMayAssign rest then snapshot value else pure value)
    return (argumentName index, value.source) :: (← argumentsFrom (index + 1) rest)

/-- The arguments of a call. -/
def callArguments (es : List Expr) (span : Span) : Compile Entries :=
  if es.length > maxArguments then
    unsupported ("call with more than " ++ toString maxArguments ++ " arguments") span
  else argumentsFrom k 0 es

/-- A fresh slot for the result, and the entries with it. -/
def withResult (entries : Entries) : Compile (Slot × Entries) := do
  let result ← slotOf .undefined
  return (result, entries ++ [("return", .addressOf result)])

/-- Entries for a slot that may be missing. -/
def slotEntry (name : String) (s : Option Slot) : Entries :=
  s.toList.map fun s => (name, .valueOf s)

/-- Calls the function in a slot with filled entries. -/
def callThrough (callee : Slot) (entries : Entries) : Compile Unit := do
  let channel ← fillChannel entries
  callLibrary .callFunction [("function", .addressOf callee), ("channel", .text channel.key)]

/-- Calls the unit of a top-level function. -/
def callUnit (unit : String) (entries : Entries) : Compile Slot := do
  let (result, entries) ← withResult entries
  let channel ← fillChannel entries
  invoke .always (.unit unit) (some channel)
  return result

/-- Calls the function in a slot. -/
def callFunction (callee : Slot) (that : Option Slot) (entries : Entries) : Compile Slot := do
  let (result, entries) ← withResult entries
  callThrough callee (entries ++ slotEntry "this" that)
  return result

/-- Calls the parent class on the present object. -/
def callParent (parent : Slot) (entries : Entries) : Compile Unit := do
  let (_, entries) ← withResult entries
  let context := (← get).context
  callThrough parent
    (entries ++ slotEntry "this" context.that ++ slotEntry "newtarget" context.newTarget)

/-- Sets fields of the present object. -/
def setFields (fields : List Field) : Compile Unit := do
  match (← get).context.that with
  | none => return
  | some that => fields.forM fun f => do
    let name ← propertyName f.key
    let value ← materialize (← exprOrUndefined k f.value)
    setMember that (.known name) value

end PackScript.Compile
