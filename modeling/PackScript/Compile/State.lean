import PackScript.Diagnostic
import PackScript.Scope
import PackScript.Tree.Basic

namespace PackScript

/-!
# State of the compiler

The compiler builds one unit at a time, the units around it waiting on a stack, and it is inside
of one function at a time, the functions around it waiting on a second stack. A step of the
compiler is a `Compile`: it may fail with a diagnostic, and the state at the failure is kept, so
that a caller decides what to take back.
-/

/-- How many slots, heap records, channels and generated units there are. That the counters have 32
    bits and start again from zero after them is left aside: a text of some gigabytes would be
    needed. -/
structure Names where
  slots : Nat := 0
  records : Nat := 0
  channels : Nat := 0
  units : Nat := 0
deriving Repr, DecidableEq, Inhabited

/-- A unit under construction. -/
structure Draft where
  name : String
  info : UnitInfo
  instrs : Array Instr
  /-- How many units deep it is inside the body of its function -/
  depth : Nat
  /-- Scopes that its code sees, outermost first -/
  scopes : List ScopeId
deriving Repr, Inhabited

namespace Draft

/-- A unit without instructions. -/
def start (name : String) (kind : UnitKind) (depth : Nat) (scopes : List ScopeId) : Draft :=
  ⟨name, ⟨kind, false, none, none, scopes⟩, #[], depth, scopes⟩

/-- A unit inside of another one, with a scope of its own if one is given. -/
def child (d : Draft) (name : String) (kind : UnitKind) (scope : Option ScopeId) : Draft :=
  let scopes := d.scopes ++ scope.toList
  ⟨name, { d.info with kind := kind, scopes := scopes }, #[], d.depth + 1, scopes⟩

/-- The finished unit. -/
def finish (d : Draft) : CodeUnit :=
  ⟨d.name, d.info, d.instrs.toList⟩

end Draft

/-- What the body of a function and all units inside of it share. -/
structure FunctionContext where
  kind : UnitKind
  isAsync : Bool
  /-- Slot of `this` -/
  that : Option Slot
  /-- Slot of `new.target` -/
  newTarget : Option Slot
  /-- Slot of the key of the slot that takes the result -/
  returnAddress : Option Slot
  /-- Slot of the promise that an asynchronous function answers -/
  promise : Option Slot
  /-- Slot of the parent class -/
  parentClass : Option Slot
  /-- Slot of the prototype of the parent class -/
  parentProto : Option Slot
  /-- Fields that are set after the parent class was called -/
  fields : List Field
  /-- Loops and switches around the code -/
  breakables : Nat
  /-- Loops around the code -/
  loops : Nat
  /-- The top-level function whose body this is -/
  declaration : Option String

/-- The context of code outside of all functions. -/
def FunctionContext.script : FunctionContext :=
  ⟨.script, false, none, none, none, none, none, none, [], 0, 0, none⟩

instance : Inhabited FunctionContext := ⟨.script⟩

/-- The state of the compiler. -/
structure Compiler where
  ns : String
  names : Names
  scopes : Scopes
  /-- Finished units, in the order in which they were finished -/
  units : Table CodeUnit
  /-- Top-level functions -/
  functions : Table Signature
  /-- The top-level functions that each of them calls by name -/
  calls : Table (List String)
  /-- Slots of variables declared in a loop, with the number of functions around it -/
  loopBindings : List (Slot × Nat)
  /-- Prototypes of classes, by the slot of the class -/
  classProtos : List (Slot × Record)
  /-- Names bound ahead of their declaration -/
  hoisted : List (ScopeId × String)
  /-- The unit under construction -/
  current : Draft
  /-- The units around it, innermost first -/
  parents : List Draft
  /-- The function under construction -/
  context : FunctionContext
  /-- The functions around it, innermost first -/
  outer : List FunctionContext
deriving Inhabited

/-- The unit of the prelude and the top-level statements. -/
def entryUnit : String := "__gen/init"

/-- The outermost scope. -/
def globalScope : ScopeId := 0

/-- The compiler at the start. -/
def Compiler.start (ns : String) : Compiler :=
  { ns := ns
    names := {}
    scopes := ⟨[[]]⟩
    units := []
    functions := []
    calls := []
    loopBindings := []
    classProtos := []
    hoisted := []
    current := .start entryUnit .script 0 [globalScope]
    parents := []
    context := .script
    outer := [] }

/-- A step of the compiler. -/
abbrev Compile := EStateM Diagnostic Compiler

namespace Compile

variable {α β : Type}

/-- Something without counterpart in the target. -/
def unsupported (construct : String) (span : Span) : Compile α :=
  throw (.unsupported construct span)

/-- A fault of the script. -/
def malformed (text : String) (span : Span) : Compile α :=
  throw (.malformed text span)

/-- Runs a step and closes what it was opened in, also when the step fails. -/
def bracket (body : Compile α) (close : Compile β) : Compile (α × β) := fun s =>
  match body s with
  | .ok a s => match close s with
    | .ok b s => .ok (a, b) s
    | .error d s => .error d s
  | .error d s => match close s with
    | .ok _ s => .error d s
    | .error d s => .error d s

/-- Runs a step and then a second one, also when the first fails. -/
def ensuring (body : Compile α) (close : Compile Unit) : Compile α := do
  return (← bracket body close).1

/-! ### Fresh names -/

/-- A slot that nothing else uses. -/
def freshSlot : Compile Slot :=
  modifyGet fun s => (⟨s.names.slots⟩, { s with names.slots := s.names.slots + 1 })

/-- A heap record that nothing else uses. -/
def freshRecord : Compile Record :=
  modifyGet fun s => (⟨s.names.records⟩, { s with names.records := s.names.records + 1 })

/-- A channel that nothing else uses. -/
def freshChannel : Compile Channel :=
  modifyGet fun s => (⟨s.names.channels⟩, { s with names.channels := s.names.channels + 1 })

/-- The name of a unit that nothing else uses. -/
def freshUnit : Compile String :=
  modifyGet fun s =>
    ("__gen/u" ++ toString s.names.units, { s with names.units := s.names.units + 1 })

end Compile

end PackScript
