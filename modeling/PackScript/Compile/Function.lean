import PackScript.Compile.Promise
import PackScript.Program.UnitName

namespace PackScript

/-!
# Functions

A function is a unit and a heap record. Its value is a slot compound with the key of the record
and the id of the unit. Slots of variables are the same for all calls of a function, so top-level
functions that call each other in a circle are refused, see `PackScript.Compile.Call`.
-/

/-- What a function does. -/
inductive FunctionBody where
  | stmts (body : List Stmt)
  /-- Answers the value of an expression -/
  | expr (value : Expr)
  /-- The constructor of a class that has none -/
  | defaultCtor

/-- The class that a constructor or method belongs to. -/
structure ClassScope where
  /-- Slot of the parent class -/
  parent : Option Slot
  /-- Slot of its prototype -/
  parentProto : Option Slot
  /-- Fields that the constructor sets -/
  fields : List Field

/-- A function to be compiled. -/
structure FunctionSpec where
  kind : UnitKind
  /-- The unit, unless a fresh one is to be taken -/
  unit : Option String
  /-- The heap record, unless a fresh one is to be written -/
  record : Option Record
  params : List Param
  body : FunctionBody
  isAsync : Bool
  generator : Bool
  cls : Option ClassScope
  span : Span

/-- A function written with a body in braces. -/
def Function.spec (fn : Function) (kind : UnitKind) (unit : Option String)
    (cls : Option ClassScope) (span : Span) : FunctionSpec :=
  ⟨kind, unit, none, fn.params, .stmts fn.body.body, fn.isAsync, fn.generator, cls, span⟩

/-- The heap record of an object with at most a prototype for its instances. -/
def emptyRecord (prototype : Option Nbt) : Nbt :=
  .compound [("props", .compound (prototype.toList.map fun p => ("prototype", p)))]

/-- A reference to the object of a heap record. -/
def objectSlot (r : Record) : Nbt :=
  .slot .object (.string r.key) none

namespace Compiler

/-- The top-level function of a unit. -/
def declarationOf (s : Compiler) (unit : String) : Option String :=
  (List.find? (fun (_, f) => f.unit == unit) s.functions).map (·.1)

/-- The present code is a top-level statement. -/
def atTopLevel (s : Compiler) : Bool :=
  s.context.kind = .script && s.parents.isEmpty && s.current.scopes.length = 1

end Compiler

namespace Compile

variable (k : Lowering)

/-! ### Heap records -/

/-- Writes an empty object to a fresh heap record. -/
def newObject : Compile Record := do
  let r ← freshRecord
  set (.record r []) (.literal (emptyRecord none))
  return r

/-- Writes the heap record of a function. A plain function has a prototype for its instances. -/
def functionRecord (kind : UnitKind) : Compile Record := do
  let r ← freshRecord
  let prototype ← (do
    if kind = .function then return some (objectSlot (← newObject)) else return none)
  set (.record r []) (.literal (emptyRecord prototype))
  return r

/-! ### Parameters -/

/-- The name of a parameter and its default value. -/
def paramParts (p : Param) : Compile (Ident × Option Expr) :=
  match p.pattern with
  | .ident id => return (id, none)
  | .withDefault (.ident id) value _ => return (id, some value)
  | .rest _ _ => unsupported "rest parameter" p.span
  | _ => unsupported "destructuring parameter" p.span

/-- Binds a parameter to an entry of the channel. -/
def bindParam (index : Nat) (p : Param) : Compile Unit := do
  let (id, value?) ← paramParts p
  let slot ← declare id.name .param id.span
  assign slot .undefined
  set (.slot slot) (.param (argumentName index))
  match value? with
  | none => return
  | some value =>
    let unit ← exprUnit k slot value
    invoke (kindIs slot .undefined) (.unit unit) none

/-- Binds parameters from an index on. -/
def bindParams (index : Nat) : List Param → Compile Unit
  | [] => return
  | p :: rest => do
    bindParam k index p
    bindParams (index + 1) rest

/-! ### Bodies -/

/-- Binds `this` and `new.target`. An arrow function has those of the code around it. -/
def bindThis (kind : UnitKind) : Compile Unit := do
  if kind = .arrow then
    modify fun s => { s with current.info.that := s.context.that.map (·.key) }
  else
    let that ← paramSlot "this"
    modify fun s =>
      { s with context.that := some that, current.info.that := some that.key }
    let target ← paramSlot "newtarget"
    modify fun s => { s with context.newTarget := some target }

/-- Binds the key of the slot that takes the result; it is empty when the caller wants none. -/
def bindReturnAddress : Compile Unit := do
  let address ← freshSlot
  set (.slot address) (.literal (.string ""))
  set (.slot address) (.param "return")
  modify fun s => { s with context.returnAddress := some address }

/-- The fields of the present constructor. -/
def ownFields : Compile (List Field) := do
  return (← get).context.fields

/-- Passes all arguments on to the parent class, if there is one, and sets the fields. -/
def defaultCtor : Compile Unit := do
  match (← get).context.parentClass with
  | none => return
  | some parent =>
    callParent parent ((List.range maxArguments).map fun i =>
      (argumentName i, .param (argumentName i)))
    setFields k (← ownFields)

/-- Compiles what a function does. -/
def functionBody : FunctionBody → Compile Unit
  | .stmts body => do
    hoistBody body
    (functionsFirst body).forM k.stmt
  | .expr value => do
    emitReturn (← k.expr value)
  | .defaultCtor => defaultCtor k

/-- Compiles a function into the present unit. -/
def functionUnit (spec : FunctionSpec) : Compile Unit := do
  bindThis spec.kind
  modify fun s =>
    { s with current.info.parentClass := s.context.parentProto.map (·.key) }
  bindReturnAddress
  if spec.isAsync then beginAsync
  bindParams k 0 spec.params
  if spec.kind = .ctor && (← get).context.parentClass.isNone then
    setFields k (← ownFields)
  functionBody k spec.body
  if spec.isAsync then resolveResult .undefined

/-- The context of a function. -/
def contextOf (spec : FunctionSpec) : Compile FunctionContext := do
  let s ← get
  let arrow := spec.kind = .arrow
  return {
    kind := spec.kind
    isAsync := spec.isAsync
    that := if arrow then s.context.that else none
    newTarget := if arrow then s.context.newTarget else none
    returnAddress := none
    promise := none
    parentClass := if arrow then s.context.parentClass else spec.cls.bind (·.parent)
    parentProto := if arrow then s.context.parentProto else spec.cls.bind (·.parentProto)
    fields := (spec.cls.map (·.fields)).getD []
    breakables := 0
    loops := 0
    declaration := spec.unit.bind s.declarationOf }

/-- Enters a function. -/
def enterFunction (d : Draft) (context : FunctionContext) : Compile Unit := do
  enterUnit d
  modify fun s => { s with context := context, outer := s.context :: s.outer }

/-- Leaves a function, whose last unit is finished. -/
def leaveFunction : Compile Unit := do
  match (← get).outer with
  | [] => throw (.invariant "no enclosing function" .origin)
  | context :: outer =>
    modify fun s => { s with context := context, outer := outer }
    let _ ← closeUnit

/-- Compiles a function to a unit of its own, and answers its slot compound. -/
def createFunction (spec : FunctionSpec) : Compile Nbt := do
  if spec.generator then unsupported "generator function" spec.span
  else if spec.params.length > maxArguments then
    unsupported ("function with more than " ++ toString maxArguments ++ " parameters") spec.span
  else
    let unit ← (match spec.unit with
      | some unit => pure unit
      | none => freshUnit)
    let record ← (match spec.record with
      | some record => pure record
      | none => functionRecord spec.kind)
    let literal ← functionLiteral record.key unit
    let scope ← createScope
    let d := Draft.start unit spec.kind 0 ((← get).current.scopes ++ [scope])
    enterFunction { d with info.isAsync := spec.isAsync } (← contextOf spec)
    ensuring (functionUnit k spec) leaveFunction
    return literal

/-- Compiles a function to a fresh slot that holds it. -/
def functionSlot (spec : FunctionSpec) : Compile Slot := do
  literalSlot (← createFunction k spec)

/-! ### Function expressions and declarations -/

/-- A function expression; its name is bound inside of it. -/
def lowerFunction (fn : Function) : Compile Lowered := do
  let spec := fn.spec .function none none fn.span
  match fn.id with
  | none => return .slot (← functionSlot k spec)
  | some id => inScope do
    let binding ← declare id.name .const_ id.span
    let value := .slot (← functionSlot k spec)
    assign binding value
    return value

/-- An arrow function. -/
def lowerArrow (params : List Param) (body : ArrowBody) (isAsync : Bool) (span : Span) :
    Compile Lowered := do
  let body := match body with
    | .block b => FunctionBody.stmts b.body
    | .expr e => FunctionBody.expr e
  return .slot (← functionSlot k
    ⟨.arrow, none, none, params, body, isAsync, false, none, span⟩)

/-- The names of parameters; a pattern has the name of its entry. -/
def paramNames (params : List Param) : List String :=
  params.mapIdx fun i p => match p.pattern with
    | .ident id => id.name
    | _ => argumentName i

/-- Keeps the signature of a top-level function, and answers its unit. -/
def registerFunction (id : Ident) (fn : Function) (binding : Slot) : Compile String := do
  if (← get).functions.has id.name then
    malformed ("Identifier '" ++ id.name ++ "' has already been declared") id.span
  else
    let unit := unitNameOf id.name
    let signature : Signature := ⟨unit, paramNames fn.params, fn.isAsync, binding⟩
    modify fun s => { s with functions := s.functions.put id.name signature }
    return unit

/-- A function declaration. -/
def declareFunction (id : Ident) (fn : Function) : Compile Unit := do
  let topLevel := (← get).atTopLevel
  let binding ← declare id.name .function id.span
  let unit ← (do
    if topLevel then return some (← registerFunction id fn binding) else return none)
  let literal ← createFunction k (fn.spec .function unit none fn.span)
  set (.slot binding) (.literal literal)

end Compile

end PackScript
