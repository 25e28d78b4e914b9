import PackScript.Compile.Function

namespace PackScript.Compile

/-!
# Object literals, array literals and classes

The records of object and array literals are created at run time. A class has two records, its
own and the prototype of its instances, which are written where the class is defined.
-/

variable (k : Lowering)

/-! ### Literals -/

/-- The value of an entry of an object literal. -/
def entryValue (value : Expr) (method : Bool) : Compile Lowered := do
  match value, method with
  | .function fn, true => return .slot (← functionSlot k (fn.spec .method none none fn.span))
  | value, _ => k.expr value

/-- Sets an entry of an object literal. -/
def setEntry (object : Slot) : Property → Compile Unit
  | .spread _ span => unsupported "spread in object literal" span
  | .entry key value kind _ method span => do
    if kind ≠ .method then unsupported "getter or setter in object literal" span
    else
      let name ← propertyName key
      let value ← materialize (← entryValue k value method)
      setMember object (.known name) value

/-- An object literal. -/
def lowerObject (properties : List Property) : Compile Lowered := do
  let object ← allocateInstance "Object"
  properties.forM (setEntry k object)
  return .slot object

/-- Sets the elements of an array literal from an index on. -/
def setElements (array : Slot) (index : Nat) : List (Option Expr) → Compile Unit
  | [] => return
  | some (.spread _ span) :: _ => unsupported "spread in array literal" span
  | e :: rest => do
    let value ← materialize (← exprOrUndefined k e)
    setMember array (.known (toString index)) value
    setElements array (index + 1) rest

/-- An array literal. -/
def lowerArray (elements : List (Option Expr)) : Compile Lowered := do
  let array ← allocate .array none
  setElements k array 0 elements
  return .slot array

/-! ### Classes -/

/-- The two records of a class and the unit of its constructor. -/
structure ClassParts where
  record : Record
  proto : Record
  unit : String

/-- Writes the records of a class. -/
def beginClass : Compile ClassParts := do
  let record ← freshRecord
  let proto ← freshRecord
  let unit ← freshUnit
  set (.record proto []) (.literal (emptyRecord none))
  set (.record record []) (.literal (emptyRecord (some (objectSlot proto))))
  return ⟨record, proto, unit⟩

/-- Binds the name of a class. -/
def bindClass (parts : ClassParts) (cls : Slot) (id : Ident) : Compile Unit := do
  let binding ← declare id.name .class_ id.span
  set (.slot binding) (.valueOf cls)
  modify fun s => { s with classProtos := (binding, parts.proto) :: s.classProtos }

/-- Makes a class inherit from its parent class: the slots of the parent and of its prototype. -/
def linkParent (parts : ClassParts) : Option Expr → Compile (Option Slot × Option Slot)
  | none => return (none, none)
  | some e => do
    let value ← k.expr e
    let parent ← freshSlot
    assign parent value
    let parentProto ← getMember parent (.known "prototype")
    callLibrary .setClassPrototype
      [("prototype", .text parts.proto.key), ("parent", .addressOf parent)]
    return (some parent, some parentProto)

/-- The constructor of a class; there may be at most one. -/
def ownCtor (found : Option (List Param × Block)) :
    List ClassMember → Compile (Option (List Param × Block))
  | [] => return found
  | .ctor params body span :: rest =>
    if found.isSome then malformed "A class may only have one constructor" span
    else ownCtor (some (params, body)) rest
  | _ :: rest => ownCtor found rest

/-- The fields of the instances of a class. -/
def instanceFields (members : List ClassMember) : List Field :=
  members.filterMap fun
    | .field f => if f.isStatic then none else some f
    | _ => none

/-- Compiles the constructor of a class. -/
def createCtor (parts : ClassParts) (scope : ClassScope) (ctor : Option (List Param × Block))
    (span : Span) : Compile Unit := do
  let (params, body) := match ctor with
    | some (params, body) => (params, FunctionBody.stmts body.body)
    | none => ([], FunctionBody.defaultCtor)
  let _ ← createFunction k
    ⟨.ctor, some parts.unit, some parts.record, params, body, false, false, some scope, span⟩

/-- Compiles a method or static field of a class. -/
def setClassMember (parts : ClassParts) (scope : ClassScope) : ClassMember → Compile Unit
  | .method key fn kind isStatic span => do
    if kind ≠ .method then unsupported "class getter or setter" span
    else
      let name ← propertyName key
      let literal ← createFunction k
        (fn.spec .method none (some { scope with fields := [] }) span)
      let owner := if isStatic then parts.record else parts.proto
      set (.record owner ["props", name]) (.literal literal)
  | .field f => do
    if f.isStatic then
      let name ← propertyName f.key
      let value ← exprOrUndefined k f.value
      set (.record parts.record ["props", name]) value.source
  | .ctor _ _ _ => return

/-- Compiles a class to a slot that holds it, its name being bound in the innermost scope. -/
def createClass (cls : ClassNode) : Compile Lowered := do
  let parts ← beginClass
  let slot ← literalSlot (← functionLiteral parts.record.key parts.unit)
  match cls.id with
  | some id => bindClass parts slot id
  | none => pure ()
  let (parent, parentProto) ← linkParent k parts cls.parent
  let ctor ← ownCtor none cls.members
  let scope : ClassScope := ⟨parent, parentProto, instanceFields cls.members⟩
  createCtor k parts scope ctor cls.span
  cls.members.forM (setClassMember k parts scope)
  return .slot slot

/-- A class expression; its name is bound inside of it. -/
def lowerClass (cls : ClassNode) : Compile Lowered :=
  if cls.id.isSome then inScope (createClass k cls) else createClass k cls

end PackScript.Compile
