import PackScript.Compile.Lowering

namespace PackScript

/-!
# Members of objects

Reading and writing of members goes through library routines, which follow the chain of
prototypes.
-/

/-- The name of a member, known or computed. -/
inductive MemberName where
  | known (name : String)
  | computed (s : Slot)
deriving Repr, Inhabited

namespace Compile

variable (k : Lowering)

/-- The name that the key of a member stands for. -/
def memberKey : MemberKey → Compile MemberName
  | .name id => return .known id.name
  | .index e => do
    match ← k.expr e with
    | .known value => return .known value.toText
    | .slot s => return .computed s

/-- Reads a member to a fresh slot. -/
def getMember (object : Slot) (name : MemberName) : Compile Slot := do
  let result ← freshSlot
  let (routine, property) := match name with
    | .known name => (Routine.getMember, Source.text name)
    | .computed s => (Routine.computedMember, Source.addressOf s)
  callLibrary routine
    [("object", .addressOf object), ("property", property), ("result", .addressOf result)]
  return result

/-- Writes a member. -/
def setMember (object : Slot) (name : MemberName) (value : Slot) : Compile Unit :=
  let key := match name with
    | .known name => ("property", Source.text name)
    | .computed s => ("key", Source.addressOf s)
  callLibrary .setMember [("object", .addressOf object), key, ("value", .addressOf value)]

/-- Reads a member from the prototype of the parent class. -/
def parentMember (name : String) (span : Span) : Compile Slot := do
  match (← get).context.parentProto with
  | none => malformed "'super' keyword unexpected here" span
  | some proto =>
    let result ← freshSlot
    callLibrary .prototypeMember
      [("prototype", .copy (.field proto "value")), ("property", .text name),
       ("result", .addressOf result)]
    return result

/-- The name of a member of the parent class. -/
def parentMemberName (key : MemberKey) (span : Span) : Compile String :=
  match key with
  | .name id => return id.name
  | .index (.literal (.string s) _) => return s
  | .index _ => unsupported "computed super property" span

/-- Creates a heap record at run time, and a reference to it. -/
def allocate (kind : Kind) (prototype : Option Source) : Compile Slot := do
  let result ← freshSlot
  callLibrary .allocate
    ([("result", .addressOf result), ("kind", .text kind.tag)] ++
      prototype.toList.map fun source => ("prototype", source))
  return result

/-- The prototype of the class that a name stands for. -/
def knownPrototype (name : String) : Compile (Option Record) := do
  let s ← get
  return (s.resolve name).bind fun binding => s.classProtos.lookup binding.slot

/-- Creates an object of the class that a name stands for, or without prototype if there is
    none. -/
def allocateInstance (name : String) : Compile Slot := do
  let prototype ← knownPrototype name
  allocate .object (prototype.map fun r => .text r.key)

/-- The value of a global variable, as a member of `globalThis`. -/
def globalMember (name : String) : Compile Lowered := do
  match (← get).globalBinding? name with
  | some binding => return .slot binding.slot
  | none => return .undefined

/-- The object of a member expression and the name of the member. -/
def memberParts (m : Member) : Compile (Slot × MemberName) := do
  let object ← exprSlot k m.object
  return (object, ← memberKey k m.key)

/-- Reads a member of the value of an expression. -/
def objectMember (m : Member) : Compile Lowered := do
  let (object, name) ← memberParts k m
  return .slot (← getMember object name)

/-- Reads a member. -/
def lowerMember (m : Member) : Compile Lowered := do
  if m.optional then unsupported "optional chaining" m.span
  else match m.object with
    | .super span => return .slot (← parentMember (← parentMemberName m.key span) span)
    | object => match (← get).isGlobalThis object, m.key with
      | true, .name id => globalMember id.name
      | _, _ => objectMember k m

/-- The name of a property. -/
def propertyName : PropertyKey → Compile String
  | .ident id => return id.name
  | .string s _ => return s
  | .number x _ => return numberText x
  | .computed e => unsupported "computed property key" e.span

end Compile

end PackScript
