import PackScript.Scalar

namespace PackScript

/-!
# Values at run time

A slot is a compound with the tag of a kind and a payload. `Value.ofSlot` reads any tree as the
slot it may be: what is missing or of the wrong type counts as the default of the kind.
-/

/-- What a slot holds: a scalar, or a reference to a heap record. -/
inductive Value where
  | scalar (value : Scalar)
  | reference (kind : Kind) (address : String)
deriving Repr, Inhabited

namespace Value

/-- The kind of a value. -/
def kind : Value → Kind
  | .scalar s => s.kind
  | .reference kind _ => kind

/-- The value of a kind with a payload. -/
def ofPayload (kind : Kind) (payload : Option Nbt) : Value :=
  match kind with
  | .undefined => .scalar .undefined
  | .null => .scalar .null
  | .boolean => .scalar (.boolean ((payload.bind Nbt.flag?).getD false))
  | .number => .scalar (.number ((payload.bind Nbt.number?).getD notANumber))
  | .string => .scalar (.string ((payload.bind Nbt.text?).getD ""))
  | .object | .array | .function => .reference kind ((payload.bind Nbt.text?).getD "")

/-- The value in a slot. -/
def ofSlot (slot : Nbt) : Value :=
  let kind := ((slot.get? "type").bind Nbt.text?).bind Kind.ofTag?
  ofPayload (kind.getD .undefined) (slot.get? "value")

end Value

end PackScript
