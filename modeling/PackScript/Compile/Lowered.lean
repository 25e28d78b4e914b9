import PackScript.Compile.Emit

namespace PackScript

/-!
# Lowered values

The result of compiling an expression: a scalar that is known, for which no code was needed, or
the slot that the emitted code writes.
-/

/-- The result of compiling an expression. -/
inductive Lowered where
  | known (value : Scalar)
  | slot (s : Slot)
deriving Repr, Inhabited

/-- What is known of the truth of a value. -/
inductive Truth where
  | known (value : Bool)
  /-- A boolean slot -/
  | flag (s : Slot)
deriving Repr, Inhabited

/-- The value `undefined`. -/
def Lowered.undefined : Lowered :=
  .known .undefined

/-- What a write takes to copy the value. -/
def Lowered.source : Lowered → Source
  | .known value => .literal value.slot
  | .slot s => .valueOf s

/-- The slot holds a value of the kind. -/
def kindIs (s : Slot) (kind : Kind) : Guard :=
  .when (.field s "type") (.string kind.tag)

/-- The boolean slot is true. -/
def isTrue (flag : Slot) : Guard :=
  .when (.field flag "value") (.bool true)

/-- The boolean slot is false. -/
def isFalse (flag : Slot) : Guard :=
  .when (.field flag "value") (.bool false)

namespace Compile

/-- Writes a value to a slot, unless it is there. -/
def assign (target : Slot) (value : Lowered) : Compile Unit :=
  match value with
  | .slot s => if s = target then pure () else set (.slot target) (.valueOf s)
  | .known c => set (.slot target) (.literal c.slot)

/-- A slot that holds the value. -/
def materialize : Lowered → Compile Slot
  | .slot s => return s
  | .known value => do
    let s ← freshSlot
    set (.slot s) (.literal value.slot)
    return s

/-- A fresh slot that holds the scalar. -/
def slotOf (value : Scalar) : Compile Slot :=
  materialize (.known value)

/-- A copy of the value, which later writes to its slot do not change. -/
def snapshot : Lowered → Compile Lowered
  | .slot s => do
    let copy ← freshSlot
    set (.slot copy) (.valueOf s)
    return .slot copy
  | value => return value

/-- The conditions under which a slot holds a value that counts as true. -/
def truthGuards (s : Slot) : List Guard :=
  let payload := Place.field s "value"
  [(kindIs s .boolean).and payload (.bool true),
   ((kindIs s .number).andNot payload (.double 0.0)).andNot payload (.double notANumber),
   (kindIs s .string).andNot payload (.string ""),
   kindIs s .object,
   kindIs s .array,
   kindIs s .function]

/-- A boolean slot that tells whether the value in a slot counts as true. -/
def truthFlag (s : Slot) : Compile Slot := do
  let flag ← slotOf (.boolean false)
  (truthGuards s).forM fun guard => raise guard flag
  return flag

/-- The truth of a value. -/
def truth : Lowered → Compile Truth
  | .known value => return .known value.truthy
  | .slot s => return .flag (← truthFlag s)

end Compile

end PackScript
