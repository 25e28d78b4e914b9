import PackScript.Compile.Lowering
import PackScript.Tree.Effect

namespace PackScript

/-!
# Operators

Operators on known values are computed at once; on slots they call library routines. Both go by
the functions of `PackScript.Scalar`.
-/

/-- The routine of an operator, and the operator itself when the routine serves several. -/
def BinaryOp.routine? (op : BinaryOp) : Option (Routine × Option String) :=
  match op with
  | .add => some (.add, none)
  | .sub => some (.subtract, none)
  | .mul | .div | .mod | .exp => some (.mathOperation, some op.text)
  | .eq | .notEq | .strictEq | .strictNotEq => some (.equals, some op.text)
  | .lt | .ltEq | .gt | .gtEq => some (.numberCompare, some op.text)
  | _ => none

/-- Why an operator without routine is refused. -/
def BinaryOp.refusal (op : BinaryOp) : String :=
  match op with
  | .isIn | .instanceOf => "'" ++ op.text ++ "' operator"
  | _ => "bitwise operator '" ++ op.text ++ "' on runtime values"

/-- The value of an operator on two values that are known. -/
def Lowered.fold (op : BinaryOp) : Lowered → Lowered → Option Scalar
  | .known a, .known b => Scalar.binary op a b
  | _, _ => none

/-- The value of an operator before a value that is known. -/
def Scalar.unary (op : UnaryOp) (a : Scalar) : Option Scalar :=
  match op with
  | .minus => some (.number (-a.toNumber))
  | .plus => some (.number a.toNumber)
  | .not => some (.boolean !a.truthy)
  | .bitNot => some (.number (doubleOfInt (~~~(toInt32 a.toNumber)).toInt))
  | .typeOf => some (.string a.kind.typeOf)
  | .void => some .undefined
  | .delete => none

namespace Compile

variable (k : Lowering)

/-- Applies a binary operator. -/
def applyBinary (op : BinaryOp) (left right : Lowered) (span : Span) : Compile Lowered := do
  match left.fold op right with
  | some value => return .known value
  | none => match op.routine? with
    | none => unsupported op.refusal span
    | some (routine, operation) =>
      let left ← materialize left
      let right ← materialize right
      let result ← freshSlot
      callLibrary routine
        ([("left", .addressOf left), ("right", .addressOf right), ("result", .addressOf result)] ++
          operation.toList.map fun text => ("operation", .text text))
      return .slot result

/-- The number that the value in a slot stands for. -/
def toNumberSlot (s : Slot) : Compile Slot := do
  let result ← freshSlot
  callLibrary .toNumber [("value", .addressOf s), ("result", .addressOf result)]
  return result

/-- A boolean slot that tells whether the value in a slot counts as false. -/
def notSlot (s : Slot) : Compile Slot := do
  let flag ← truthFlag s
  let result ← slotOf (.boolean false)
  raise (isFalse flag) result
  return result

/-- A string slot with what `typeof` answers for the value in a slot. -/
def typeOfSlot (s : Slot) : Compile Slot := do
  let result ← slotOf (.string "undefined")
  (Kind.all.filter (· ≠ .undefined)).forM fun kind =>
    setIf (kindIs s kind) (.field result "value") (.text kind.typeOf)
  return result

/-- A binary operator. -/
def lowerBinary (op : BinaryOp) (left right : Expr) (span : Span) : Compile Lowered := do
  let l ← k.expr left
  let l ← (if left.isName && right.mayAssign then snapshot l else pure l)
  let r ← k.expr right
  applyBinary op l r span

/-- An operator before the value in a slot. -/
def applyUnary (op : UnaryOp) (s : Slot) (span : Span) : Compile Lowered := do
  match op with
  | .minus => applyBinary .sub (.known (.number 0.0)) (.slot s) span
  | .plus => return .slot (← toNumberSlot s)
  | .not => return .slot (← notSlot s)
  | .typeOf => return .slot (← typeOfSlot s)
  | .void => return .undefined
  | .bitNot => unsupported "bitwise operator '~' on runtime values" span
  | .delete => unsupported "delete operator" span

/-- The expression is a name without binding, of which `typeof` can tell the type anyway. -/
def isUnboundName (e : Expr) : Compile Bool := do
  match e with
  | .ident id => return (← resolve id.name).isNone && id.name ≠ "NaN" && id.name ≠ "Infinity"
  | _ => return false

/-- An operator before an operand. -/
def lowerUnary (op : UnaryOp) (argument : Expr) (span : Span) : Compile Lowered := do
  if op = .delete then unsupported "delete operator" span
  else
    let unbound ← isUnboundName argument
    if op = .typeOf && unbound then return .known (.string "undefined")
    else match ← k.expr argument with
      | .slot s => applyUnary op s span
      | .known value => match value.unary op with
        | some result => return .known result
        | none => unsupported "delete operator" span

/-! ### Operators that may skip their right side -/

/-- The left side decides. -/
def decides (op : LogicalOp) (left : Scalar) : Bool :=
  match op with
  | .and => !left.truthy
  | .or => left.truthy
  | .coalesce => !left.isNullish

/-- The right side is wanted for the value in a slot. -/
def wantsRight (op : LogicalOp) (left : Slot) : Compile Guard := do
  match op with
  | .and => return isTrue (← truthFlag left)
  | .or => return isFalse (← truthFlag left)
  | .coalesce =>
    let nullish ← slotOf (.boolean false)
    raise (kindIs left .undefined) nullish
    raise (kindIs left .null) nullish
    return isTrue nullish

/-- A logical operator; its right side is a unit of its own. -/
def lowerLogical (op : LogicalOp) (left right : Expr) : Compile Lowered := do
  match ← k.expr left with
  | .known value => if decides op value then return .known value else k.expr right
  | .slot s =>
    let result ← freshSlot
    set (.slot result) (.valueOf s)
    let guard ← wantsRight op s
    let unit ← exprUnit k result right
    invoke guard (.unit unit) none
    return .slot result

/-- A conditional expression; each side is a unit of its own. -/
def lowerConditional (test yes no : Expr) : Compile Lowered := do
  match ← truth (← k.expr test) with
  | .known true => k.expr yes
  | .known false => k.expr no
  | .flag flag =>
    let result ← freshSlot
    let unit ← exprUnit k result yes
    invoke (isTrue flag) (.unit unit) none
    let unit ← exprUnit k result no
    invoke (isFalse flag) (.unit unit) none
    return .slot result

/-- Joins the rest of a template literal to its start. -/
def templateFrom (span : Span) (start : Lowered) : List String → List Expr → Compile Lowered
  | _, [] => return start
  | pieces, e :: parts => do
    let joined ← applyBinary .add start (← k.expr e) span
    let piece := pieces.headD ""
    let joined ← (if piece.isEmpty then pure joined
      else applyBinary .add joined (.known (.string piece)) span)
    templateFrom span joined pieces.tail parts

/-- A template literal. -/
def lowerTemplate (pieces : List String) (parts : List Expr) (span : Span) : Compile Lowered :=
  templateFrom k span (.known (.string (pieces.headD ""))) pieces.tail parts

end Compile

end PackScript
