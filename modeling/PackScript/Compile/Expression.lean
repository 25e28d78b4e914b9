import PackScript.Compile.Call
import PackScript.Compile.Object
import PackScript.Compile.Operator

namespace PackScript

/-!
# Expressions
-/

/-- Where an assignment writes. -/
inductive Reference where
  | variable_ (s : Slot)
  | member (object : Slot) (name : MemberName)
deriving Repr, Inhabited

namespace Compile

variable (k : Lowering)

/-! ### Assignments -/

/-- Where an assignment to a member writes. -/
def memberReference (m : Member) : Compile Reference := do
  if m.optional then unsupported "optional chaining in assignment" m.span
  else match m.object with
    | .super span => unsupported "assignment to super property" span
    | object => match (← get).isGlobalThis object, m.key with
      | true, .name id => return .variable_ (← globalSlot id.name id.span)
      | _, _ =>
        let (object, name) ← memberParts k m
        return .member object name

/-- The present value of a reference. -/
def readReference : Reference → Compile Slot
  | .variable_ s => return s
  | .member object name => getMember object name

/-- Writes to a reference, and answers what the assignment is worth. -/
def writeReference (value : Lowered) : Reference → Compile Lowered
  | .variable_ s => do
    assign s value
    return .slot s
  | .member object name => do
    let value ← materialize value
    setMember object name value
    return .slot value

/-- Where an assignment writes. -/
def targetReference : AssignTarget → Compile Reference
  | .ident id => return .variable_ (← assignableSlot id)
  | .member m => memberReference k m
  | .pattern p => unsupported "destructuring assignment" p.span

/-- The old value of a reference for an operator whose right side may write it. -/
def oldValue (right : Expr) (r : Reference) : Compile Lowered := do
  let old := Lowered.slot (← readReference r)
  match r with
  | .variable_ _ => if right.mayAssign then snapshot old else return old
  | .member _ _ => return old

/-- An assignment. -/
def lowerAssign (op : AssignOp) (target : AssignTarget) (right : Expr) (span : Span) :
    Compile Lowered := do
  let r ← targetReference k target
  match op.binary? with
  | none => writeReference (← k.expr right) r
  | some op =>
    let old ← oldValue right r
    writeReference (← applyBinary op old (← k.expr right) span) r

/-- Where `++` or `--` writes. -/
def updateReference (span : Span) : Expr → Compile Reference
  | .ident id => return .variable_ (← assignableSlot id)
  | .member m => memberReference k m
  | _ => malformed "Invalid left-hand side expression in update operation" span

/-- The binary operator of `++` or `--`. -/
def updateOp : UpdateOp → BinaryOp
  | .increment => .add
  | .decrement => .sub

/-- `++` or `--`. -/
def lowerUpdate (op : UpdateOp) (argument : Expr) (before : Bool) (span : Span) :
    Compile Lowered := do
  let r ← updateReference k span argument
  let old ← toNumberSlot (← readReference r)
  let new ← applyBinary (updateOp op) (.slot old) (.known (.number 1.0)) span
  let new ← writeReference new r
  return if before then new else .slot old

/-! ### All expressions -/

/-- A slot that may be missing. -/
def slotOrUndefined (s : Option Slot) : Lowered :=
  match s with
  | some s => .slot s
  | none => .undefined

/-- The value of the last expression; all are evaluated. -/
def lowerSequence (last : Lowered) : List Expr → Compile Lowered
  | [] => return last
  | e :: rest => do
    lowerSequence (← k.expr e) rest

/-- Compiles an expression. -/
def lowerExpr : Expr → Compile Lowered
  | .literal value _ => return .known value
  | .ident id => lowerIdent id
  | .this _ => return slotOrUndefined (← get).context.that
  | .newTarget _ => return slotOrUndefined (← get).context.newTarget
  | .super span => malformed "'super' keyword unexpected here" span
  | .array elements _ => lowerArray k elements
  | .object properties _ => lowerObject k properties
  | .function fn => lowerFunction k fn
  | .arrow params body isAsync span => lowerArrow k params body isAsync span
  | .classExpr cls => lowerClass k cls
  | .template pieces parts span => lowerTemplate k pieces parts span
  | .unary op argument span => lowerUnary k op argument span
  | .binary op left right span => lowerBinary k op left right span
  | .logical op left right _ => lowerLogical k op left right
  | .conditional test yes no _ => lowerConditional k test yes no
  | .assign op target right span => lowerAssign k op target right span
  | .update op argument before span => lowerUpdate k op argument before span
  | .sequence es _ => lowerSequence k .undefined es
  | .member m => lowerMember k m
  | .call callee es optional span => lowerCall k callee es optional span
  | .new callee es span => lowerNew k callee es span
  | .await argument span => lowerAwait k argument span
  | .spread _ span => unsupported "spread element" span
  | .yield _ span => unsupported "yield expression" span

end Compile

end PackScript
