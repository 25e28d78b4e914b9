import PackScript.Tree.Basic

namespace PackScript

/-!
# Expressions that may write

An operand that is read from its variable must be copied when an operand behind it may write that
variable. `Expr.mayAssign` tells which expressions may.
-/

/-- The expression is a name. -/
def Expr.isName : Expr → Bool
  | .ident _ => true
  | _ => false

mutual

/-- Evaluating the expression may write a variable. -/
def Expr.mayAssign : Expr → Bool
  | .literal _ _ | .ident _ | .this _ | .newTarget _ | .function _ | .arrow _ _ _ _ => false
  | .binary _ left right _ => left.mayAssign || right.mayAssign
  | .logical _ left right _ => left.mayAssign || right.mayAssign
  | .unary _ argument _ => argument.mayAssign
  | .conditional test yes no _ => test.mayAssign || yes.mayAssign || no.mayAssign
  | .member ⟨object, key, _, _⟩ => object.mayAssign || key.mayAssign
  | .template _ parts _ => anyMayAssign parts
  | _ => true

/-- Evaluating the key of a member may write a variable. -/
def MemberKey.mayAssign : MemberKey → Bool
  | .name _ => false
  | .index e => e.mayAssign

/-- Evaluating one of the expressions may write a variable. -/
def anyMayAssign : List Expr → Bool
  | [] => false
  | e :: rest => e.mayAssign || anyMayAssign rest

end

end PackScript
