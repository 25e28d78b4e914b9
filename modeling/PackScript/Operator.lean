namespace PackScript

/-!
# Operators of the script language
-/

/-- Binary operators. -/
inductive BinaryOp where
  | add
  | sub
  | mul
  | div
  | mod
  | exp
  | eq
  | notEq
  | strictEq
  | strictNotEq
  | lt
  | ltEq
  | gt
  | gtEq
  | bitAnd
  | bitOr
  | bitXor
  | shiftLeft
  | shiftRight
  | shiftRightZero
  | isIn
  | instanceOf
deriving Repr, DecidableEq, Inhabited

namespace BinaryOp

/-- All binary operators. -/
def all : List BinaryOp :=
  [.add, .sub, .mul, .div, .mod, .exp, .eq, .notEq, .strictEq, .strictNotEq, .lt, .ltEq, .gt,
   .gtEq, .bitAnd, .bitOr, .bitXor, .shiftLeft, .shiftRight, .shiftRightZero, .isIn, .instanceOf]

/-- The operator as scripts write it. -/
def text : BinaryOp → String
  | .add => "+"
  | .sub => "-"
  | .mul => "*"
  | .div => "/"
  | .mod => "%"
  | .exp => "**"
  | .eq => "=="
  | .notEq => "!="
  | .strictEq => "==="
  | .strictNotEq => "!=="
  | .lt => "<"
  | .ltEq => "<="
  | .gt => ">"
  | .gtEq => ">="
  | .bitAnd => "&"
  | .bitOr => "|"
  | .bitXor => "^"
  | .shiftLeft => "<<"
  | .shiftRight => ">>"
  | .shiftRightZero => ">>>"
  | .isIn => "in"
  | .instanceOf => "instanceof"

/-- The operator written by a text. -/
def ofText? (text : String) : Option BinaryOp :=
  all.find? (·.text == text)

end BinaryOp

/-- Operators that evaluate their right side only when the left one does not decide. -/
inductive LogicalOp where
  | and
  | or
  | coalesce
deriving Repr, DecidableEq, Inhabited

/-- Operators before an operand. -/
inductive UnaryOp where
  | minus
  | plus
  | not
  | bitNot
  | typeOf
  | void
  | delete
deriving Repr, DecidableEq, Inhabited

/-- `++` and `--`. -/
inductive UpdateOp where
  | increment
  | decrement
deriving Repr, DecidableEq, Inhabited

/-- `=` and the assignments that apply a binary operator first. -/
inductive AssignOp where
  | assign
  | add
  | sub
  | mul
  | div
  | mod
  | exp
deriving Repr, DecidableEq, Inhabited

/-- The binary operator that an assignment applies to the old value. -/
def AssignOp.binary? : AssignOp → Option BinaryOp
  | .assign => none
  | .add => some .add
  | .sub => some .sub
  | .mul => some .mul
  | .div => some .div
  | .mod => some .mod
  | .exp => some .exp

end PackScript
