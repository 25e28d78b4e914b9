import PackScript.Tree.Basic
import PackScript.Diagnostic

namespace PackScript

/-!
# Expressions read as targets

The left side of an assignment and of a `for … of` loop is read as an expression first, and turns
out to be a target only later. `Expr.toPattern` and `Expr.toTarget` convert it.
-/

/-- What cannot be taken apart. -/
def invalidTarget (span : Span) : Diagnostic :=
  .malformed "Invalid destructuring target" span

mutual

/-- An expression as a pattern. -/
def Expr.toPattern : Expr → Except Diagnostic Pattern
  | .ident id => .ok (.ident id)
  | .object properties span => do
    return .object (← patternProperties properties) span
  | .array elements span => do
    return .array (← patternElements elements) span
  | .spread argument span => do
    return .rest (← argument.toPattern) span
  | .assign .assign (.ident id) value span => .ok (.withDefault (.ident id) value span)
  | .assign .assign (.pattern p) value span => .ok (.withDefault p value span)
  | e => .error (invalidTarget e.span)

/-- Entries of an object literal as those of a pattern. -/
def patternProperties : List Property → Except Diagnostic (List PatternProperty)
  | [] => .ok []
  | .entry key value _ _ _ span :: rest => do
    let value ← value.toPattern
    return .entry key value span :: (← patternProperties rest)
  | .spread argument span :: rest => do
    let argument ← argument.toPattern
    return .rest argument span :: (← patternProperties rest)

/-- Elements of an array literal as those of a pattern. -/
def patternElements : List (Option Expr) → Except Diagnostic (List (Option Pattern))
  | [] => .ok []
  | none :: rest => do
    return none :: (← patternElements rest)
  | some e :: rest => do
    let pattern ← e.toPattern
    return some pattern :: (← patternElements rest)

end

/-- An expression as the target of an assignment. -/
def Expr.toTarget : Expr → Except Diagnostic AssignTarget
  | .ident id => .ok (.ident id)
  | .member m => .ok (.member m)
  | e@(.object _ _) => do return .pattern (← e.toPattern)
  | e@(.array _ _) => do return .pattern (← e.toPattern)
  | e => .error (.malformed "Invalid left-hand side in assignment" e.span)

end PackScript
