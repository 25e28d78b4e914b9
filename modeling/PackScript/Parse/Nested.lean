import PackScript.Parse.Cursor
import PackScript.Tree.Basic

namespace PackScript.Parse

/-!
# Parsers of nested parts

The grammar is recursive: a block holds statements, a call holds arguments. Every rule is written
as a function of `Nested`, the parsers of the parts that may stand inside it, and calls them only
after it has taken a token. `Script` ties the rules together, one level of nesting at a time.
-/

/-- Parsers of the parts that a rule may hold. -/
structure Nested where
  assignment : Parse Expr
  unary : Parse Expr
  /-- Operators of at least the given precedence -/
  binary : Nat → Parse Expr
  member : Parse Expr
  leftHandSide : Parse Expr
  pattern : Parse Pattern
  statement : Parse Stmt

/-- No nesting is allowed any more. -/
def Nested.none : Nested where
  assignment := exhausted
  unary := exhausted
  binary := fun _ => exhausted
  member := exhausted
  leftHandSide := exhausted
  pattern := exhausted
  statement := exhausted

variable (p : Nested)

/-- A comma-separated sequence that starts with the given expression parser; a single expression
    stands for itself. -/
def sequenceFrom (first : Parse Expr) : Parse Expr := do
  let start ← here
  let e ← first
  if ← sees .comma then
    let es ← afterCommas p.assignment
    return .sequence (e :: es) (← spanFrom start)
  else return e

/-- An expression inside brackets of some kind, after the opening one. -/
def nestedExpression : Parse Expr :=
  sequenceFrom p p.assignment

/-- Statements in braces. -/
def block : Parse Block := do
  let start ← here
  require .lbrace
  let body ← manyUntil (fun c => c.sees .rbrace || c.atEnd) p.statement
  require .rbrace
  return ⟨body, ← spanFrom start⟩

end PackScript.Parse
