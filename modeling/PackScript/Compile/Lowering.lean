import PackScript.Compile.Binding

namespace PackScript

/-!
# Compiling what is inside

The rules for expressions and statements refer to each other. Each takes the rules for the parts
inside of it as a `Lowering`; `PackScript.Compile.Script` ties them together.
-/

/-- How to compile the expressions and statements inside of the present one. -/
structure Lowering where
  expr : Expr → Compile Lowered
  stmt : Stmt → Compile Unit

/-- Compiles nothing: for what is nested deeper than the tree. -/
def Lowering.none : Lowering :=
  ⟨fun e => throw (.invariant "nesting too deep" e.span),
   fun _ => throw (.invariant "nesting too deep" .origin)⟩

namespace Compile

variable (k : Lowering)

/-- Compiles an expression to a slot. -/
def exprSlot (e : Expr) : Compile Slot := do
  materialize (← k.expr e)

/-- Compiles an expression that may be missing. -/
def exprOrUndefined : Option Expr → Compile Lowered
  | some e => k.expr e
  | none => return .undefined

/-- Compiles an expression to a unit that assigns its value to a slot. -/
def exprUnit (target : Slot) (e : Expr) : Compile String :=
  inChild .expression false do
    assign target (← k.expr e)

/-- Compiles statements in the innermost scope. -/
def stmts (body : List Stmt) : Compile Unit := do
  hoistNames body
  (functionsFirst body).forM k.stmt

/-- Compiles the body of a unit whose scope is open already. -/
def unitBody : Stmt → Compile Unit
  | .block b => stmts k b.body
  | s => k.stmt s

end Compile

end PackScript
