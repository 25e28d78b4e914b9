import PackScript.Span
import PackScript.Scalar

namespace PackScript

/-!
# Syntax trees

The tree of a script. Type annotations are not in it, and a statement without counterpart in the
target is kept as `Stmt.unsupported` with the name that diagnostics give it. Every node has its
extent; `Expr.span`, `Pattern.span` and `PropertyKey.span` read it off.
-/

/-- A name at a place. -/
structure Ident where
  name : String
  span : Span
deriving Repr, Inhabited

/-- The three words that declare variables. -/
inductive DeclKind where
  | letDecl
  | constDecl
  | varDecl
deriving Repr, DecidableEq, Inhabited

/-- A plain member, a getter or a setter. -/
inductive MethodKind where
  | method
  | getter
  | setter
deriving Repr, DecidableEq, Inhabited

mutual

/-- Expressions. -/
inductive Expr where
  | literal (value : Scalar) (span : Span)
  | ident (id : Ident)
  | this (span : Span)
  | super (span : Span)
  | newTarget (span : Span)
  | array (elements : List (Option Expr)) (span : Span)
  | object (properties : List Property) (span : Span)
  | function (fn : Function)
  | arrow (params : List Param) (body : ArrowBody) (isAsync : Bool) (span : Span)
  | classExpr (cls : ClassNode)
  | template (pieces : List String) (parts : List Expr) (span : Span)
  | unary (op : UnaryOp) (argument : Expr) (span : Span)
  | binary (op : BinaryOp) (left right : Expr) (span : Span)
  | logical (op : LogicalOp) (left right : Expr) (span : Span)
  | conditional (test yes no : Expr) (span : Span)
  | assign (op : AssignOp) (target : AssignTarget) (value : Expr) (span : Span)
  | update (op : UpdateOp) (argument : Expr) (before : Bool) (span : Span)
  | sequence (exprs : List Expr) (span : Span)
  | member (m : Member)
  | call (callee : Expr) (arguments : List Expr) (optional : Bool) (span : Span)
  | new (callee : Expr) (arguments : List Expr) (span : Span)
  | spread (argument : Expr) (span : Span)
  | yield (argument : Option Expr) (span : Span)
  | await (argument : Expr) (span : Span)

/-- Access to a member; `optional` for `?.`. -/
structure Member where
  object : Expr
  key : MemberKey
  optional : Bool
  span : Span

/-- A member named after a point, or given by an expression in brackets. -/
inductive MemberKey where
  | name (id : Ident)
  | index (expr : Expr)

/-- The name of a property. -/
inductive PropertyKey where
  | ident (id : Ident)
  | string (text : String) (span : Span)
  | number (value : Float) (span : Span)
  | computed (expr : Expr)

/-- An entry of an object literal. -/
inductive Property where
  | entry (key : PropertyKey) (value : Expr) (kind : MethodKind) (shorthand method : Bool)
      (span : Span)
  | spread (argument : Expr) (span : Span)

/-- A function with a body in braces. -/
structure Function where
  id : Option Ident
  params : List Param
  body : Block
  generator : Bool
  isAsync : Bool
  span : Span

/-- Statements in braces. -/
structure Block where
  body : List Stmt
  span : Span

/-- A parameter of a function. -/
structure Param where
  pattern : Pattern
  span : Span

/-- The body of an arrow function. -/
inductive ArrowBody where
  | expr (value : Expr)
  | block (body : Block)

/-- A class. -/
structure ClassNode where
  id : Option Ident
  parent : Option Expr
  members : List ClassMember
  bodySpan : Span
  span : Span

/-- A member of a class. -/
inductive ClassMember where
  | method (key : PropertyKey) (fn : Function) (kind : MethodKind) (isStatic : Bool) (span : Span)
  | field (f : Field)
  | ctor (params : List Param) (body : Block) (span : Span)

/-- A field of a class. -/
structure Field where
  key : PropertyKey
  value : Option Expr
  isStatic : Bool
  span : Span

/-- What an assignment writes to. -/
inductive AssignTarget where
  | ident (id : Ident)
  | member (m : Member)
  | pattern (p : Pattern)

/-- What a declaration or parameter binds. -/
inductive Pattern where
  | ident (id : Ident)
  | object (properties : List PatternProperty) (span : Span)
  | array (elements : List (Option Pattern)) (span : Span)
  | rest (argument : Pattern) (span : Span)
  | withDefault (left : Pattern) (right : Expr) (span : Span)

/-- An entry of an object pattern. -/
inductive PatternProperty where
  | entry (key : PropertyKey) (value : Pattern) (span : Span)
  | rest (argument : Pattern) (span : Span)

/-- Statements. -/
inductive Stmt where
  | declare (decl : Declaration)
  | function (id : Ident) (fn : Function)
  | classDecl (id : Ident) (cls : ClassNode)
  | block (b : Block)
  | branch (test : Expr) (yes : Stmt) (no : Option Stmt) (span : Span)
  | switch (subject : Expr) (cases : List SwitchCase) (span : Span)
  | forLoop (init : Option ForInit) (test update : Option Expr) (body : Stmt) (span : Span)
  | forOf (target : ForTarget) (subject : Expr) (body : Stmt) (span : Span)
  | whileLoop (test : Expr) (body : Stmt) (span : Span)
  | doWhile (body : Stmt) (test : Expr) (span : Span)
  | returning (argument : Option Expr) (span : Span)
  | breaking (label : Option Ident) (span : Span)
  | expr (value : Expr) (span : Span)
  | unsupported (construct : String) (span : Span)
  | empty (span : Span)

/-- Variables declared by one word. -/
structure Declaration where
  kind : DeclKind
  declarators : List Declarator
  span : Span

/-- One declared variable or pattern. -/
structure Declarator where
  pattern : Pattern
  init : Option Expr
  span : Span

/-- A case of a switch; the default case has no test. -/
structure SwitchCase where
  test : Option Expr
  body : List Stmt
  span : Span

/-- What a `for` loop does first. -/
inductive ForInit where
  | declare (decl : Declaration)
  | expr (value : Expr)

/-- What a `for … of` loop binds: a variable of its own, or one that is there. -/
inductive ForTarget where
  | declared (kind : DeclKind) (pattern : Pattern)
  | existing (pattern : Pattern)

end

instance : Inhabited Expr := ⟨.this .origin⟩
instance : Inhabited Stmt := ⟨.empty .origin⟩
instance : Inhabited Pattern := ⟨.ident ⟨"", .origin⟩⟩

/-- The extent of an expression. -/
def Expr.span : Expr → Span
  | .literal _ span | .this span | .super span | .newTarget span | .array _ span
  | .object _ span | .arrow _ _ _ span | .template _ _ span | .unary _ _ span
  | .binary _ _ _ span | .logical _ _ _ span | .conditional _ _ _ span | .assign _ _ _ span
  | .update _ _ _ span | .sequence _ span | .call _ _ _ span | .new _ _ span | .spread _ span
  | .yield _ span | .await _ span => span
  | .ident id => id.span
  | .function fn => fn.span
  | .classExpr cls => cls.span
  | .member m => m.span

/-- The extent of a pattern. -/
def Pattern.span : Pattern → Span
  | .ident id => id.span
  | .object _ span | .array _ span | .rest _ span | .withDefault _ _ span => span

/-- The extent of a property name. -/
def PropertyKey.span : PropertyKey → Span
  | .ident id => id.span
  | .string _ span | .number _ span => span
  | .computed e => e.span

/-- A whole script. -/
structure Script where
  body : List Stmt

end PackScript
