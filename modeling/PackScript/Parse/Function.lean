import PackScript.Parse.Pattern

namespace PackScript.Parse

/-!
# Functions and classes
-/

variable (p : Nested)

/-- Type parameters, parameters, return type and body of a function. -/
def functionTail : Parse (List Param × Block) := do
  skipTypeArguments
  let ps ← params p
  skipReturnType
  let body ← block p
  return (ps, body)

/-- A function from the word `function` on, whose extent starts at `start`, with the rule for its
    name. -/
def functionFrom {α : Type} (start : Span) (isAsync : Bool) (name : Parse α) :
    Parse (α × (Option Ident → Function)) := do
  requireWord .function_
  let generator ← accept .star
  let id ← name
  let (ps, body) ← functionTail p
  let span ← spanFrom start
  return (id, fun id => ⟨id, ps, body, generator, isAsync, span⟩)

/-- The name of a function expression, if it has one. -/
def functionName? : Parse (Option Ident) := do
  let c ← get
  if c.sees .lparen || c.sees .lt then return none
  else return some (← bindingName)

/-- A function expression from the word `function` on. -/
def functionExpression (start : Span) (isAsync : Bool) : Parse Expr := do
  let (id, fn) ← functionFrom p start isAsync functionName?
  return .function (fn id)

/-- A function declaration from the word `function` on. -/
def functionDeclaration (start : Span) (isAsync : Bool) : Parse Stmt := do
  let (id, fn) ← functionFrom p start isAsync bindingName
  return .function id (fn (some id))

/-- The parameters and body of a method whose extent starts at `start`. -/
def methodFunction (start : Span) (isAsync generator : Bool) : Parse Function := do
  let (ps, body) ← functionTail p
  return ⟨none, ps, body, generator, isAsync, ← spanFrom start⟩

/-- The rest of an arrow function after its parameters. -/
def arrowFrom (start : Span) (isAsync : Bool) (ps : List Param) : Parse Expr := do
  skipReturnType
  require .arrow
  let body ← (do
    if ← sees .lbrace then return ArrowBody.block (← block p)
    else return .expr (← p.assignment))
  return .arrow ps body isAsync (← spanFrom start)

/-- An arrow function with a single bare parameter. -/
def bareArrow (start : Span) (isAsync : Bool) : Parse Expr := do
  let id ← bindingName
  arrowFrom p start isAsync [⟨.ident id, id.span⟩]

/-- The word `async` before a member, and not the name of one. -/
def acceptAsyncMember : Parse Bool := do
  let c ← get
  if c.seesWord .async_ && !endsMemberName c then
    advance
    return true
  else return false

/-- The word `static` before a member, and not the name of one. -/
def acceptStatic : Parse Bool := do
  let c ← get
  if c.seesWord .static_ && !endsMemberName c then
    advance
    return true
  else return false

/-- `get` or `set` before a member, and not the name of one. -/
def accessorKind : Parse MethodKind := do
  let c ← get
  if (c.seesNamed "get" || c.seesNamed "set") && !endsMemberName c then
    advance
    return if c.seesNamed "get" then .getter else .setter
  else return .method

/-- A field of a class after its name. -/
def fieldFrom (start : Span) (key : PropertyKey) (isStatic : Bool) : Parse ClassMember := do
  let _ ← accept .question
  let _ ← accept .bang
  skipAnnotation
  let value ← (do
    if ← accept .eq then return some (← p.assignment) else return none)
  endStatement
  return .field ⟨key, value, isStatic, ← spanFrom start⟩

/-- A member of a class. -/
def classMember : Parse ClassMember := do
  let start ← here
  skipModifiers
  let isStatic ← acceptStatic
  let isAsync ← acceptAsyncMember
  let generator ← accept .star
  let c ← get
  if !isStatic && c.seesNamed "constructor" && c.aheadIs .lparen then
    advance
    let ps ← params p
    let body ← block p
    return .ctor ps body (← spanFrom start)
  else
    let kind ← accessorKind
    let key ← propertyKey p
    let c ← get
    if c.sees .lparen || c.sees .lt then
      let fn ← methodFunction p start isAsync generator
      return .method key fn kind isStatic (← spanFrom start)
    else fieldFrom p start key isStatic

/-- The members of a class in braces, and the extent of the braces. -/
def classBody : Parse (List ClassMember × Span) := do
  let start ← here
  require .lbrace
  let members ← repeating (fun taken => do
    let c ← get
    if c.sees .rbrace || c.atEnd then return .inr (List.reverse taken)
    else if ← accept .semicolon then return .inl taken
    else return .inl ((← classMember p) :: taken)) []
  require .rbrace
  return (members, ← spanFrom start)

/-- The class that a class extends, if any. -/
def heritage : Parse (Option Expr) := do
  if ← acceptWord .extends_ then
    let e ← p.leftHandSide
    skipTypeArguments
    return some e
  else return none

/-- A class from the word `class` on, with the rule for its name. -/
def classFrom {α : Type} (name : Parse α) : Parse (α × (Option Ident → ClassNode)) := do
  let start ← here
  requireWord .class_
  let id ← name
  skipTypeArguments
  let parent ← heritage p
  if ← seesNamed "implements" then
    advance
    skipTypes
  let (members, bodySpan) ← classBody p
  let span ← spanFrom start
  return (id, fun id => ⟨id, parent, members, bodySpan, span⟩)

/-- The name of a class expression, if it has one. -/
def className? : Parse (Option Ident) := do
  if ← seesName then return some (← bindingName) else return none

/-- A class expression. -/
def classExpression : Parse Expr := do
  let (id, cls) ← classFrom p className?
  return .classExpr (cls id)

/-- A class declaration. -/
def classDeclaration : Parse Stmt := do
  let (id, cls) ← classFrom p bindingName
  return .classDecl id (cls (some id))

end PackScript.Parse
