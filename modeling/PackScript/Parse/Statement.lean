import PackScript.Parse.Expression

namespace PackScript.Parse

/-!
# Statements
-/

variable (p : Nested)

/-- The word that declares variables. -/
def declKind? : Token.Kind → Option DeclKind
  | .keyword .let_ => some .letDecl
  | .keyword .const_ => some .constDecl
  | .keyword .var_ => some .varDecl
  | _ => none

/-- One declared variable or pattern. -/
def declarator : Parse Declarator := do
  let start ← here
  let pattern ← bindingPattern p
  let _ ← accept .bang
  skipAnnotation
  let init ← (do
    if ← accept .eq then return some (← p.assignment) else return none)
  return ⟨pattern, init, ← spanFrom start⟩

/-- Declared variables after the word that declares them. -/
def declarationFrom (start : Span) (kind : DeclKind) : Parse Declaration := do
  advance
  let first ← declarator p
  let rest ← afterCommas (declarator p)
  return ⟨kind, first :: rest, ← spanFrom start⟩

/-- A statement without counterpart in the target. -/
def unsupported (construct : String) (start : Span) : Parse Stmt := do
  return .unsupported construct (← spanFrom start)

/-- An expression in parentheses. -/
def inParentheses : Parse Expr := do
  require .lparen
  let e ← nestedExpression p
  require .rparen
  return e

/-- A branch. -/
def branch : Parse Stmt := do
  let start ← here
  requireWord .if_
  let test ← inParentheses p
  let yes ← p.statement
  let no ← (do
    if ← acceptWord .else_ then return some (← p.statement) else return none)
  return .branch test yes no (← spanFrom start)

/-! ### Loops -/

/-- A loop over the elements or keys of something, after the word that says which. -/
def forEachFrom (start : Span) (target : ForTarget) (isOf : Bool) : Parse Stmt := do
  let subject ← (if isOf then p.assignment else nestedExpression p)
  require .rparen
  let body ← p.statement
  if isOf then return .forOf target subject body (← spanFrom start)
  else unsupported "for...in loop" start

/-- An expression that may be missing before a punctuator. -/
def expressionBefore? (mark : Punct) : Parse (Option Expr) := do
  if ← sees mark then return none else return some (← nestedExpression p)

/-- A loop with three parts, after the first one. -/
def forLoopFrom (start : Span) (init : Option ForInit) : Parse Stmt := do
  require .semicolon
  let test ← expressionBefore? p .semicolon
  require .semicolon
  let update ← expressionBefore? p .rparen
  require .rparen
  let body ← p.statement
  return .forLoop init test update body (← spanFrom start)

/-- A single variable without initial value, which a loop may bind to one element after the
    other. -/
def loopPattern? (decl : Declaration) : Option Pattern :=
  match decl.declarators with
  | [⟨pattern, none, _⟩] => some pattern
  | _ => none

/-- A loop that starts with a declaration. -/
def forDeclared (start : Span) (kind : DeclKind) : Parse Stmt := do
  let decl ← declarationFrom p (← here) kind
  let c ← get
  match loopPattern? decl with
  | some pattern =>
    if c.seesWord .of_ || c.seesWord .in_ then
      advance
      forEachFrom p start (.declared kind pattern) (c.seesWord .of_)
    else forLoopFrom p start (some (.declare decl))
  | none => forLoopFrom p start (some (.declare decl))

/-- The left side of an `in` that stands alone in the head of a loop. -/
def inOperand? : Expr → Option Expr
  | .binary .isIn left _ _ => some left
  | _ => none

/-- A loop that starts with an expression. A loop over keys is read as an `in` expression
    first. -/
def forExpression (start : Span) : Parse Stmt := do
  let e ← nestedExpression p
  if ← acceptWord .of_ then
    match e.toPattern with
    | .ok pattern => forEachFrom p start (.existing pattern) true
    | .error d => throw d
  else
    match (if ← sees .rparen then inOperand? e else none) with
    | some left =>
      match left.toPattern with
      | .ok _ =>
        advance
        let _ ← p.statement
        unsupported "for...in loop" start
      | .error d => throw d
    | none => forLoopFrom p start (some (.expr e))

/-- A `for` loop of any form. -/
def forLoop : Parse Stmt := do
  let start ← here
  requireWord .for_
  if ← seesWord .await_ then fault "for await is not supported"
  else
    require .lparen
    let c ← get
    if c.sees .semicolon then forLoopFrom p start none
    else match declKind? c.current.kind with
      | some kind => forDeclared p start kind
      | none => forExpression p start

/-- A loop that tests before its body. -/
def whileLoop : Parse Stmt := do
  let start ← here
  requireWord .while_
  let test ← inParentheses p
  let body ← p.statement
  return .whileLoop test body (← spanFrom start)

/-- A loop that tests after its body. -/
def doWhile : Parse Stmt := do
  let start ← here
  requireWord .do_
  let body ← p.statement
  requireWord .while_
  let test ← inParentheses p
  let _ ← accept .semicolon
  return .doWhile body test (← spanFrom start)

/-! ### Switches -/

/-- The current token ends the statements of a case. -/
def endsCase (c : Cursor) : Bool :=
  c.seesWord .case_ || c.seesWord .default_ || c.sees .rbrace || c.atEnd

/-- The test of a case up to its colon; `none` for the default case, which may come once. -/
def caseTest (seenDefault : Bool) : Parse (Option Expr) := do
  if ← acceptWord .case_ then return some (← nestedExpression p)
  else if ← acceptWord .default_ then
    if seenDefault then fault "More than one default clause in switch statement"
    else return none
  else reject "'case' or 'default'"

/-- A case of a switch. -/
def switchCase (seenDefault : Bool) : Parse SwitchCase := do
  let start ← here
  let test ← caseTest p seenDefault
  require .colon
  let body ← manyUntil endsCase p.statement
  return ⟨test, body, ← spanFrom start⟩

/-- A switch. -/
def switch : Parse Stmt := do
  let start ← here
  requireWord .switch_
  let subject ← inParentheses p
  require .lbrace
  let cases ← repeating (fun (taken : List SwitchCase) => do
    let c ← get
    if c.sees .rbrace || c.atEnd then return .inr taken.reverse
    else
      let next ← switchCase p (taken.any (·.test.isNone))
      return .inl (next :: taken)) []
  require .rbrace
  return .switch subject cases (← spanFrom start)

/-! ### Jumps -/

/-- The argument of a `return`, if any: it starts on the same line. -/
def returnArgument : Parse (Option Expr) := do
  let c ← get
  if c.sees .semicolon || c.sees .rbrace || c.atEnd || c.newline then return none
  else return some (← nestedExpression p)

/-- A `return` statement. -/
def returning : Parse Stmt := do
  let start ← here
  requireWord .return_
  let argument ← returnArgument p
  endStatement
  return .returning argument (← spanFrom start)

/-- The label of a jump, if any: it stands on the same line. -/
def label? : Parse (Option Ident) := do
  let c ← get
  if c.seesName && !c.newline then return some (← bindingName) else return none

/-- A `break` statement. -/
def breaking : Parse Stmt := do
  let start ← here
  requireWord .break_
  let label ← label?
  endStatement
  return .breaking label (← spanFrom start)

/-! ### Statements without counterpart -/

/-- A `continue` statement. -/
def continuing : Parse Stmt := do
  let start ← here
  requireWord .continue_
  let _ ← label?
  endStatement
  unsupported "continue statement" start

/-- A `throw` statement. -/
def throwing : Parse Stmt := do
  let start ← here
  requireWord .throw_
  if ← newlineBefore then fault "Illegal newline after throw"
  else
    let _ ← nestedExpression p
    endStatement
    unsupported "throw statement" start

/-- What follows `catch`. -/
def catchClause : Parse Unit := do
  if ← accept .lparen then
    let _ ← bindingPattern p
    skipAnnotation
    require .rparen
  let _ ← block p

/-- A `try` statement. -/
def trying : Parse Stmt := do
  let start ← here
  requireWord .try_
  let _ ← block p
  let caught ← acceptWord .catch_
  if caught then catchClause p
  let finished ← acceptWord .finally_
  if finished then
    let _ ← block p
  if caught || finished then unsupported "try statement" start
  else fault "Missing catch or finally after try"

/-- A statement with a label. -/
def labeled : Parse Stmt := do
  let start ← here
  let _ ← bindingName
  require .colon
  let _ ← p.statement
  unsupported "labeled statement" start

/-! ### All statements -/

/-- A statement that starts with a declaration of variables. -/
def declaration (kind : DeclKind) : Parse Stmt := do
  let decl ← declarationFrom p (← here) kind
  endStatement
  return .declare decl

/-- An expression as a statement. -/
def expressionStatement : Parse Stmt := do
  let start ← here
  let e ← expression p
  endStatement
  return .expr e (← spanFrom start)

/-- A statement that its first token decides. -/
def statementByToken : Parse Stmt := do
  let token := (← get).current
  match token.kind with
  | .keyword .let_ => declaration p .letDecl
  | .keyword .const_ => declaration p .constDecl
  | .keyword .var_ => declaration p .varDecl
  | .keyword .function_ => functionDeclaration p token.span false
  | .keyword .class_ => classDeclaration p
  | .keyword .if_ => branch p
  | .keyword .for_ => forLoop p
  | .keyword .while_ => whileLoop p
  | .keyword .do_ => doWhile p
  | .keyword .switch_ => switch p
  | .keyword .try_ => trying p
  | .keyword .return_ => returning p
  | .keyword .break_ => breaking
  | .keyword .continue_ => continuing
  | .keyword .throw_ => throwing p
  | .punct .lbrace => return .block (← block p)
  | .punct .semicolon =>
    advance
    return .empty token.span
  | _ => expressionStatement p

/-- A statement. -/
def statement : Parse Stmt := do
  let c ← get
  if c.seesName && c.aheadIs .colon then labeled p
  else match ← skipTypeDeclaration with
    | some span => return .empty span
    | none =>
      if c.seesWord .async_ && c.ahead.kind.isKeyword .function_ then
        advance
        functionDeclaration p c.current.span true
      else statementByToken p

end PackScript.Parse
