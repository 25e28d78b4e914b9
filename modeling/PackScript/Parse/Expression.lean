import PackScript.Parse.Function
import PackScript.Tree.Target

namespace PackScript.Parse

/-!
# Expressions

From the tightest rule to the loosest: primary expressions, members, calls, postfix and unary
operators, binary operators by precedence, conditionals, assignments.
-/

variable (p : Nested)

/-! ### Operators -/

/-- An operator between two operands. -/
inductive Joint where
  | binary (op : BinaryOp)
  | logical (op : LogicalOp)
deriving Repr, DecidableEq

/-- The operator a token is, with its precedence. -/
def joint? : Token.Kind → Option (Joint × Nat)
  | .punct .questionQuestion => some (.logical .coalesce, 3)
  | .punct .pipePipe => some (.logical .or, 4)
  | .punct .ampAmp => some (.logical .and, 5)
  | .punct .pipe => some (.binary .bitOr, 6)
  | .punct .caret => some (.binary .bitXor, 7)
  | .punct .amp => some (.binary .bitAnd, 8)
  | .punct .eqEq => some (.binary .eq, 9)
  | .punct .bangEq => some (.binary .notEq, 9)
  | .punct .eqEqEq => some (.binary .strictEq, 9)
  | .punct .bangEqEq => some (.binary .strictNotEq, 9)
  | .punct .lt => some (.binary .lt, 10)
  | .punct .ltEq => some (.binary .ltEq, 10)
  | .punct .gt => some (.binary .gt, 10)
  | .punct .gtEq => some (.binary .gtEq, 10)
  | .keyword .in_ => some (.binary .isIn, 10)
  | .keyword .instanceof_ => some (.binary .instanceOf, 10)
  | .punct .ltLt => some (.binary .shiftLeft, 11)
  | .punct .gtGt => some (.binary .shiftRight, 11)
  | .punct .gtGtGt => some (.binary .shiftRightZero, 11)
  | .punct .plus => some (.binary .add, 12)
  | .punct .minus => some (.binary .sub, 12)
  | .punct .star => some (.binary .mul, 13)
  | .punct .slash => some (.binary .div, 13)
  | .punct .percent => some (.binary .mod, 13)
  | .punct .starStar => some (.binary .exp, 14)
  | _ => none

/-- The least precedence of the right operand: `**` groups to the right, all others to the
    left. -/
def Joint.rightPrecedence (j : Joint) (precedence : Nat) : Nat :=
  if j = .binary .exp then precedence else precedence + 1

/-- The expression that an operator makes. -/
def Joint.join (j : Joint) (left right : Expr) (span : Span) : Expr :=
  match j with
  | .binary op => .binary op left right span
  | .logical op => .logical op left right span

/-- The operator a token is before an operand. -/
def unaryOp? : Token.Kind → Option UnaryOp
  | .punct .minus => some .minus
  | .punct .plus => some .plus
  | .punct .bang => some .not
  | .punct .tilde => some .bitNot
  | .keyword .typeof_ => some .typeOf
  | .keyword .void_ => some .void
  | .keyword .delete_ => some .delete
  | _ => none

/-- `++` or `--`. -/
def updateOp? : Token.Kind → Option UpdateOp
  | .punct .plusPlus => some .increment
  | .punct .minusMinus => some .decrement
  | _ => none

/-- The assignment a token makes. -/
def assignOp? : Token.Kind → Option AssignOp
  | .punct .eq => some .assign
  | .punct .plusEq => some .add
  | .punct .minusEq => some .sub
  | .punct .starEq => some .mul
  | .punct .slashEq => some .div
  | .punct .percentEq => some .mod
  | .punct .starStarEq => some .exp
  | _ => none

/-! ### Primary expressions -/

/-- An argument or element, possibly spread, after the opening bracket or a comma. -/
def spreadOrAssignment : Parse Expr := do
  let start ← here
  if ← accept .dotDotDot then
    let e ← p.assignment
    return .spread e (← spanFrom start)
  else p.assignment

/-- The arguments of a call in parentheses. -/
def callArguments : Parse (List Expr) := do
  require .lparen
  let es ← commaUntil .rparen (spreadOrAssignment p)
  require .rparen
  return es

/-- An array literal. -/
def arrayLiteral : Parse Expr := do
  let start ← here
  require .lbracket
  let elements ← elementsUntilBracket (spreadOrAssignment p)
  require .rbracket
  return .array elements (← spanFrom start)

/-- An entry of an object literal that is not spread. -/
def property : Parse Property := do
  let start ← here
  let isAsync ← acceptAsyncMember
  let generator ← accept .star
  let kind ← (if isAsync || generator then pure .method else accessorKind)
  let key ← propertyKey p
  let c ← get
  if c.sees .lparen || c.sees .lt then
    let fn ← methodFunction p start isAsync generator
    return .entry key (.function fn) kind false true (← spanFrom start)
  else if ← accept .colon then
    let value ← p.assignment
    return .entry key value .method false false (← spanFrom start)
  else match key with
    | .ident id => return .entry key (.ident id) .method true false (← spanFrom start)
    | _ => reject "':'"

/-- An entry of an object literal. -/
def objectEntry : Parse Property := do
  let start ← here
  if ← accept .dotDotDot then
    let e ← p.assignment
    return .spread e (← spanFrom start)
  else property p

/-- An object literal. -/
def objectLiteral : Parse Expr := do
  let start ← here
  require .lbrace
  let properties ← commaUntil .rbrace (objectEntry p)
  require .rbrace
  return .object properties (← spanFrom start)

/-- Reads on a template literal at the brace that closes a substitution: the text of the next
    piece, and whether it is the last one. -/
def templatePiece : Parse (String × Bool) := do
  let c ← get
  if c.sees .rbrace then
    let (token, lexer) := c.lexer.resume c.current.span
    let next : Cursor := { c with lexer := lexer, current := token }
    match token.kind with
    | .template .middle s =>
      set next.advance
      return (s, false)
    | .template .tail s =>
      set next.advance
      return (s, true)
    | _ => fault "Unterminated template literal"
  else reject "'\x7d' in template literal"

/-- A template literal with substitutions, at its first piece. -/
def templateLiteral (start : Span) (first : String) : Parse Expr := do
  advance
  let (pieces, parts) ← repeating (fun (pieces, parts) => do
    let e ← nestedExpression p
    let (s, last) ← templatePiece
    let state := (s :: pieces, e :: parts)
    if last then return .inr state else return .inl state) ([first], [])
  return .template pieces.reverse parts.reverse (← spanFrom start)

/-- Reads what starts at a parenthesis as the parameters of an arrow function. The guess holds
    when they are parameters and an arrow or a return type follows, and otherwise leaves the
    cursor where it was. A bound that was met is no wrong guess. -/
def guessArrowParams : Parse (Option (List Param)) := fun c =>
  match params p c with
  | .ok (ps, after) =>
    if after.sees .arrow || after.sees .colon then .ok (some ps, after) else .ok (none, c)
  | .error d => if d.kind = .invariant then .error d else .ok (none, c)

/-- An arrow function with parameters in parentheses, or an expression in parentheses. -/
def parenthesized : Parse Expr := do
  let start ← here
  match ← guessArrowParams p with
  | some ps => arrowFrom p start false ps
  | none =>
    require .lparen
    let e ← nestedExpression p
    require .rparen
    return e

/-- What may follow the word `async` in an arrow function. `none` leaves the cursor where it
    was. -/
def asyncArrow? (start : Span) : Parse (Option Expr) := do
  let c ← get
  if c.newline then return none
  else if c.seesName && c.aheadIs .arrow then return some (← bareArrow p start true)
  else if c.sees .lparen then
    match ← guessArrowParams p with
    | some ps => return some (← arrowFrom p start true ps)
    | none => return none
  else return none

/-- An asynchronous function or arrow function, or the name `async`. -/
def asyncExpression : Parse Expr := do
  let c ← get
  let start := c.current.span
  if c.ahead.kind.isKeyword .function_ then
    advance
    functionExpression p start true
  else
    advance
    match ← asyncArrow? p start with
    | some e => return e
    | none =>
      set c
      return .ident (← bindingName)

/-- `new` with its class and arguments, or `new.target`. -/
def newExpression : Parse Expr := do
  let start ← here
  requireWord .new_
  if ← accept .dot then
    if ← seesNamed "target" then
      advance
      return .newTarget (← spanFrom start)
    else reject "'target'"
  else
    let callee ← p.member
    skipTypeArguments
    let es ← (do if ← sees .lparen then callArguments p else return [])
    return .new callee es (← spanFrom start)

/-- Takes the current token and gives the value. -/
def taking (e : Expr) : Parse Expr := do
  advance
  return e

/-- A primary expression. -/
def primary : Parse Expr := do
  let token := (← get).current
  let start := token.span
  match token.kind with
  | .number x => taking (.literal (.number x) start)
  | .string s => taking (.literal (.string s) start)
  | .keyword .true_ => taking (.literal (.boolean true) start)
  | .keyword .false_ => taking (.literal (.boolean false) start)
  | .keyword .null_ => taking (.literal .null start)
  | .keyword .this_ => taking (.this start)
  | .keyword .super_ => taking (.super start)
  | .keyword .new_ => newExpression p
  | .keyword .function_ => functionExpression p start false
  | .keyword .async_ => asyncExpression p
  | .keyword .class_ => classExpression p
  | .punct .lparen => parenthesized p
  | .punct .lbracket => arrayLiteral p
  | .punct .lbrace => objectLiteral p
  | .template .whole s => taking (.template [s] [] start)
  | .template .head s => templateLiteral p start s
  | .punct .slash | .punct .slashEq => fault "Regular expression literals are not supported"
  | _ => return .ident (← bindingName)

/-! ### Members and calls -/

/-- The member access of an expression that started at `start`. -/
def memberOf (start : Span) (object : Expr) (key : MemberKey) (optional : Bool) : Parse Expr := do
  return .member ⟨object, key, optional, ← spanFrom start⟩

/-- A member in brackets, after the opening one. -/
def indexedMember (start : Span) (object : Expr) (optional : Bool) : Parse Expr := do
  let e ← nestedExpression p
  require .rbracket
  memberOf start object (.index e) optional

/-- A member named after a point. -/
def namedMember (start : Span) (object : Expr) (optional : Bool) : Parse Expr := do
  let id ← memberName
  memberOf start object (.name id) optional

/-- A call of an expression that started at `start`. -/
def callOf (start : Span) (callee : Expr) (optional : Bool) : Parse Expr := do
  let es ← callArguments p
  return .call callee es optional (← spanFrom start)

/-- A primary expression with the members accessed on it, without calls. -/
def memberExpression : Parse Expr := do
  let start ← here
  let e ← primary p
  repeating (fun e => do
    if ← accept .dot then return .inl (← namedMember start e false)
    else if ← accept .lbracket then return .inl (← indexedMember p start e false)
    else return .inr e) e

/-- What may follow `?.`. -/
def optionalPart (start : Span) (e : Expr) : Parse Expr := do
  if ← sees .lparen then callOf p start e true
  else if ← accept .lbracket then indexedMember p start e true
  else namedMember start e true

/-- An expression with members, calls and type assertions on it. -/
def leftHandSide : Parse Expr := do
  let start ← here
  let e ← memberExpression p
  repeating (fun e => do
    let c ← get
    if c.sees .lparen then return .inl (← callOf p start e false)
    else if ← accept .dot then return .inl (← namedMember start e false)
    else if ← accept .lbracket then return .inl (← indexedMember p start e false)
    else if ← accept .questionDot then return .inl (← optionalPart p start e)
    else if c.sees .bang && !c.newline then
      advance
      return .inl e
    else if c.seesNamed "as" && !c.newline then
      advance
      skipType
      return .inl e
    else return .inr e) e

/-! ### Operators on expressions -/

/-- An expression with `++` or `--` after it, on the same line. -/
def postfixUpdate : Parse Expr := do
  let start ← here
  let e ← leftHandSide p
  let c ← get
  match (if c.newline then none else updateOp? c.current.kind) with
  | some op =>
    advance
    return .update op e false (← spanFrom start)
  | none => return e

/-- An expression with the operators before it. -/
def unary : Parse Expr := do
  let c ← get
  let start := c.current.span
  if c.seesWord .await_ then
    advance
    let e ← p.unary
    return .await e (← spanFrom start)
  else match unaryOp? c.current.kind with
    | some op =>
      advance
      let e ← p.unary
      return .unary op e (← spanFrom start)
    | none => match updateOp? c.current.kind with
      | some op =>
        advance
        let e ← p.unary
        return .update op e true (← spanFrom start)
      | none => postfixUpdate p

/-- Operands joined by operators of at least the given precedence. -/
def binary (least : Nat) : Parse Expr := do
  let start ← here
  let e ← unary p
  repeating (fun left => do
    match joint? (← get).current.kind with
    | some (j, precedence) =>
      if precedence < least then return .inr left
      else
        advance
        let right ← p.binary (j.rightPrecedence precedence)
        return .inl (j.join left right (← spanFrom start))
    | none => return .inr left) e

/-- A conditional expression, or operands joined by operators. -/
def conditional : Parse Expr := do
  let start ← here
  let test ← binary p 0
  if ← accept .question then
    let yes ← p.assignment
    require .colon
    let no ← p.assignment
    return .conditional test yes no (← spanFrom start)
  else return test

/-- The current token ends a `yield` without argument. -/
def endsYield (c : Cursor) : Bool :=
  [Punct.semicolon, .rbrace, .rparen, .comma].any c.sees || c.atEnd || c.newline

/-- A `yield` expression. -/
def yieldExpression : Parse Expr := do
  let start ← here
  requireWord .yield_
  let _ ← accept .star
  let argument ← (do
    if endsYield (← get) then return none else return some (← p.assignment))
  return .yield argument (← spanFrom start)

/-- An assignment, an arrow function or a conditional expression. -/
def assignment : Parse Expr := do
  let c ← get
  let start := c.current.span
  if c.seesWord .yield_ then yieldExpression p
  else if c.seesName && c.aheadIs .arrow then bareArrow p start false
  else
    let e ← conditional p
    match assignOp? (← get).current.kind with
    | some op =>
      advance
      let value ← p.assignment
      match e.toTarget with
      | .ok target => return .assign op target value (← spanFrom start)
      | .error d => throw d
    | none => return e

/-- An expression at the start of a statement. -/
def expression : Parse Expr :=
  sequenceFrom p (assignment p)

end PackScript.Parse
