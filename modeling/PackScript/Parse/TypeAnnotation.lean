import PackScript.Parse.Name

namespace PackScript.Parse

/-!
# Type annotations

Types have no effect on a script and are passed over: a type is read only as far as needed to
find its end.
-/

/-- One round of `skipBalanced`: the nesting depth after the current token. -/
def balancedDepth (c : Cursor) (opening closing : Punct) (depth : Nat) : Nat :=
  if c.sees opening then depth + 1
  else if c.sees closing then depth - 1
  else depth

/-- Passes over everything from an opening punctuator to the closing one that matches it. -/
def skipBalanced (opening closing : Punct) : Parse Unit := do
  require opening
  repeating (fun depth => do
    if depth = 0 then return .inr ()
    else
      let c ← get
      if c.atEnd then reject closing.label
      else
        advance
        return .inl (balancedDepth c opening closing depth)) 1

/-- The nesting depth of angle brackets after a token; a shift closes two or three. -/
def angleDepth (kind : Token.Kind) (depth : Nat) : Nat :=
  match kind with
  | .punct .lt => depth + 1
  | .punct .gt => depth - 1
  | .punct .gtGt => depth - 2
  | .punct .gtGtGt => depth - 3
  | _ => depth

/-- Passes over type arguments or parameters in angle brackets, if any. -/
def skipTypeArguments : Parse Unit := do
  if ← accept .lt then
    repeating (fun depth => do
      if depth = 0 then return .inr ()
      else
        let c ← get
        if c.atEnd then reject "'>'"
        else
          advance
          return .inl (angleDepth c.current.kind depth)) 1
  else return ()

/-- Passes over a name with points in it. -/
def skipQualifiedName : Parse Unit := do
  let _ ← memberName
  repeating (fun _ => do
    if ← accept .dot then
      let _ ← memberName
      return .inl ()
    else return .inr ()) ()

/-- Passes over the brackets that make a type an array or an access to a type. -/
def skipArraySuffixes : Parse Unit :=
  repeating (fun _ => do
    let c ← get
    if c.sees .lbracket && !c.newline then
      skipBalanced .lbracket .rbracket
      return .inl ()
    else return .inr ()) ()

/-- The current token is `|` or `&`. -/
def seesTypeJoint (c : Cursor) : Bool :=
  c.sees .pipe || c.sees .amp

/-- Passes over types joined by `|` and `&`, given how to pass over one of them. -/
def skipJoined (single : Parse Unit) : Parse Unit := do
  if seesTypeJoint (← get) then advance
  single
  repeating (fun _ => do
    if seesTypeJoint (← get) then
      advance
      single
      return .inl ()
    else return .inr ()) ()

/-- The current token is a word before a type, and not a type itself. -/
def seesTypeOperator (c : Cursor) : Bool :=
  (c.seesNamed "keyof" || c.seesNamed "readonly" || c.seesNamed "unique") &&
    !([Punct.comma, .rparen, .eq, .semicolon].any c.aheadIs)

/-- Passes over one type without joints, at most `fuel` types deep. -/
def skipSingle : Nat → Parse Unit
  | 0 => exhausted
  | fuel + 1 => do
    let c ← get
    match c.current.kind with
    | .punct .lparen =>
      skipBalanced .lparen .rparen
      if ← accept .arrow then skipJoined (skipSingle fuel)
      skipArraySuffixes
    | .punct .lbrace =>
      skipBalanced .lbrace .rbrace
      skipArraySuffixes
    | .punct .lbracket =>
      skipBalanced .lbracket .rbracket
      skipArraySuffixes
    | .keyword .typeof_ =>
      advance
      skipQualifiedName
      skipArraySuffixes
    | .keyword .new_ =>
      advance
      skipSingle fuel
      skipArraySuffixes
    | .string _ | .number _ | .keyword .true_ | .keyword .false_ | .keyword .null_
    | .keyword .void_ | .keyword .this_ | .template .whole _ =>
      advance
      skipArraySuffixes
    | .punct .minus =>
      advance
      match (← get).current.kind with
      | .number _ =>
        advance
        skipArraySuffixes
      | _ => reject "number literal type"
    | _ =>
      if seesTypeOperator c then
        advance
        skipSingle fuel
      else
        skipQualifiedName
        skipTypeArguments
        skipArraySuffixes

/-- Passes over a type. -/
def skipType : Parse Unit := do
  skipJoined (skipSingle (← get).budget)

/-- Passes over types with commas between them. -/
def skipTypes : Parse Unit := do
  skipType
  let _ ← afterCommas skipType

/-- Passes over a type after a colon, if any. -/
def skipAnnotation : Parse Unit := do
  if ← accept .colon then skipType

/-- Passes over the type that a function returns, if any. -/
def skipReturnType : Parse Unit := do
  if ← accept .colon then
    skipType
    if ← seesNamed "is" then
      advance
      skipType

/-- Passes over the declaration of a type or an interface, and gives its extent; `none` when the
    cursor is not at one. -/
def skipTypeDeclaration : Parse (Option Span) := do
  let c ← get
  let start := c.current.span
  let isAlias := c.seesNamed "type"
  let next := c.ahead
  let named := match next.kind with
    | .ident _ => next.span.line == start.line
    | _ => false
  if (isAlias || c.seesNamed "interface") && named then
    advance
    let _ ← bindingName
    skipTypeArguments
    if isAlias then
      require .eq
      skipType
      endStatement
    else
      if ← acceptWord .extends_ then skipTypes
      skipBalanced .lbrace .rbrace
    return some (← spanFrom start)
  else return none

end PackScript.Parse
