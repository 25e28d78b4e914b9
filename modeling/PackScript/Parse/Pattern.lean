import PackScript.Parse.Nested
import PackScript.Parse.TypeAnnotation

namespace PackScript.Parse

/-!
# Patterns and parameters
-/

variable (p : Nested)

/-- An expression in brackets as the name of a property, after the opening bracket. -/
def computedKey : Parse PropertyKey := do
  let e ← p.assignment
  require .rbracket
  return .computed e

/-- The name of a property. -/
def propertyKey : Parse PropertyKey := do
  let token := (← get).current
  match token.kind with
  | .string s =>
    advance
    return .string s token.span
  | .number x =>
    advance
    return .number x token.span
  | .punct .lbracket =>
    advance
    computedKey p
  | _ => return .ident (← memberName)

/-- A default value after `=`, if any, for a pattern that started at `start`. -/
def withDefaultFrom (start : Span) (pattern : Pattern) : Parse Pattern := do
  if ← accept .eq then
    let e ← p.assignment
    return .withDefault pattern e (← spanFrom start)
  else return pattern

/-- A pattern with an optional default value, after the first token of the enclosing pattern. -/
def bindingElement : Parse Pattern := do
  let start ← here
  let pattern ← p.pattern
  withDefaultFrom p start pattern

/-- The rest of a pattern after `...`: its argument and extent. -/
def restElement : Parse (Pattern × Span) := do
  let start ← here
  require .dotDotDot
  let argument ← p.pattern
  return (argument, ← spanFrom start)

/-- An entry of an object pattern. -/
def patternProperty : Parse PatternProperty := do
  if ← sees .dotDotDot then
    let (argument, span) ← restElement p
    return .rest argument span
  else
    let start ← here
    let key ← propertyKey p
    let value ← (do
      if ← accept .colon then bindingElement p
      else match key with
        | .ident id => withDefaultFrom p start (.ident id)
        | _ => fault "Shorthand pattern requires an identifier")
    return .entry key value (← spanFrom start)

/-- An object pattern. -/
def objectPattern : Parse Pattern := do
  let start ← here
  require .lbrace
  let properties ← commaUntil .rbrace (patternProperty p)
  require .rbrace
  return .object properties (← spanFrom start)

/-- An element of an array pattern or literal up to its comma: a hole, or what `element` reads.
    The flag says whether another one may follow. -/
def holeOr {α : Type} (element : Parse α) : Parse (Option α × Bool) := do
  if ← accept .comma then return (none, true)
  else
    let a ← element
    return (some a, ← accept .comma)

/-- Elements with holes among them, up to the closing bracket, which is not taken. -/
def elementsUntilBracket {α : Type} (element : Parse α) : Parse (List (Option α)) :=
  repeating (fun taken => do
    let c ← get
    if c.sees .rbracket || c.atEnd then return .inr taken.reverse
    else
      let (a, more) ← holeOr element
      if more then return .inl (a :: taken) else return .inr (a :: taken).reverse) []

/-- An element of an array pattern. -/
def patternElement : Parse Pattern := do
  if ← sees .dotDotDot then
    let (argument, span) ← restElement p
    return .rest argument span
  else bindingElement p

/-- An array pattern. -/
def arrayPattern : Parse Pattern := do
  let start ← here
  require .lbracket
  let elements ← elementsUntilBracket (patternElement p)
  require .rbracket
  return .array elements (← spanFrom start)

/-- A pattern without default value. -/
def bindingPattern : Parse Pattern := do
  let c ← get
  if c.sees .lbrace then objectPattern p
  else if c.sees .lbracket then arrayPattern p
  else return .ident (← bindingName)

/-- A parameter of a function. -/
def param : Parse Param := do
  let start ← here
  skipModifiers
  if ← sees .dotDotDot then
    let (argument, _) ← restElement p
    skipAnnotation
    let span ← spanFrom start
    return ⟨.rest argument span, span⟩
  else
    let pattern ← bindingPattern p
    let _ ← accept .question
    skipAnnotation
    let pattern ← withDefaultFrom p start pattern
    return ⟨pattern, ← spanFrom start⟩

/-- The parameters of a function in parentheses. -/
def params : Parse (List Param) := do
  require .lparen
  let ps ← commaUntil .rparen (param p)
  require .rparen
  return ps

end PackScript.Parse
