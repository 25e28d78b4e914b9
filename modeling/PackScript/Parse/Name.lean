import PackScript.Parse.Cursor
import PackScript.Tree.Basic

namespace PackScript.Parse

/-!
# Names

A binding has a name that is no keyword, except for three keywords that keep their meaning as
names. After a point every keyword is a name.
-/

/-- Keywords that may name a binding. -/
def isContextual : Keyword → Bool
  | .of_ | .async_ | .static_ => true
  | _ => false

/-- The name of a binding. -/
def bindingName : Parse Ident := do
  let token := (← get).current
  match token.kind with
  | .ident name =>
    advance
    return ⟨name, token.span⟩
  | .keyword k =>
    if isContextual k then
      advance
      return ⟨k.text, token.span⟩
    else reject "identifier"
  | _ => reject "identifier"

/-- The name of a member, where keywords are names too. -/
def memberName : Parse Ident := do
  let token := (← get).current
  match token.kind with
  | .ident name =>
    advance
    return ⟨name, token.span⟩
  | .keyword k =>
    advance
    return ⟨k.text, token.span⟩
  | _ => reject "identifier"

/-- The token after the current one shows that the current one is the name of a member. -/
def endsMemberName (c : Cursor) : Bool :=
  [Punct.lparen, .eq, .semicolon, .colon, .question, .comma, .rbrace].any c.aheadIs

/-- Words before a member or parameter that have no effect. -/
def modifiers : List String :=
  ["public", "private", "protected", "readonly", "abstract", "override", "declare"]

/-- The current token is a modifier and not a name itself. -/
def seesModifier (c : Cursor) : Bool :=
  match c.current.kind with
  | .ident name => modifiers.contains name && !endsMemberName c && !c.aheadIs .rparen
  | _ => false

/-- Passes over modifiers. -/
def skipModifiers : Parse Unit :=
  repeating (fun _ => do
    if seesModifier (← get) then
      advance
      return .inl ()
    else return .inr ()) ()

end PackScript.Parse
