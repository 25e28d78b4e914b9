import PackScript.Token.Lexer
import PackScript.Diagnostic

namespace PackScript

/-!
# Reading a token stream

A `Cursor` is a place between two tokens with one token of lookahead. A parser is a function of
the cursor that fails with a diagnostic or gives a value and the cursor behind it, so going back
to an earlier place is going on from an earlier cursor.

Loops run through `repeating`, which allows one round for every byte ahead and one more. A round
that goes on takes at least a token, so the bound is never met.
-/

/-- A place in the token stream of a source text. -/
structure Cursor where
  /-- Behind the current token -/
  lexer : Lexer
  current : Token
  previous : Token
  /-- Length of the source text in bytes -/
  size : Nat
deriving Repr, Inhabited

namespace Cursor

/-- The start of a text. -/
def ofText (s : String) : Cursor :=
  let (token, lexer) := (Lexer.ofText s).next
  { lexer := lexer
    current := token
    previous := ⟨.eof, .origin⟩
    size := s.utf8ByteSize }

/-- One token further. -/
def advance (c : Cursor) : Cursor :=
  let (token, lexer) := c.lexer.next
  { c with lexer := lexer, current := token, previous := c.current }

/-- The token after the current one. -/
def ahead (c : Cursor) : Token :=
  c.lexer.next.1

/-- The token after the current one is the punctuator. -/
def aheadIs (c : Cursor) (mark : Punct) : Bool :=
  c.ahead.kind.isPunct mark

/-- The current token is the punctuator. -/
def sees (c : Cursor) (mark : Punct) : Bool :=
  c.current.kind.isPunct mark

/-- The current token is the keyword. -/
def seesWord (c : Cursor) (word : Keyword) : Bool :=
  c.current.kind.isKeyword word

/-- The current token is some name. -/
def seesName (c : Cursor) : Bool :=
  match c.current.kind with
  | .ident _ => true
  | _ => false

/-- The current token is the given name. -/
def seesNamed (c : Cursor) (name : String) : Bool :=
  match c.current.kind with
  | .ident s => s == name
  | _ => false

/-- The current token is the end of the text. -/
def atEnd (c : Cursor) : Bool :=
  match c.current.kind with
  | .eof => true
  | _ => false

/-- A line feed stood before the current token. -/
def newline (c : Cursor) : Bool :=
  c.lexer.newline

/-- The extent from `start` to the end of the token before the current one. -/
def spanFrom (c : Cursor) (start : Span) : Span :=
  ⟨start.start, max c.previous.span.stop start.start, start.line, start.column⟩

/-- One round for every byte from the current token on, and one more. -/
def budget (c : Cursor) : Nat :=
  c.size - c.current.span.start + 1

/-- What is wrong when the current token cannot stand here. -/
def unexpected (c : Cursor) (expected : String) : Diagnostic :=
  let fault : Fault := match c.current.kind with
    | .invalid char => .invalidToken char
    | kind => .unexpected kind expected
  ⟨.malformed fault, .ofSpan c.current.span⟩

end Cursor

/-- A parser: a failure, or a value and the cursor behind it. -/
abbrev Parse := StateT Cursor (Except Diagnostic)

namespace Parse

variable {α β σ : Type}

/-! ### Failing -/

/-- The current token cannot stand here. -/
def reject (expected : String) : Parse α := fun c =>
  .error (c.unexpected expected)

/-- The text is wrong at the current token. -/
def fault (message : String) : Parse α := fun c =>
  .error (.malformed message c.current.span)

/-- The bound on nesting or rounds was met. -/
def exhausted : Parse α := fun c =>
  .error (.invariant "nesting exceeds the length of the source" c.current.span)

/-! ### Looking -/

/-- The extent of the current token. -/
def here : Parse Span := do
  return (← get).current.span

/-- The extent from `start` to the end of the token before the current one. -/
def spanFrom (start : Span) : Parse Span := do
  return (← get).spanFrom start

/-- The current token is the punctuator. -/
def sees (mark : Punct) : Parse Bool := do
  return (← get).sees mark

/-- The current token is the keyword. -/
def seesWord (word : Keyword) : Parse Bool := do
  return (← get).seesWord word

/-- The current token is some name. -/
def seesName : Parse Bool := do
  return (← get).seesName

/-- The current token is the given name. -/
def seesNamed (name : String) : Parse Bool := do
  return (← get).seesNamed name

/-- A line feed stood before the current token. -/
def newlineBefore : Parse Bool := do
  return (← get).newline

/-! ### Moving -/

/-- One token further. -/
def advance : Parse Unit :=
  modify Cursor.advance

/-- Takes the punctuator if it is there. -/
def accept (mark : Punct) : Parse Bool := do
  if ← sees mark then
    advance
    return true
  else return false

/-- Takes the keyword if it is there. -/
def acceptWord (word : Keyword) : Parse Bool := do
  if ← seesWord word then
    advance
    return true
  else return false

/-- Takes the punctuator, which has to be there. -/
def require (mark : Punct) : Parse Unit := do
  if ← sees mark then advance else reject mark.label

/-- Takes the keyword, which has to be there. -/
def requireWord (word : Keyword) : Parse Unit := do
  if ← seesWord word then advance else reject word.label

/-- The end of a statement: a semicolon, or a place where one may be left out. -/
def endStatement : Parse Unit := do
  let c ← get
  if c.sees .semicolon then advance
  else if c.atEnd || c.sees .rbrace || c.newline then return ()
  else reject "';'"

/-! ### Repeating -/

/-- Runs `step` on a state until it gives a result, at most `fuel` times. -/
def loop (step : σ → Parse (σ ⊕ β)) : Nat → σ → Parse β
  | 0, _ => exhausted
  | fuel + 1, state => do
    match ← step state with
    | .inl next => loop step fuel next
    | .inr result => return result

/-- Runs `step` on a state until it gives a result. A step that goes on takes a token. -/
def repeating (step : σ → Parse (σ ⊕ β)) (state : σ) : Parse β := do
  loop step (← get).budget state

/-- Elements as long as the cursor does not stop. -/
def manyUntil (stops : Cursor → Bool) (element : Parse α) : Parse (List α) :=
  repeating (fun taken => do
    if stops (← get) then return .inr taken.reverse
    else return .inl ((← element) :: taken)) []

/-- Elements with commas between them, up to a closing punctuator, which is not taken. The last
    element may have a comma too. -/
def commaUntil (close : Punct) (element : Parse α) : Parse (List α) :=
  repeating (fun taken => do
    let c ← get
    if c.sees close || c.atEnd then return .inr taken.reverse
    else
      let taken := (← element) :: taken
      if ← accept .comma then return .inl taken else return .inr taken.reverse) []

/-- Elements, each after a comma. -/
def afterCommas (element : Parse α) : Parse (List α) :=
  repeating (fun taken => do
    if ← accept .comma then return .inl ((← element) :: taken)
    else return .inr taken.reverse) []

end Parse

end PackScript
