import PackScript.Token.Basic
import PackScript.Decimal.Read
import PackScript.Text.Letter
import PackScript.Text.Numeral

namespace PackScript

/-!
# Reading tokens

The lexical grammar is a function from the characters ahead to a token kind and the number of
characters it takes; where a token lies follows from these characters. A `Lexer` is a place in a
source text, and `Lexer.next` reads one token from it.

* `gapAhead` — blanks and comments before a token.
* `scanToken` — one token.
* `Lexer.next`, `Lexer.resume` — the next token, and the continuation of a template literal.
-/

/-! ### Blanks and comments -/

/-- Characters that separate tokens. -/
def isGapChar (c : Char) : Bool :=
  c == ' ' || c == '\t' || c == '\r' || c == '\n' || c == '\x0b' || c == '\x0c' ||
    c == '\u00a0' || c == '\ufeff'

/-- Where in a gap the reader is. -/
inductive GapMode where
  | blank
  | lineComment
  | blockComment
deriving Repr, DecidableEq

/-- The number of characters of the gap, of which `taken` were taken before, and whether a line feed
    was `seen` among them. A line comment ends before its line feed, a block comment that is not
    closed takes all. -/
def gapFrom (taken : Nat) (seen : Bool) : GapMode → List Char → Nat × Bool
  | _, [] => (taken, seen)
  | .blank, '/' :: '/' :: cs => gapFrom (taken + 2) seen .lineComment cs
  | .blank, '/' :: '*' :: cs => gapFrom (taken + 2) seen .blockComment cs
  | .blank, c :: cs =>
    if c = '\n' then gapFrom (taken + 1) true .blank cs
    else if isGapChar c then gapFrom (taken + 1) seen .blank cs
    else (taken, seen)
  | .lineComment, c :: cs =>
    if c = '\n' then gapFrom (taken + 1) true .blank cs
    else gapFrom (taken + 1) seen .lineComment cs
  | .blockComment, '*' :: '/' :: cs => gapFrom (taken + 2) seen .blank cs
  | .blockComment, c :: cs =>
    if c = '\n' then gapFrom (taken + 1) true .blockComment cs
    else gapFrom (taken + 1) seen .blockComment cs

/-- The number of characters of the gap ahead, and whether a line feed is among them. -/
def gapAhead (cs : List Char) : Nat × Bool :=
  gapFrom 0 false .blank cs

/-! ### Strings and templates -/

/-- What encloses a text: two equal quotes, or the marks of a template literal. -/
inductive TextForm where
  | quotes (quote : Char)
  | template
deriving Repr, DecidableEq

/-- How a text ends. -/
inductive TextEnd where
  /-- At the closing mark -/
  | closed
  /-- At the start of a substitution -/
  | substitution
  /-- At a line feed or the end of the source -/
  | unterminated
  /-- In an escape that stands for no character -/
  | malformed
deriving Repr, DecidableEq

/-- Where in a text the reader is: in plain characters, after a backslash, after `\u`, or inside
    a hexadecimal escape with the number of digits still to come, or in braces. -/
inductive TextMode where
  | plain
  | escape
  | unicode
  | hex (left : Nat) (value : Nat)
  | braced (digits : Nat) (value : Nat)
deriving Repr, DecidableEq

/-- The character of a code point, unless it is a surrogate or too large. -/
def charOfCode? (n : Nat) : Option Char :=
  if h : n.isValidChar then some (Char.ofNatAux n h) else none

/-- The character a one-letter escape stands for. -/
def simpleEscape (c : Char) : Char :=
  match c with
  | 'n' => '\n'
  | 'r' => '\r'
  | 't' => '\t'
  | 'b' => '\x08'
  | 'f' => '\x0c'
  | 'v' => '\x0b'
  | c => c

/-- The text starts with a decimal digit. -/
def startsWithDigit : List Char → Bool
  | c :: _ => isDecimalDigit c
  | [] => false

/-- Reads the inside of a string or template: how it ends, its value, and the number of characters
    up to there with the closing mark. The value is collected backwards in `value`, and `taken`
    characters were taken before. -/
def scanText (form : TextForm) (taken : Nat) (value : List Char) :
    TextMode → List Char → TextEnd × List Char × Nat
  | .plain, [] => (.unterminated, value.reverse, taken)
  | .plain, c :: cs =>
    if c = '\\' then scanText form (taken + 1) value .escape cs
    else match form with
      | .quotes quote =>
        if c = quote then (.closed, value.reverse, taken + 1)
        else if c = '\n' then (.unterminated, value.reverse, taken + 1)
        else scanText form (taken + 1) (c :: value) .plain cs
      | .template =>
        if c = '\x60' then (.closed, value.reverse, taken + 1)
        else if c = '$' ∧ cs.head? = some '\x7b' then (.substitution, value.reverse, taken + 2)
        else scanText form (taken + 1) (c :: value) .plain cs
  | .escape, [] => (.malformed, value.reverse, taken)
  | .escape, c :: cs =>
    if c = 'x' then scanText form (taken + 1) value (.hex 2 0) cs
    else if c = 'u' then scanText form (taken + 1) value .unicode cs
    else if c = '\n' then scanText form (taken + 1) value .plain cs
    else if c = '0' then
      scanText form (taken + 1) ((if startsWithDigit cs then '0' else '\x00') :: value) .plain cs
    else if '1' ≤ c ∧ c ≤ '9' then (.malformed, value.reverse, taken + 1)
    else scanText form (taken + 1) (simpleEscape c :: value) .plain cs
  | .unicode, [] => (.malformed, value.reverse, taken)
  | .unicode, c :: cs =>
    if c = '\x7b' then scanText form (taken + 1) value (.braced 0 0) cs
    else match hexDigitValue? c with
      | some d => scanText form (taken + 1) value (.hex 3 d) cs
      | none => (.malformed, value.reverse, taken)
  | .hex _ _, [] => (.malformed, value.reverse, taken)
  | .hex left code, c :: cs =>
    match hexDigitValue? c with
    | none => (.malformed, value.reverse, taken)
    | some d =>
      if 1 < left then scanText form (taken + 1) value (.hex (left - 1) (code * 16 + d)) cs
      else match charOfCode? (code * 16 + d) with
        | some ch => scanText form (taken + 1) (ch :: value) .plain cs
        | none => (.malformed, value.reverse, taken + 1)
  | .braced _ _, [] => (.malformed, value.reverse, taken)
  | .braced digits code, c :: cs =>
    match hexDigitValue? c with
    | some d => scanText form (taken + 1) value (.braced (digits + 1) (code * 16 + d)) cs
    | none =>
      if c ≠ '\x7d' then (.malformed, value.reverse, taken)
      else match (if digits = 0 then none else charOfCode? code) with
        | some ch => scanText form (taken + 1) (ch :: value) .plain cs
        | none => (.malformed, value.reverse, taken + 1)

/-- A string literal with its opening quote, which stands before the characters. -/
def scanString (quote : Char) (cs : List Char) : Token.Kind × Nat :=
  match scanText (.quotes quote) 1 [] .plain cs with
  | (.malformed, _, taken) => (.invalid '\\', taken)
  | (.unterminated, _, taken) => (.invalid quote, taken)
  | (_, value, taken) => (.string (String.ofList value), taken)

/-- A piece of a template literal, the first one iff `opening`, with the mark before the
    characters. -/
def scanTemplate (opening : Bool) (cs : List Char) : Token.Kind × Nat :=
  match scanText .template 1 [] .plain cs with
  | (.malformed, _, taken) => (.invalid '\\', taken)
  | (.unterminated, _, taken) => (.invalid '\x60', taken)
  | (.closed, value, taken) =>
    (.template (if opening then .whole else .tail) (String.ofList value), taken)
  | (.substitution, value, taken) =>
    (.template (if opening then .head else .middle) (String.ofList value), taken)

/-! ### Numbers -/

/-- Digits of a class ahead, with the underscores between them. -/
def digitRun (isDigit : Char → Bool) (cs : List Char) : List Char :=
  cs.takeWhile fun c => isDigit c || c == '_'

/-- A literal without its underscores. -/
def withoutUnderscores (cs : List Char) : List Char :=
  cs.filter (· != '_')

/-- The radix that a letter after a leading zero selects. -/
def radixOf? (c : Char) : Option Nat :=
  if c = 'x' ∨ c = 'X' then some 16
  else if c = 'o' ∨ c = 'O' then some 8
  else if c = 'b' ∨ c = 'B' then some 2
  else none

/-- The character is a digit of the radix. -/
def isDigitOf (radix : Nat) (c : Char) : Bool :=
  match hexDigitValue? c with
  | some d => d < radix
  | none => false

/-- An integer in another radix, after the zero and the letter that select it. Without digits, or
    beyond 63 bits, it is no literal. -/
def scanRadix (radix : Nat) (cs : List Char) : Token.Kind × Nat :=
  let run := digitRun (isDigitOf radix) cs
  let digits := withoutUnderscores run
  let value := digitsValue radix (fun c => (hexDigitValue? c).getD 0) digits
  let kind := if digits.isEmpty ∨ 1 <<< 63 ≤ value then .invalid '0'
    else .number (doubleOfNat value)
  (kind, run.length + 2)

/-- The fraction of a decimal literal, from its point on. -/
def fractionRun : List Char → List Char
  | '.' :: cs => '.' :: digitRun isDecimalDigit cs
  | _ => []

/-- The sign of an exponent. -/
def signRun : List Char → List Char
  | c :: _ => if c = '+' ∨ c = '-' then [c] else []
  | [] => []

/-- The exponent of a decimal literal, from its mark on. -/
def exponentRun : List Char → List Char
  | c :: cs =>
    if c = 'e' ∨ c = 'E' then
      let sign := signRun cs
      c :: (sign ++ digitRun isDecimalDigit (cs.drop sign.length))
    else []
  | [] => []

/-- What follows the first character of a decimal literal, which is a digit or a point: digits,
    a fraction unless the point came first, and an exponent. -/
def decimalRun (first : Char) (cs : List Char) : List Char :=
  let whole := digitRun isDecimalDigit cs
  let rest := cs.drop whole.length
  let fraction := if first = '.' then [] else fractionRun rest
  whole ++ fraction ++ exponentRun (rest.drop fraction.length)

/-- A decimal literal from its first character on. A literal that is not complete has no value. -/
def scanDecimal (first : Char) (cs : List Char) : Token.Kind × Nat :=
  let run := decimalRun first cs
  (.number ((readDouble (withoutUnderscores (first :: run))).getD (0.0 / 0.0)), run.length + 1)

/-- A number literal from its first digit on. -/
def scanNumber (first : Char) (cs : List Char) : Token.Kind × Nat :=
  match cs with
  | c :: rest =>
    match (if first = '0' then radixOf? c else none) with
    | some radix => scanRadix radix rest
    | none => scanDecimal first cs
  | [] => scanDecimal first cs

/-! ### Names -/

/-- The character can start a name. -/
def isNameStart (c : Char) : Bool :=
  c == '_' || c == '$' || Text.isLetter c

/-- The character can go on a name. -/
def isNamePart (c : Char) : Bool :=
  c == '_' || c == '$' || Text.isLetter c || Text.isNumeral c

/-- A name or keyword from its first character on. -/
def scanWord (first : Char) (cs : List Char) : Token.Kind × Nat :=
  let run := cs.takeWhile isNamePart
  let word := String.ofList (first :: run)
  let kind := match Keyword.ofText? word with
    | some k => .keyword k
    | none => .ident word
  (kind, run.length + 1)

/-! ### Punctuators -/

/-- The longest punctuator at the head of the text, and its length. A question mark before a point
    and a digit belongs to a conditional, not to a chain. -/
def scanPunct? : List Char → Option (Punct × Nat)
  | '(' :: _ => some (.lparen, 1)
  | ')' :: _ => some (.rparen, 1)
  | '\x7b' :: _ => some (.lbrace, 1)
  | '\x7d' :: _ => some (.rbrace, 1)
  | '[' :: _ => some (.lbracket, 1)
  | ']' :: _ => some (.rbracket, 1)
  | ',' :: _ => some (.comma, 1)
  | ';' :: _ => some (.semicolon, 1)
  | '~' :: _ => some (.tilde, 1)
  | ':' :: _ => some (.colon, 1)
  | '.' :: '.' :: '.' :: _ => some (.dotDotDot, 3)
  | '.' :: _ => some (.dot, 1)
  | '+' :: '+' :: _ => some (.plusPlus, 2)
  | '+' :: '=' :: _ => some (.plusEq, 2)
  | '+' :: _ => some (.plus, 1)
  | '-' :: '-' :: _ => some (.minusMinus, 2)
  | '-' :: '=' :: _ => some (.minusEq, 2)
  | '-' :: _ => some (.minus, 1)
  | '*' :: '*' :: '=' :: _ => some (.starStarEq, 3)
  | '*' :: '*' :: _ => some (.starStar, 2)
  | '*' :: '=' :: _ => some (.starEq, 2)
  | '*' :: _ => some (.star, 1)
  | '/' :: '=' :: _ => some (.slashEq, 2)
  | '/' :: _ => some (.slash, 1)
  | '%' :: '=' :: _ => some (.percentEq, 2)
  | '%' :: _ => some (.percent, 1)
  | '=' :: '=' :: '=' :: _ => some (.eqEqEq, 3)
  | '=' :: '=' :: _ => some (.eqEq, 2)
  | '=' :: '>' :: _ => some (.arrow, 2)
  | '=' :: _ => some (.eq, 1)
  | '!' :: '=' :: '=' :: _ => some (.bangEqEq, 3)
  | '!' :: '=' :: _ => some (.bangEq, 2)
  | '!' :: _ => some (.bang, 1)
  | '<' :: '<' :: _ => some (.ltLt, 2)
  | '<' :: '=' :: _ => some (.ltEq, 2)
  | '<' :: _ => some (.lt, 1)
  | '>' :: '>' :: '>' :: _ => some (.gtGtGt, 3)
  | '>' :: '>' :: _ => some (.gtGt, 2)
  | '>' :: '=' :: _ => some (.gtEq, 2)
  | '>' :: _ => some (.gt, 1)
  | '&' :: '&' :: _ => some (.ampAmp, 2)
  | '&' :: _ => some (.amp, 1)
  | '|' :: '|' :: _ => some (.pipePipe, 2)
  | '|' :: _ => some (.pipe, 1)
  | '^' :: _ => some (.caret, 1)
  | '?' :: '?' :: _ => some (.questionQuestion, 2)
  | '?' :: '.' :: cs =>
    if startsWithDigit cs then some (.question, 1) else some (.questionDot, 2)
  | '?' :: _ => some (.question, 1)
  | _ => none

/-! ### Tokens -/

/-- The token that starts with the character, and the number of its characters. -/
def scanToken (c : Char) (cs : List Char) : Token.Kind × Nat :=
  if c = '"' ∨ c = '\'' then scanString c cs
  else if c = '\x60' then scanTemplate true cs
  else if isDecimalDigit c then scanNumber c cs
  else if c = '.' ∧ startsWithDigit cs then scanDecimal c cs
  else match scanPunct? (c :: cs) with
    | some (mark, taken) => (.punct mark, taken)
    | none => if isNameStart c then scanWord c cs else (.invalid c, 1)

/-- A place in a source text, where the last token ended. -/
structure Lexer where
  /-- The whole text -/
  source : List Char
  /-- The characters ahead -/
  rest : List Char
  position : Position
  /-- A line feed stood before the token read last -/
  newline : Bool
deriving Repr, Inhabited

namespace Lexer

/-- The start of a text. -/
def ofText (s : String) : Lexer :=
  ⟨s.toList, s.toList, .start, false⟩

/-- Moves ahead over so many characters. -/
def move (l : Lexer) (n : Nat) : Lexer :=
  { l with rest := l.rest.drop n, position := l.position.past (l.rest.take n) }

/-- Moves over blanks and comments, and notes whether a line feed was among them. -/
def skip (l : Lexer) : Lexer :=
  let (n, seen) := gapAhead l.rest
  { l.move n with newline := seen }

/-- Reads the next token. -/
def next (l : Lexer) : Token × Lexer :=
  let l := l.skip
  match l.rest with
  | [] => (⟨.eof, .fromPosition l.position l.position.offset⟩, l)
  | c :: cs =>
    let (kind, taken) := scanToken c cs
    let after := l.move taken
    (⟨kind, .fromPosition l.position after.position.offset⟩, after)

/-- The characters after the first `n` bytes, none when a character lies across that place. -/
def dropBytes : Nat → List Char → List Char
  | 0, cs => cs
  | _, [] => []
  | n + 1, c :: cs => if c.utf8Size ≤ n + 1 then dropBytes (n + 1 - c.utf8Size) cs else []

/-- Reads on the template literal whose substitution is closed by the brace at `brace`. The
    piece starts with the brace. -/
def resume (l : Lexer) (brace : Span) : Token × Lexer :=
  let l := { l with
    rest := dropBytes brace.stop l.source
    position := ⟨brace.stop, brace.line, wrap32 (brace.column + 1)⟩ }
  let (kind, taken) := scanTemplate false l.rest
  let after := l.move (taken - 1)
  (⟨kind, ⟨brace.start, after.position.offset, brace.line, brace.column⟩⟩, after)

/-- What is kept of a lexer to go back to it. -/
structure Checkpoint where
  position : Position
  newline : Bool
deriving Repr, DecidableEq

def checkpoint (l : Lexer) : Checkpoint :=
  ⟨l.position, l.newline⟩

/-- Goes back to a checkpoint. The characters ahead of it are found by its offset. -/
def restore (l : Lexer) (saved : Checkpoint) : Lexer :=
  { l with
    rest := dropBytes saved.position.offset l.source
    position := saved.position
    newline := saved.newline }

/-- Reads tokens up to the end of the text, each with the mark whether a line feed stood before
    it. `fuel` bounds their number. -/
def tokensFrom (l : Lexer) : Nat → List (Token × Bool)
  | 0 => []
  | fuel + 1 =>
    let (token, after) := l.next
    match token.kind with
    | .eof => [(token, after.newline)]
    | _ => (token, after.newline) :: after.tokensFrom fuel

end Lexer

/-- The tokens of a text up to its end. Every token but the last takes a character. -/
def tokens (s : String) : List (Token × Bool) :=
  (Lexer.ofText s).tokensFrom (s.length + 1)

end PackScript
