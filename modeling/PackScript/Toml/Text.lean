import PackScript.Decimal.Read

namespace PackScript.Toml

/-!
# Texts of TOML

A text stands between quotes, with escapes, or between apostrophes, without. Three of either
enclose a text of several lines. Readers take the characters ahead, and answer what they read and
what is left.
-/

/-- A reader. -/
abbrev Reader (α : Type) := List Char → Option (α × List Char)

/-- The apostrophe. -/
def apostrophe : Char := '\x27'

/-- May stand in a line of text: all but control characters, and the tab. -/
def isPlain (c : Char) : Bool :=
  c = '\t' || (' ' ≤ c && c ≠ '\x7f')

/-- A blank within a line. -/
def isBlank (c : Char) : Bool :=
  c = ' ' || c = '\t'

/-- What is left after the blanks ahead. -/
def skipBlanks (cs : List Char) : List Char :=
  cs.dropWhile isBlank

/-- What is left after the end of line ahead. -/
def newline? : List Char → Option (List Char)
  | '\n' :: rest => some rest
  | '\r' :: '\n' :: rest => some rest
  | _ => none

/-- What is left after the blanks and ends of line ahead. -/
def skipLines : List Char → List Char
  | [] => []
  | '\r' :: '\n' :: rest => skipLines rest
  | c :: rest => if isBlank c || c = '\n' then skipLines rest else c :: rest

/-! ### Escapes -/

/-- The character that a letter after a backslash stands for. -/
def escaped? : Char → Option Char
  | 'b' => some '\x08'
  | 't' => some '\t'
  | 'n' => some '\n'
  | 'f' => some '\x0c'
  | 'r' => some '\r'
  | '"' => some '"'
  | '\\' => some '\\'
  | _ => none

/-- A character written with so many hexadecimal digits. -/
def readCode (width : Nat) : Reader Char := fun cs => do
  let values ← (cs.take width).mapM hexDigitValue?
  let code := values.foldl (fun n d => 16 * n + d) 0
  if values.length = width ∧ code.isValidChar then some (Char.ofNat code, cs.drop width) else none

/-- An escape after its backslash. -/
def readEscape : Reader Char
  | 'u' :: rest => readCode 4 rest
  | 'U' :: rest => readCode 8 rest
  | c :: rest => (escaped? c).map fun c => (c, rest)
  | [] => none

/-- What is left after a backslash that ends a line, and all blanks that follow it. -/
def joinLines? (cs : List Char) : Option (List Char) :=
  (newline? (skipBlanks cs)).map skipLines

/-! ### Texts -/

/-- Puts a character before what a reader reads. -/
def consTo (c : Char) : Option (List Char × List Char) → Option (List Char × List Char) :=
  Option.map fun (text, rest) => (c :: text, rest)

/-- The rest of a text between quotes; there are at most so many characters. -/
def readQuoted : Nat → Reader (List Char)
  | 0, _ => none
  | _, [] => none
  | fuel + 1, c :: rest =>
    if c = '"' then some ([], rest)
    else if c = '\\' then
      (readEscape rest).bind fun (c, rest) => consTo c (readQuoted fuel rest)
    else if isPlain c then consTo c (readQuoted fuel rest)
    else none

/-- The rest of a text between apostrophes. -/
def readLiteral : Reader (List Char)
  | [] => none
  | c :: rest =>
    if c = apostrophe then some ([], rest)
    else if isPlain c then consTo c (readLiteral rest)
    else none

/-- The rest of a text of several lines; there are at most so many characters. One or two of its
    quotes are part of the text. Three end it, and up to two more before these are part of it. -/
def readLines (quote : Char) : Nat → Reader (List Char)
  | 0, _ => none
  | _, [] => none
  | fuel + 1, c :: rest =>
    if c = quote then
      let run := (rest.takeWhile (· = quote)).length + 1
      if run < 3 then consTo c (readLines quote fuel rest)
      else
        let extra := min run 5 - 3
        some (List.replicate extra quote, rest.drop (extra + 2))
    else if c = '\\' && quote ≠ apostrophe then
      match joinLines? rest with
      | some rest => readLines quote fuel rest
      | none => (readEscape rest).bind fun (c, rest) => consTo c (readLines quote fuel rest)
    else match newline? (c :: rest) with
      | some rest => consTo '\n' (readLines quote fuel rest)
      | none => if isPlain c then consTo c (readLines quote fuel rest) else none

/-- A text of several lines after its opening. An end of line there is not part of it. -/
def readBlock (quote : Char) (cs : List Char) : Option (List Char × List Char) :=
  readLines quote (cs.length + 1) ((newline? cs).getD cs)

/-- A text of one line. -/
def readLine : Reader (List Char)
  | [] => none
  | c :: rest =>
    if c = '"' then readQuoted (rest.length + 1) rest
    else if c = apostrophe then readLiteral rest
    else none

/-- A text. -/
def readText (cs : List Char) : Option (List Char × List Char) :=
  match cs with
  | a :: b :: c :: rest =>
    if a = b ∧ b = c ∧ (a = '"' ∨ a = apostrophe) then readBlock a rest else readLine cs
  | _ => readLine cs

end PackScript.Toml
