import PackScript.Token.Basic

namespace PackScript

/-!
# Diagnostics

What the compiler reports about a source text. A diagnostic has a cause and a place; `Cause.text`
has the wording of every cause, and `DiagnosticKind.format` the form of the whole message.
-/

/-- Where in which file; the file is named only on the command line. -/
structure Location where
  file : Option String
  line : Nat
  column : Nat
deriving Repr, DecidableEq, Inhabited

/-- The place of an extent. -/
def Location.ofSpan (span : Span) : Location :=
  ⟨none, span.line, span.column⟩

/-- Line and column, after the name of the file if there is one. -/
def Location.text (l : Location) : String :=
  let place := toString l.line ++ ":" ++ toString l.column
  match l.file with
  | some file => file ++ ":" ++ place
  | none => place

/-- The four kinds of diagnostics. -/
inductive DiagnosticKind where
  /-- The text is not a script -/
  | malformed
  /-- The script uses what has no counterpart in the target -/
  | unsupported
  /-- The compiler met a state it should not be in -/
  | invariant
  /-- A name has no binding -/
  | unresolved
deriving Repr, DecidableEq, Inhabited

/-- The message of a diagnostic. -/
def DiagnosticKind.format (kind : DiagnosticKind) (text : String) (location : Location) : String :=
  (match kind with
    | .malformed => "SyntaxError: " ++ text
    | .unsupported => "UnsupportedConstruct: " ++ text
    | .invariant => "InvariantViolation: " ++ text
    | .unresolved => "UnresolvedReference: " ++ text ++ " is not defined") ++
    " at " ++ location.text

/-! ### Causes -/

/-- What is wrong with a text that is not a script. -/
inductive Fault where
  | unexpected (found : Token.Kind) (expected : String)
  | invalidToken (char : Char)
  | message (text : String)
deriving Repr, Inhabited

/-- Wording of a fault. -/
def Fault.text : Fault → String
  | .unexpected found expected => "Unexpected " ++ found.describe ++ ", expected " ++ expected
  | .invalidToken c => "Invalid or unexpected token '" ++ c.toString ++ "'"
  | .message text => text

/-- Why something is reported. -/
inductive Cause where
  | malformed (fault : Fault)
  | unsupported (construct : String)
  | invariant (text : String)
  | unresolved (name : String)
deriving Repr, Inhabited

namespace Cause

/-- The kind of diagnostic a cause makes. -/
def kind : Cause → DiagnosticKind
  | .malformed _ => .malformed
  | .unsupported _ => .unsupported
  | .invariant _ => .invariant
  | .unresolved _ => .unresolved

/-- Wording of a cause. -/
def text : Cause → String
  | .malformed fault => fault.text
  | .unsupported construct => construct
  | .invariant text => text
  | .unresolved name => name

end Cause

/-- A reported cause and its place. -/
structure Diagnostic where
  cause : Cause
  location : Location
deriving Repr, Inhabited

namespace Diagnostic

/-- A fault at an extent. -/
def malformed (text : String) (span : Span) : Diagnostic :=
  ⟨.malformed (.message text), .ofSpan span⟩

/-- Something without counterpart in the target at an extent. -/
def unsupported (construct : String) (span : Span) : Diagnostic :=
  ⟨.unsupported construct, .ofSpan span⟩

/-- A broken invariant at an extent. -/
def invariant (text : String) (span : Span) : Diagnostic :=
  ⟨.invariant text, .ofSpan span⟩

/-- A name without binding at an extent. -/
def unresolved (name : String) (span : Span) : Diagnostic :=
  ⟨.unresolved name, .ofSpan span⟩

/-- The kind of a diagnostic. -/
def kind (d : Diagnostic) : DiagnosticKind :=
  d.cause.kind

/-- The message of a diagnostic. -/
def message (d : Diagnostic) : String :=
  d.kind.format d.cause.text d.location

/-- The diagnostic with the name of its file. -/
def inFile (d : Diagnostic) (file : String) : Diagnostic :=
  { d with location := { d.location with file := some file } }

end Diagnostic

/-- The messages, one on a line, each after two blanks. -/
def listDiagnostics (ds : List Diagnostic) : String :=
  "\n".intercalate (ds.map fun d => "  " ++ d.message)

/-- The report of a whole compilation. -/
def reportDiagnostics (ds : List Diagnostic) : String :=
  toString ds.length ++ " compile error(s):\n" ++ listDiagnostics ds

end PackScript
