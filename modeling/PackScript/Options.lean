namespace PackScript

/-!
# Options of a compilation
-/

/-- The options of a compilation. -/
structure Options where
  /-- The namespace of all units and storages -/
  ns : String := "datajs"
  /-- The built-in globals are compiled first -/
  withPrelude : Bool := true
  /-- The directory that the files are written to -/
  output : String := "out"
deriving Repr, DecidableEq, Inhabited

/-- A character of a namespace. -/
def isNamespaceChar (c : Char) : Bool :=
  c.isLower || c.isDigit || c = '_' || c = '-' || c = '.'

/-- A namespace has at least one character, and only characters of a namespace. -/
def isNamespace (s : String) : Bool :=
  !s.isEmpty && s.toList.all isNamespaceChar

/-- What is wrong with options. -/
inductive OptionsError where
  /-- The text is no table of options -/
  | malformed
  | invalidNamespace (ns : String)
deriving Repr, DecidableEq, Inhabited

/-- Message for a namespace that is none. -/
def invalidNamespaceMessage (ns : String) : String :=
  "Invalid namespace '" ++ ns ++ "': use lowercase letters, digits, '_', '-' and '.'"

/-- The message of wrong options. -/
def OptionsError.message : OptionsError → String
  | .malformed => "Failed to parse config: not a table of options"
  | .invalidNamespace ns => invalidNamespaceMessage ns

/-- The options, if their namespace is one. -/
def Options.validate (o : Options) : Except OptionsError Options :=
  if isNamespace o.ns then .ok o else .error (.invalidNamespace o.ns)

end PackScript
