import PackScript.Options
import PackScript.Toml.Document

namespace PackScript

/-!
# The file of options

Options are written as a TOML document. What it does not name has its usual value, and what it
names beyond them is ignored.
-/

namespace Toml

/-- The text under a name, or the usual one. -/
def Group.textOr (g : Group Node) (name usual : String) : Except OptionsError String :=
  match g.find? name with
  | none => .ok usual
  | some (.text s) => .ok s
  | some _ => .error .malformed

/-- The flag under a name, or the usual one. -/
def Group.flagOr (g : Group Node) (name : String) (usual : Bool) : Except OptionsError Bool :=
  match g.find? name with
  | none => .ok usual
  | some (.flag b) => .ok b
  | some _ => .error .malformed

end Toml

namespace Options

/-- The options that a document gives. -/
def ofToml (g : Toml.Group Toml.Node) : Except OptionsError Options := do
  let usual : Options := { }
  return {
    ns := ← g.textOr "namespace" usual.ns
    withPrelude := ← g.flagOr "prelude" usual.withPrelude
    output := ← g.textOr "output" usual.output }

/-- The options that a text writes, if their namespace is one. -/
def ofText (text : String) : Except OptionsError Options :=
  match Toml.parse? text with
  | none => .error .malformed
  | some g => do (← ofToml g).validate

end Options

end PackScript
