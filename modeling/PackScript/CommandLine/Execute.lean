import PackScript.CommandLine.Files
import PackScript.CommandLine.Help
import PackScript.Compile.Script
import PackScript.Machine.Host
import PackScript.OptionsFile
import PackScript.Pack
import PackScript.Program.Json

namespace PackScript

/-!
# The command line

`execute` does what the arguments ask for, with files that are kept anywhere, and answers what is
to be printed.
-/

/-- What the program ends with. -/
structure Report where
  code : UInt8 := 0
  out : String := ""
  err : String := ""
deriving Repr, DecidableEq, Inhabited

/-- Why a compilation has no result. -/
inductive CommandError where
  | optionsUnreadable (path : String) (e : FileError)
  | optionsFile (path : String) (e : OptionsError)
  | options (e : OptionsError)
  | unreadable (path : String) (e : FileError)
  | diagnostics (path : String) (ds : List Diagnostic)
  | machine (e : MachineError)
  | store (e : StoreError)

/-- The message of a failure. -/
def CommandError.message : CommandError → String
  | .optionsUnreadable path e => path ++ ": Failed to read config file: " ++ e.message
  | .optionsFile path e => path ++ ": " ++ e.message
  | .options e => e.message
  | .unreadable path e => "Failed to read " ++ path ++ ": " ++ e.message
  | .diagnostics path ds =>
    "compilation failed with " ++ toString ds.length ++ " error(s)\n" ++
      listDiagnostics (ds.map (·.inFile path))
  | .machine e => e.message
  | .store e => e.message

/-- The name of the file of options. -/
def optionsFileName : String := "datajs.toml"

/-- What a run prints: the entry unit, and then so many ticks. -/
def simulate (p : Program) (ticks : Nat) : Except MachineError (List String) :=
  match (do Run.entry; Run.passTicks ticks : Run Unit) (.start p defaultDepth) with
  | .ok () m => .ok m.output.toList
  | .error e _ => .error e

/-- The files for a program, by their paths from the output directory. -/
def Program.files (p : Program) : OutputForm → List Artifact
  | .functions => p.artifacts
  | .json => [⟨p.ns ++ ".json", p.toText⟩]

/-- The options with what the command line says about them. -/
def Options.override (o : Options) (a : Arguments) : Options :=
  { o with
    ns := a.ns.getD o.ns
    output := a.out.getD o.output
    withPrelude := o.withPrelude && !a.noPrelude }

section

variable {m : Type → Type} [Monad m] (files : Files m)

/-- The file of options: the one that is named, or the one beside the input if it is there. -/
def optionsPath (input : String) (a : Arguments) : m (Option String) := do
  match a.config with
  | some path => return some path
  | none =>
    let path := Path.join ((Path.parent? input).getD ".") optionsFileName
    return if ← files.isThere path then some path else none

/-- The options from their file. -/
def readOptions : Option String → ExceptT CommandError m Options
  | none => return { }
  | some path => do
    match ← files.read path with
    | .error e => throw (.optionsUnreadable path e)
    | .ok text =>
      match Options.ofText text with
      | .error e => throw (.optionsFile path e)
      | .ok o => return o

/-- The options of a compilation. -/
def loadOptions (input : String) (a : Arguments) : ExceptT CommandError m Options := do
  let path ← ExceptT.lift (optionsPath files input a)
  let o ← readOptions files path
  match (o.override a).validate with
  | .error e => throw (.options e)
  | .ok o => return o

/-- The program of the input. -/
def readProgram (input : String) (o : Options) : ExceptT CommandError m Program := do
  match ← files.read input with
  | .error e => throw (.unreadable input e)
  | .ok text =>
    match (compile o text).toExcept with
    | .error ds => throw (.diagnostics input ds)
    | .ok p => return p

/-- Writes files under a folder. -/
def storeAll (folder : String) : List Artifact → ExceptT CommandError m Unit
  | [] => return
  | f :: rest => do
    match ← files.store (Path.join folder f.path) f.contents with
    | .error e => throw (.store e)
    | .ok () => storeAll folder rest

/-- Compiles the input, and runs or writes the program: the lines to print. -/
def compileInput (input : String) (a : Arguments) : ExceptT CommandError m (List String) := do
  let o ← loadOptions files input a
  let p ← readProgram files input o
  if a.run then
    match simulate p (a.ticks.getD 0) with
    | .error e => throw (.machine e)
    | .ok lines => return lines
  else
    storeAll files o.output (p.files (a.form.getD .functions))
    return []

/-- Does what the arguments ask for. -/
def execute (args : List String) : m Report := do
  match Invocation.ofArguments? args with
  | none => return { code := 2, err := "error: invalid arguments\n\n" ++ usageText ++ "\n" }
  | some (.help full) => return { out := helpText full }
  | some .version => return { out := versionText }
  | some (.compile input a) =>
    match ← (compileInput files input a).run with
    | .ok lines => return { out := .join (lines.map (· ++ "\n")) }
    | .error e => return { code := 1, err := "Error: " ++ e.message ++ "\n" }

end

end PackScript
