import PackScript.Compile.Expression
import PackScript.Compile.Statement
import PackScript.Options
import PackScript.Parse.Script
import PackScript.Prelude
import PackScript.Tree.Size

namespace PackScript

/-!
# Compilation

`compile` turns a source text into a program. Top-level statements are compiled one after the
other; one that fails is reported and taken back, and the others go on.
-/

/-- The rules for parts that may nest the given number of levels deep. -/
def lowering : Nat → Lowering
  | 0 => .none
  | levels + 1 => ⟨Compile.lowerExpr (lowering levels), Compile.lowerStmt (lowering levels)⟩

/-- Compiles a statement. A tree is no deeper than it has nodes. -/
def Compile.statement (s : Stmt) : Compile Unit :=
  (lowering (s.size + 1)).stmt s

/-! ### Taking a statement back -/

/-- What is needed to take a statement back. -/
structure Checkpoint where
  units : Nat
  functions : Nat
  instrs : Nat
  parents : Nat
  outer : Nat
  currentScopes : List ScopeId
  context : FunctionContext
  scopes : ScopeMark

namespace Compiler

/-- The checkpoint of a state. -/
def checkpoint (s : Compiler) : Checkpoint :=
  { units := s.units.length
    functions := s.functions.length
    instrs := s.current.instrs.size
    parents := s.parents.length
    outer := s.outer.length
    currentScopes := s.current.scopes
    context := s.context
    scopes := s.scopes.mark globalScope }

/-- The unit that was under construction at a checkpoint. -/
def unitAt (s : Compiler) (c : Checkpoint) : Draft :=
  ((s.parents.take (s.parents.length - c.parents)).getLast?).getD s.current

/-- Goes back to a checkpoint. Names that were handed out are not handed out again. -/
def rollback (s : Compiler) (c : Checkpoint) : Compiler :=
  let current := s.unitAt c
  let functions := s.functions.take c.functions
  { s with
    current := { current with instrs := current.instrs.take c.instrs, scopes := c.currentScopes }
    parents := s.parents.drop (s.parents.length - c.parents)
    outer := s.outer.drop (s.outer.length - c.outer)
    context := c.context
    units := s.units.take c.units
    functions := functions
    calls := List.filter (fun (caller, _) => Table.has functions caller) s.calls
    scopes := s.scopes.rollback globalScope c.scopes }

/-! ### Scripts -/

/-- Compiles a top-level statement: the state afterwards, and what is reported. -/
def statement (s : Compiler) (stmt : Stmt) : Compiler × List Diagnostic :=
  match Compile.statement stmt s with
  | .ok _ after => (after, [])
  | .error d after => (after.rollback s.checkpoint, [d])

/-- Compiles top-level statements in turn. -/
def statements (s : Compiler) : List Stmt → Compiler × List Diagnostic
  | [] => (s, [])
  | stmt :: rest =>
    let (s, reported) := s.statement stmt
    let (s, later) := s.statements rest
    (s, reported ++ later)

/-- Binds the names that a script declares. -/
def hoist (s : Compiler) (body : List Stmt) : Compiler :=
  match Compile.hoistBody body s with
  | .ok _ s => s
  | .error _ s => s

/-- Compiles a script after those before it. -/
def script (s : Compiler) (script : Script) : Compiler × List Diagnostic :=
  (s.hoist script.body).statements (functionsFirst script.body)

/-- Compiles a source text after those before it. -/
def source (s : Compiler) (text : String) : Compiler × List Diagnostic :=
  match parseScript text with
  | .ok script => s.script script
  | .error d => (s, [d])

/-- Compiles source texts one after the other. -/
def sources (s : Compiler) : List String → Compiler × List Diagnostic
  | [] => (s, [])
  | text :: rest =>
    let (s, reported) := s.source text
    let (s, later) := s.sources rest
    (s, reported ++ later)

/-- The program. -/
def finish (s : Compiler) : Program :=
  { ns := s.ns
    entry := entryUnit
    units := s.units.put entryUnit s.current.finish
    functions := s.functions
    globals := ((s.scopes.get? globalScope).getD []).map fun (name, b) => (name, b.slot)
    heapBase := s.names.records }

end Compiler

/-- The program of all statements that could be compiled, and a diagnostic for each of the
    others. -/
structure Compilation where
  program : Program
  diagnostics : List Diagnostic

/-- The program, if all statements could be compiled. -/
def Compilation.toExcept (c : Compilation) : Except (List Diagnostic) Program :=
  if c.diagnostics.isEmpty then .ok c.program else .error c.diagnostics

/-- Compiles source texts one after the other, without the prelude. -/
def compileSources (ns : String) (texts : List String) : Compilation :=
  let (s, reported) := (Compiler.start ns).sources texts
  ⟨s.finish, reported⟩

/-- The texts that are compiled ahead. -/
def Options.ahead (o : Options) : List String :=
  if o.withPrelude then [preludeText] else []

/-- Compiles a source text. -/
def compile (o : Options) (text : String) : Compilation :=
  compileSources o.ns (o.ahead ++ [text])

/-- Compiles a script. -/
def compileScript (o : Options) (script : Script) : Compilation :=
  let (s, reported) := (Compiler.start o.ns).sources o.ahead
  let (s, later) := s.script script
  ⟨s.finish, reported ++ later⟩

end PackScript
