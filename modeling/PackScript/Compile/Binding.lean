import PackScript.Compile.Lowered
import PackScript.Tree.Hoisted

namespace PackScript

/-!
# Names and their slots
-/

/-- The kind of binding that a word declares. -/
def DeclKind.bindingKind : DeclKind → BindingKind
  | .letDecl => .let_
  | .constDecl => .const_
  | .varDecl => .var_

namespace Compiler

/-- The binding of a name for the code of the present unit. -/
def resolve (s : Compiler) (name : String) : Option Binding :=
  s.scopes.resolve s.current.scopes name

/-- The binding of a global name. -/
def globalBinding? (s : Compiler) (name : String) : Option Binding :=
  s.scopes.own? globalScope name

/-- The expression is `globalThis`, and no variable of that name is in sight. -/
def isGlobalThis (s : Compiler) : Expr → Bool
  | .ident id => id.name = "globalThis" && (s.resolve "globalThis").isNone
  | _ => false

end Compiler

namespace Compile

/-- The binding of a name. -/
def resolve (name : String) : Compile (Option Binding) := do
  return (← get).resolve name

/-- The innermost scope of the present unit. -/
def innermostScope? : Compile (Option ScopeId) := do
  return (← get).current.scopes.getLast?

/-- Marks a variable that is declared inside a loop. -/
def noteLoopBinding (slot : Slot) (kind : BindingKind) : Compile Unit :=
  modify fun s =>
    if s.context.loops > 0 && (kind = .let_ || kind = .const_) then
      { s with loopBindings := (slot, s.outer.length) :: s.loopBindings }
    else s

/-- Declares a name in a scope. -/
def declareIn (scope : ScopeId) (name : String) (kind : BindingKind) (span : Span) :
    Compile Slot := do
  let slot ← freshSlot
  match (← get).scopes.declare scope name ⟨slot, kind⟩ with
  | .ok (binding, scopes) =>
    modify fun s => { s with scopes := scopes }
    noteLoopBinding binding.slot kind
    return binding.slot
  | .error (.alreadyDeclared name) =>
    malformed ("Identifier '" ++ name ++ "' has already been declared") span
  | .error (.unknownScope _) => throw (.invariant "declaration in an unknown scope" span)

/-- Takes a name off the list of those bound ahead of their declaration. -/
def claimHoisted (scope : ScopeId) (name : String) : Compile Bool :=
  modifyGet fun s =>
    (s.hoisted.contains (scope, name), { s with hoisted := s.hoisted.erase (scope, name) })

/-- The binding that is there for a declaration: one made ahead of it, or for a `var` the one of
    the function. -/
def existingBinding? (scope : ScopeId) (name : String) (kind : BindingKind) :
    Compile (Option Binding) := do
  let ahead ← (do
    if ← claimHoisted scope name then return (← get).scopes.own? scope name else return none)
  match ahead with
  | some binding => return some binding
  | none =>
    if kind = .var_ then return (← resolve name).filter (·.kind = .var_) else return none

/-- The slot of a name that is declared in the innermost scope. -/
def declare (name : String) (kind : BindingKind) (span : Span) : Compile Slot := do
  match ← innermostScope? with
  | none => throw (.invariant "declaration outside any scope" span)
  | some scope => match ← existingBinding? scope name kind with
    | some binding => return binding.slot
    | none => declareIn scope name kind span

/-- The slot of a global name, which is declared if it is not there. -/
def globalSlot (name : String) (span : Span) : Compile Slot := do
  match (← get).globalBinding? name with
  | some binding => return binding.slot
  | none => declareIn globalScope name .var_ span

/-! ### Declarations ahead of their place -/

/-- Binds a `var` for the whole function. A name that is bound already stays as it is. -/
def hoistVar (scope : ScopeId) (id : Ident) : Compile Unit := do
  if ((← get).scopes.own? scope id.name).isNone then
    let slot ← declareIn scope id.name .var_ id.span
    assign slot .undefined

/-- Binds a name for its whole scope. A clash is reported by the declaration itself. -/
def hoistName (scope : ScopeId) (kind : BindingKind) (id : Ident) : Compile Unit := do
  if ((← get).scopes.own? scope id.name).isNone then
    let _ ← declareIn scope id.name kind id.span
    modify fun s => { s with hoisted := s.hoisted.insert (scope, id.name) }

/-- The names that a statement declares for the scope around it. -/
def lexicalNames : Stmt → List (BindingKind × Ident)
  | .function id _ => [(.function, id)]
  | .classDecl id _ => [(.class_, id)]
  | .declare d =>
    if d.kind = .varDecl then [] else d.idents.map (d.kind.bindingKind, ·)
  | _ => []

/-- Binds the names that statements declare for the scope around them. -/
def hoistNames (body : List Stmt) : Compile Unit := do
  match ← innermostScope? with
  | none => return
  | some scope => (body.flatMap lexicalNames).forM fun (kind, id) => hoistName scope kind id

/-- Binds all names that the body of a function or script declares. -/
def hoistBody (body : List Stmt) : Compile Unit := do
  match ← innermostScope? with
  | none => return
  | some scope => (stmtsVarIdents body).forM (hoistVar scope)
  hoistNames body

/-! ### Use of names -/

/-- A closure would see the value that a variable of a loop had last, not its own. -/
def checkLoopCapture (slot : Slot) (id : Ident) : Compile Unit := do
  let s ← get
  match s.loopBindings.lookup slot with
  | some depth =>
    if s.outer.length > depth then
      unsupported ("closure capturing loop binding '" ++ id.name ++ "'") id.span
  | none => return

/-- The value of a name. -/
def lowerIdent (id : Ident) : Compile Lowered := do
  match ← resolve id.name with
  | some binding =>
    checkLoopCapture binding.slot id
    return .slot binding.slot
  | none =>
    match id.name with
    | "undefined" => return .undefined
    | "NaN" => return .known (.number notANumber)
    | "Infinity" => return .known (.number (1.0 / 0.0))
    | "globalThis" => unsupported "globalThis as a value" id.span
    | _ => throw (.unresolved id.name id.span)

/-- The slot of a name that is assigned to. -/
def assignableSlot (id : Ident) : Compile Slot := do
  match ← resolve id.name with
  | none => throw (.unresolved id.name id.span)
  | some binding =>
    if binding.kind.isMutable then
      checkLoopCapture binding.slot id
      return binding.slot
    else malformed "Assignment to constant variable." id.span

end Compile

end PackScript
