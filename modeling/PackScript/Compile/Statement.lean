import PackScript.Compile.Object

namespace PackScript.Compile

/-!
# Statements

A branch, the body of a loop and a case of a switch are units of their own, which pass `break`
and `return` on by their return codes.
-/

variable {α : Type} (k : Lowering)

/-! ### Declarations -/

/-- Declares a variable and gives it its first value. -/
def declareOne (kind : BindingKind) (d : Declarator) : Compile Unit := do
  match d.pattern with
  | .ident id =>
    if kind = .const_ && d.init.isNone then
      malformed "Missing initializer in const declaration" d.span
    else
      let slot ← declare id.name kind id.span
      match d.init with
      | some e => assign slot (← k.expr e)
      | none => if kind ≠ .var_ then assign slot .undefined
  | _ => unsupported "destructuring declaration" d.span

/-- Declares variables. -/
def declareAll (d : Declaration) : Compile Unit :=
  d.declarators.forM (declareOne k d.kind.bindingKind)

/-! ### Branches -/

/-- Compiles one side of a branch. -/
def lowerSide (guard : Guard) (body : Stmt) : Compile Unit := do
  let unit ← inChild .block true (unitBody k body)
  invokeRelaying guard (.unit unit) none false

/-- Compiles a side that may be missing. -/
def lowerSide? (guard : Guard) : Option Stmt → Compile Unit
  | some body => lowerSide k guard body
  | none => return

/-- A branch. -/
def lowerBranch (test : Expr) (yes : Stmt) (no : Option Stmt) : Compile Unit := do
  match ← truth (← k.expr test) with
  | .known true => lowerSide k .always yes
  | .known false => lowerSide? k .always no
  | .flag flag =>
    lowerSide k (isTrue flag) yes
    lowerSide? k (isFalse flag) no

/-! ### Switches -/

/-- Compiles inside of a loop or switch, which `break` ends. -/
def inBreakable (body : Compile α) : Compile α := do
  modify fun s => { s with context.breakables := s.context.breakables + 1 }
  ensuring body
    (modify fun s => { s with context.breakables := s.context.breakables - 1 })

/-- Compiles the statements of a case. -/
def lowerCase (guard : Guard) (body : List Stmt) : Compile Unit := do
  let unit ← inChild .case true (stmts k body)
  invokeRelaying guard (.unit unit) none true

/-- Compiles a case with a test: it runs if it is the first one that matches. -/
def lowerTestedCase (subject matched : Slot) (test : Expr) (body : List Stmt) :
    Compile Unit := do
  let test ← exprSlot k test
  let equal ← freshSlot
  callLibrary .equals
    [("left", .addressOf subject), ("right", .addressOf test), ("result", .addressOf equal),
     ("operation", .text BinaryOp.strictEq.text)]
  let hit ← slotOf (.boolean false)
  raise ((isTrue equal).and (.field matched "value") (.bool false)) hit
  raise (isTrue hit) matched
  lowerCase k (isTrue hit) body

/-- Compiles the cases of a switch in turn, and the default case after them. -/
def lowerCases (subject matched : Slot) (default? : Option (List Stmt)) :
    List SwitchCase → Compile Unit
  | [] => match default? with
    | some body => lowerCase k (isFalse matched) body
    | none => return
  | ⟨none, body, _⟩ :: rest => lowerCases subject matched (some body) rest
  | ⟨some test, body, _⟩ :: rest => do
    lowerTestedCase k subject matched test body
    lowerCases subject matched default? rest

/-- A switch. Cases do not run on into the next one. -/
def lowerSwitch (subject : Expr) (cases : List SwitchCase) : Compile Unit := do
  let subject ← exprSlot k subject
  let matched ← slotOf (.boolean false)
  inBreakable (lowerCases k subject matched none cases)

/-! ### Loops -/

/-- Compiles inside of a loop. -/
def inLoop (body : Compile α) : Compile α := do
  modify fun s => { s with context.loops := s.context.loops + 1 }
  ensuring body (modify fun s => { s with context.loops := s.context.loops - 1 })

/-- Compiles the unit of a loop. -/
def loopUnit (body : Compile Unit) : Compile String :=
  inChild .loop true (inBreakable (inLoop body))

/-- Compiles a loop as a unit that calls itself. -/
def runLoop (body : Compile Unit) : Compile Unit := do
  let unit ← loopUnit body
  invokeRelaying .always (.unit unit) none true

/-- Calls the present unit again. -/
def iterate (guard : Guard) (unit : String) : Compile Unit :=
  invokeRelaying guard (.unit unit) none false

/-- Compiles the test of a loop before its body, which ends the loop if it fails. Answers whether
    the rest of the loop can run. -/
def loopTest : Option Expr → Compile Bool
  | none => return true
  | some test => do
    match ← truth (← k.expr test) with
    | .known true => return true
    | .known false =>
      emit (.returnWith Instr.normal)
      return false
    | .flag flag =>
      emit (.returnIf (isFalse flag) Instr.normal)
      return true

/-- Compiles an expression for its effect. -/
def effect : Option Expr → Compile Unit
  | none => return
  | some e => do
    let _ ← k.expr e

/-- One round of a loop that tests before its body. -/
def loopRound (test : Option Expr) (body : Stmt) (update : Option Expr) : Compile Unit := do
  let unit := (← get).current.name
  if ← loopTest k test then
    unitBody k body
    effect k update
    iterate .always unit

/-- One round of a loop that tests after its body. -/
def doWhileRound (body : Stmt) (test : Expr) : Compile Unit := do
  let unit := (← get).current.name
  unitBody k body
  match ← truth (← k.expr test) with
  | .known false => return
  | .known true => iterate .always unit
  | .flag flag => iterate (isTrue flag) unit

/-- What a `for` loop does first. -/
def lowerForInit : Option ForInit → Compile Unit
  | none => return
  | some (.declare d) => declareAll k d
  | some (.expr e) => effect k (some e)

/-- A `for` loop. -/
def lowerFor (init : Option ForInit) (test update : Option Expr) (body : Stmt) : Compile Unit :=
  inLoop (inScope do
    lowerForInit k init
    runLoop (loopRound k test body update))

/-- The name that a `for … of` loop binds, and how. -/
def loopName (span : Span) : ForTarget → Compile (Option DeclKind × Ident)
  | .declared kind (.ident id) => return (some kind, id)
  | .existing (.ident id) => return (none, id)
  | _ => unsupported "destructuring in for...of" span

/-- One round of a `for … of` loop. -/
def forOfRound (kind : Option DeclKind) (id : Ident) (body : Stmt) : Compile Unit := do
  let slot ← (match kind with
    | some kind => declare id.name kind.bindingKind id.span
    | none => assignableSlot id)
  set (.slot slot) (.param (argumentName 0))
  unitBody k body

/-- A `for … of` loop: a library routine calls the unit of its body for each element. -/
def lowerForOf (target : ForTarget) (subject : Expr) (body : Stmt) (span : Span) :
    Compile Unit := do
  let (kind, id) ← loopName span target
  let array ← exprSlot k subject
  let unit ← loopUnit (forOfRound k kind id body)
  let bodyChannel ← freshChannel
  let channel ← fillChannel
    [("array", .addressOf array), ("function", .text (functionId (← get).ns unit)),
     ("channel", .text bodyChannel.key)]
  invokeRelaying .always (.library .loopArray) (some channel) true

/-! ### Jumps -/

/-- A `return`. -/
def lowerReturn (argument : Option Expr) (span : Span) : Compile Unit := do
  if (← get).context.kind = .script then malformed "Illegal return statement" span
  else emitReturn (← exprOrUndefined k argument)

/-- A `break`. -/
def lowerBreak (label : Option Ident) (span : Span) : Compile Unit := do
  if label.isSome then unsupported "labeled break" span
  else if (← get).context.breakables = 0 then malformed "Illegal break statement" span
  else emit (.returnWith Instr.breakCode)

/-! ### All statements -/

/-- Compiles a statement. -/
def lowerStmt : Stmt → Compile Unit
  | .expr e _ => effect k (some e)
  | .declare d => declareAll k d
  | .function id fn => declareFunction k id fn
  | .classDecl id cls => do
    let _ ← createClass k { cls with id := some id }
  | .block b => inScope (stmts k b.body)
  | .branch test yes no _ => lowerBranch k test yes no
  | .whileLoop test body _ => runLoop (loopRound k (some test) body none)
  | .doWhile body test _ => runLoop (doWhileRound k body test)
  | .forLoop init test update body _ => lowerFor k init test update body
  | .forOf target subject body span => lowerForOf k target subject body span
  | .switch subject cases _ => lowerSwitch k subject cases
  | .returning argument span => lowerReturn k argument span
  | .breaking label span => lowerBreak label span
  | .unsupported construct span => unsupported construct span
  | .empty _ => return

end PackScript.Compile
