import PackScript.Compile.Function
import PackScript.Compile.Intrinsic

namespace PackScript

/-!
# Call expressions

A call of a top-level function by its name goes to its unit at once; every other call goes
through the function value. All calls of a function share its slots, so a function must not be
called while it runs: `recordCall` keeps the calls between top-level functions free of circles.
-/

/-- How many calls there are by functions that are not `seen`. -/
def callsLeft (calls : Table (List String)) (seen : List String) : Nat :=
  match calls with
  | [] => 0
  | e :: rest => (if e.1 ∈ seen then 0 else e.2.length) + callsLeft rest seen

/-- One more function is seen, and its calls are no longer left. -/
theorem callsLeft_cons_le (calls : Table (List String)) (name : String) (seen : List String) :
    callsLeft calls (name :: seen) ≤ callsLeft calls seen := by
  induction calls with
  | nil => exact Nat.le_refl _
  | cons e rest ih =>
    rw [callsLeft, callsLeft]
    refine Nat.add_le_add ?_ ih
    by_cases hseen : e.1 ∈ seen
    · rw [if_pos (List.mem_cons_of_mem _ hseen)]
      exact Nat.zero_le _
    · rw [if_neg hseen]
      split
      · exact Nat.zero_le _
      · exact Nat.le_refl _

@[inherit_doc callsLeft_cons_le]
theorem callsLeft_cons (calls : Table (List String)) {name : String} {seen : List String}
    (h : name ∉ seen) : callsLeft calls (name :: seen) + ((calls.find? name).getD []).length ≤
      callsLeft calls seen := by
  induction calls with
  | nil => exact Nat.le_refl _
  | cons e rest ih =>
    have hrest := callsLeft_cons_le rest name seen
    rw [callsLeft, callsLeft, Table.find?]
    by_cases he : e.1 = name
    · rw [if_pos he, if_pos (he ▸ List.mem_cons_self), if_neg (he ▸ h), Option.getD_some]
      omega
    · rw [if_neg he]
      by_cases hseen : e.1 ∈ seen
      · rw [if_pos (List.mem_cons_of_mem _ hseen), if_pos hseen]
        omega
      · rw [if_neg (List.not_mem_cons_of_ne_of_not_mem he hseen), if_neg hseen]
        omega

/-- Searches among the functions that calls lead to. The `pending` ones are looked at in turn, the
    one found last first, and what a function calls is pending when it is seen for the first
    time. -/
def callSearch (calls : Table (List String)) (target : String) (seen : List String) :
    List String → Bool
  | [] => false
  | name :: pending =>
    if name = target then true
    else if _h : name ∈ seen then callSearch calls target seen pending
    else callSearch calls target (name :: seen) (((calls.find? name).getD []).reverse ++ pending)
termination_by pending => callsLeft calls seen + pending.length
decreasing_by
  · exact Nat.lt_succ_self _
  · have hleft := callsLeft_cons calls _h
    rw [List.length_append, List.length_reverse, List.length_cons]
    omega

/-- Calls lead from one function to another, or they are the same. -/
def callsReach (calls : Table (List String)) (source target : String) : Bool :=
  callSearch calls target [] [source]

namespace Compiler

/-- The name stands for a top-level function. -/
def isGlobalFunction (s : Compiler) (name : String) : Bool :=
  match s.resolve name with
  | some binding => binding.kind = .function && s.globalBinding? name = some binding
  | none => false

/-- The unit of a top-level function that a name stands for. -/
def directUnit? (s : Compiler) (name : String) : Option String :=
  match s.resolve name, s.functions.find? name with
  | some binding, some f => if binding.slot = f.binding then some f.unit else none
  | _, _ => none

/-- Adds a call between top-level functions. -/
def addCall (s : Compiler) (caller callee : String) : Compiler :=
  let known := (s.calls.find? caller).getD []
  { s with calls := s.calls.put caller (known.insert callee) }

end Compiler

namespace Compile

variable (k : Lowering)

/-- Keeps a call of a top-level function by another one, and refuses one that closes a circle. -/
def recordCall (callee : Ident) : Compile Unit := do
  let s ← get
  match s.context.declaration with
  | none => return
  | some caller =>
    if s.isGlobalFunction callee.name then
      if callsReach s.calls callee.name caller then
        unsupported ("recursive call to '" ++ callee.name ++ "'") callee.span
      else modify fun s => s.addCall caller callee.name

/-- Calls the value of an expression. -/
def callExpr (callee : Expr) (es : List Expr) (span : Span) : Compile Lowered := do
  let function ← exprSlot k callee
  return .slot (← callFunction function none (← callArguments k es span))

/-- A call of a name. -/
def callNamed (id : Ident) (es : List Expr) (span : Span) : Compile Lowered := do
  match ← intrinsic? id with
  | some op => callIntrinsic k op id es
  | none =>
    recordCall id
    match (← get).directUnit? id.name with
    | some unit => return .slot (← callUnit unit (← callArguments k es span))
    | none =>
      let function ← materialize (← lowerIdent id)
      return .slot (← callFunction function none (← callArguments k es span))

/-- A call of the parent class. -/
def callSuper (es : List Expr) (span : Span) : Compile Lowered := do
  let context := (← get).context
  match context.parentClass, decide (context.kind = .ctor ∨ context.kind = .arrow) with
  | some parent, true =>
    callParent parent (← callArguments k es span)
    setFields k (← ownFields)
    return .undefined
  | _, _ => malformed "'super' keyword unexpected here" span

/-- A call of a method of the parent class. -/
def callParentMethod (key : MemberKey) (es : List Expr) (superSpan span : Span) :
    Compile Lowered := do
  match (← get).context.that, key with
  | none, _ => malformed "'super' keyword unexpected here" superSpan
  | some _, .index _ => unsupported "computed super call" superSpan
  | some that, .name id =>
    let method ← parentMember id.name superSpan
    return .slot (← callFunction method (some that) (← callArguments k es span))

/-- A call of a method. -/
def callMethod (m : Member) (es : List Expr) (span : Span) : Compile Lowered := do
  let (object, name) ← memberParts k m
  let method ← getMember object name
  return .slot (← callFunction method (some object) (← callArguments k es span))

/-- A call of a member. -/
def callMember (m : Member) (es : List Expr) (span : Span) : Compile Lowered := do
  match m.object with
  | .super superSpan => callParentMethod k m.key es superSpan span
  | object => match (← get).isGlobalThis object, m.key with
    | true, .name id =>
      let function ← globalSlot id.name id.span
      return .slot (← callFunction function none (← callArguments k es span))
    | _, _ => callMethod k m es span

/-- A call. -/
def lowerCall (callee : Expr) (es : List Expr) (optional : Bool) (span : Span) :
    Compile Lowered :=
  if optional then unsupported "optional call" span
  else match callee with
    | .ident id => callNamed k id es span
    | .super superSpan => callSuper k es superSpan
    | .member m => if m.optional then callExpr k callee es span else callMember k m es span
    | callee => callExpr k callee es span

/-- Creates an object of a class and calls the class on it. What the class answers replaces the
    object if it is one. -/
def lowerNew (callee : Expr) (es : List Expr) (span : Span) : Compile Lowered := do
  let cls ← exprSlot k callee
  let entries ← callArguments k es span
  let prototype ← getMember cls (.known "prototype")
  let object ← allocate .object (some (.copy (.field prototype "value")))
  let (result, entries) ← withResult entries
  callThrough cls (entries ++ [("this", .valueOf object), ("newtarget", .valueOf cls)])
  [Kind.object, .array, .function].forM fun kind =>
    setIf (kindIs result kind) (.slot object) (.valueOf result)
  return .slot object

end Compile

end PackScript
