import Mathlib
import PackScript.Compile.Intrinsic
import PackScript.Compile.Operator
import PackScript.Tree.Size

namespace PackScript

/-!
# What structured scripts mean

Scripts of variables with scalars, commands, branches, loops and switches have a meaning that does
not mention units, slots or return codes: they go from one assignment of the variables to the
next.

* `Expr.value` — the value of a pure expression.
* `Stmt.exec` — what a statement does, and whether it breaks out of the loop or switch around it;
  `none` if it does not end.
* `Expr.isPure`, `Stmt.isStructured` — the expressions and statements for which these are the
  meaning.
* `Script.isStructured` — the scripts: declarations of variables by literals, then such statements.
-/

/-! ### Values -/

/-- The value of a logical operator. -/
def LogicalOp.value (op : LogicalOp) (left right : Scalar) : Scalar :=
  match op with
  | .and => if left.truthy then right else left
  | .or => if left.truthy then left else right
  | .coalesce => if left.isNullish then right else left

/-- The value of a pure expression when the variables have the given values. -/
def Expr.value (env : String → Scalar) : Expr → Scalar
  | .literal value _ => value
  | .ident id => env id.name
  | .unary .not argument _ => .boolean !(argument.value env).truthy
  | .binary op left right _ =>
    (Scalar.binary op (left.value env) (right.value env)).getD .undefined
  | .logical op left right _ => op.value (left.value env) (right.value env)
  | .conditional test yes no _ =>
    if (test.value env).truthy then yes.value env else no.value env
  | _ => .undefined

/-! ### States -/

/-- The values of the variables and the commands that were run. -/
structure Store where
  env : String → Scalar
  commands : List String

/-- How a statement ends: the next one follows, or the loop or switch around it is left. -/
inductive Flow where
  | next
  | broke
deriving DecidableEq

namespace Store

/-- The state with a variable assigned. -/
def assign (σ : Store) (name : String) (value : Scalar) : Store :=
  { σ with env := fun x => if x = name then value else σ.env x }

/-- The state after a command. -/
def run (σ : Store) (command : String) : Store :=
  { σ with commands := σ.commands ++ [command] }

/-- A way from state to state; `none` if it does not end. -/
abbrev Action := Store → Option (Flow × Store)

/-- One action, and the second one unless the first breaks. -/
def andThen (first second : Action) : Action := fun σ =>
  match first σ with
  | some (.next, σ') => second σ'
  | other => other

/-- Leaves a loop or switch: what broke out of it goes on behind it. -/
def leave (body : Action) : Action := fun σ =>
  (body σ).map fun (_, σ') => (.next, σ')

/-- Rounds of a loop lead from the first state to the second, the last one of them. -/
inductive Rounds (round : Store → Option (Bool × Store)) : Store → Store → Prop
  | last {σ σ' : Store} (h : round σ = some (false, σ')) : Rounds round σ σ'
  | again {σ σ1 σ' : Store} (h : round σ = some (true, σ1)) (hrest : Rounds round σ1 σ') :
      Rounds round σ σ'

open Classical in
/-- The state behind the rounds of a loop, if they end. -/
noncomputable def rounds (round : Store → Option (Bool × Store)) (σ : Store) : Option Store :=
  if h : ∃ σ', Rounds round σ σ' then some h.choose else none

theorem Rounds.unique {round : Store → Option (Bool × Store)} {σ σ1 σ2 : Store}
    (h : Rounds round σ σ1) (h' : Rounds round σ σ2) : σ1 = σ2 := by
  induction h with
  | last h =>
    cases h' with
    | last h' => cases h.symm.trans h'; rfl
    | again h' _ => cases h.symm.trans h'
  | again h _ ih =>
    cases h' with
    | last h' => cases h.symm.trans h'
    | again h' hrest' =>
      cases h.symm.trans h'
      exact ih hrest'

theorem rounds_eq_some_iff {round : Store → Option (Bool × Store)} {σ σ' : Store} :
    rounds round σ = some σ' ↔ Rounds round σ σ' := by
  unfold rounds
  constructor
  · intro h
    split at h
    · next hends =>
      obtain rfl := Option.some.inj h
      exact hends.choose_spec
    · cases h
  · intro h
    have hends : ∃ σ', Rounds round σ σ' := ⟨σ', h⟩
    rw [dif_pos hends, hends.choose_spec.unique h]

/-- A loop. -/
noncomputable def loop (round : Store → Option (Bool × Store)) : Action := fun σ =>
  (rounds round σ).map fun σ' => (.next, σ')

/-- A round that tests before its body: the update follows a body that did not break. -/
def testedRound (test : Store → Bool) (body : Action) (update : Store → Store) :
    Store → Option (Bool × Store) := fun σ =>
  if test σ then (body σ).map fun
    | (.next, σ') => (true, update σ')
    | (.broke, σ') => (false, σ')
  else some (false, σ)

/-- A round that tests after its body. -/
def testingRound (test : Store → Bool) (body : Action) :
    Store → Option (Bool × Store) := fun σ =>
  (body σ).map fun
    | (.next, σ') => (test σ', σ')
    | (.broke, σ') => (false, σ')

end Store

/-! ### Statements -/

/-- What an expression does that is a statement: an assignment or a command. -/
def Expr.perform (σ : Store) : Expr → Store
  | .assign .assign (.ident id) right _ => σ.assign id.name (right.value σ.env)
  | .call (.ident _) [.literal (.string text) _] _ _ => σ.run text
  | _ => σ

/-- The test of a loop; one that is missing holds. -/
def testHolds (test : Option Expr) (σ : Store) : Bool :=
  match test with
  | some e => (e.value σ.env).truthy
  | none => true

/-- What an expression that may be missing does. -/
def performed (e : Option Expr) (σ : Store) : Store :=
  match e with
  | some e => e.perform σ
  | none => σ

/-- What a `for` loop does first. -/
def ForInit.perform (σ : Store) : Option ForInit → Store
  | some (.expr e) => e.perform σ
  | _ => σ

/-- Declared variables get their first values. -/
def declared (σ : Store) : List Declarator → Store
  | ⟨.ident id, some e, _⟩ :: rest => declared (σ.assign id.name (e.value σ.env)) rest
  | _ :: rest => declared σ rest
  | [] => σ

mutual

/-- What a statement does. -/
noncomputable def Stmt.exec : Stmt → Store.Action
  | .declare ⟨_, declarators, _⟩, σ => some (.next, declared σ declarators)
  | .expr e _, σ => some (.next, e.perform σ)
  | .block ⟨body, _⟩, σ => execAll body σ
  | .branch test yes no _, σ =>
    if (test.value σ.env).truthy then yes.exec σ
    else match no with
      | some no => no.exec σ
      | none => some (.next, σ)
  | .whileLoop test body _, σ =>
    Store.loop (Store.testedRound (testHolds (some test)) body.exec id) σ
  | .doWhile body test _, σ =>
    Store.loop (Store.testingRound (testHolds (some test)) body.exec) σ
  | .forLoop init test update body _, σ =>
    Store.loop (Store.testedRound (testHolds test) body.exec (performed update))
      (ForInit.perform σ init)
  | .switch subject cases _, σ =>
    Store.leave (fun σ =>
      (execMatch (subject.value σ.env) cases σ).getD
        ((execDefault cases σ).getD (some (.next, σ)))) σ
  | .breaking _ _, σ => some (.broke, σ)
  | _, σ => some (.next, σ)

/-- What statements do one after the other. -/
noncomputable def execAll : List Stmt → Store.Action
  | [], σ => some (.next, σ)
  | s :: rest, σ => Store.andThen s.exec (execAll rest) σ

/-- What the first case does whose test is the subject, if there is one. -/
noncomputable def execMatch (subject : Scalar) :
    List SwitchCase → Store → Option (Option (Flow × Store))
  | [], _ => none
  | ⟨some test, body, _⟩ :: rest, σ =>
    if Scalar.strictEquals subject (test.value σ.env) then some (execAll body σ)
    else execMatch subject rest σ
  | ⟨none, _, _⟩ :: rest, σ => execMatch subject rest σ

/-- What the default case does, if there is one. -/
noncomputable def execDefault : List SwitchCase → Store → Option (Option (Flow × Store))
  | [], _ => none
  | ⟨some _, _, _⟩ :: rest, σ => execDefault rest σ
  | ⟨none, body, _⟩ :: rest, σ => (execDefault rest σ).or (some (execAll body σ))

end

/-- What a script does, if it ends. -/
noncomputable def Script.exec (script : Script) : Option Store :=
  (execAll script.body ⟨fun _ => .undefined, []⟩).map (·.2)

/-! ### The scripts that have this meaning -/

/-- An expression over the variables that has no effect. -/
def Expr.isPure (names : List String) : Expr → Bool
  | .literal _ _ => true
  | .ident id => names.contains id.name
  | .unary .not argument _ => argument.isPure names
  | .binary op left right _ =>
    op.routine?.isSome && left.isPure names && right.isPure names
  | .logical _ left right _ => left.isPure names && right.isPure names
  | .conditional test yes no _ => test.isPure names && yes.isPure names && no.isPure names
  | _ => false

/-- An assignment of a pure expression to one of the variables. -/
def Expr.isAssignment (names : List String) : Expr → Bool
  | .assign .assign (.ident id) right _ => names.contains id.name && right.isPure names
  | _ => false

/-- A command that is known. -/
def Expr.isCommand : Expr → Bool
  | .call (.ident id) [.literal (.string _) _] false _ => id.name == Intrinsic.run.name
  | _ => false

/-- A literal. -/
def Expr.isLiteral : Expr → Bool
  | .literal _ _ => true
  | _ => false

/-- What a `for` loop does first is nothing or an assignment. -/
def ForInit.isStructured (names : List String) : Option ForInit → Bool
  | none => true
  | some (.expr e) => e.isAssignment names
  | some (.declare _) => false

mutual

/-- A statement of assignments, commands, branches, loops and switches. The flag tells whether
    there is a loop or switch around it that it may break out of. -/
def Stmt.isStructured (names : List String) (inside : Bool) : Stmt → Bool
  | .expr e _ => e.isAssignment names || e.isCommand
  | .block ⟨body, _⟩ => areStructured names inside body
  | .branch test yes no _ => test.isPure names && yes.isStructured names inside &&
    (match no with
      | some no => no.isStructured names inside
      | none => true)
  | .whileLoop test body _ => test.isPure names && body.isStructured names true
  | .doWhile body test _ => test.isPure names && body.isStructured names true
  | .forLoop init test update body _ =>
    ForInit.isStructured names init && test.all (·.isPure names) &&
      update.all (·.isAssignment names) && body.isStructured names true
  | .switch subject cases _ => subject.isPure names && casesStructured names cases
  | .breaking label _ => inside && label.isNone
  | _ => false

/-- All statements are structured. -/
def areStructured (names : List String) (inside : Bool) : List Stmt → Bool
  | [] => true
  | s :: rest => s.isStructured names inside && areStructured names inside rest

/-- The tests of all cases are literals, and their statements are structured. -/
def casesStructured (names : List String) : List SwitchCase → Bool
  | [] => true
  | ⟨test, body, _⟩ :: rest => test.all (·.isLiteral) && areStructured names true body &&
    casesStructured names rest

end

/-- A declaration of variables by literals. -/
def Stmt.isLiteralDecl : Stmt → Bool
  | .declare ⟨.letDecl, declarators, _⟩ => declarators.all fun
    | ⟨.ident _, some e, _⟩ => e.isLiteral
    | _ => false
  | _ => false

/-- The variables that statements declare. -/
def declaredNames (body : List Stmt) : List String :=
  body.flatMap fun
    | .declare d => d.idents.map (·.name)
    | _ => []

/-- A script that declares variables with distinct names by literals, and then is made of
    structured statements over them. -/
def Script.isStructured (script : Script) : Bool :=
  let names := declaredNames script.body
  decide names.Nodup && !names.contains Intrinsic.run.name &&
    areStructured names false (script.body.dropWhile (·.isLiteralDecl))

end PackScript
