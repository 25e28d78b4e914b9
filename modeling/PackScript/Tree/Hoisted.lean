import PackScript.Tree.Basic

namespace PackScript

/-!
# Declarations ahead of their place

A `var` is bound in the whole body of its function, and a function declared in a list of
statements is defined before the others.
-/

/-- The names that a declaration binds; patterns are not looked into. -/
def Declaration.idents (d : Declaration) : List Ident :=
  d.declarators.filterMap fun
    | ⟨.ident id, _, _⟩ => some id
    | _ => none

/-- The names of a `var` declaration. -/
def Declaration.varIdents (d : Declaration) : List Ident :=
  if d.kind = .varDecl then d.idents else []

/-- The names of a `var` declaration in the head of a loop. -/
def ForInit.varIdents : ForInit → List Ident
  | .declare d => d.varIdents
  | .expr _ => []

/-- The name of a `var` that a loop binds. -/
def ForTarget.varIdents : ForTarget → List Ident
  | .declared .varDecl (.ident id) => [id]
  | _ => []

mutual

/-- The names that a statement declares with `var`, inside blocks too but not inside
    functions. -/
def Stmt.varIdents : Stmt → List Ident
  | .declare d => d.varIdents
  | .block ⟨body, _⟩ => stmtsVarIdents body
  | .branch _ yes no _ => yes.varIdents ++ (match no with
    | some s => s.varIdents
    | none => [])
  | .whileLoop _ body _ => body.varIdents
  | .doWhile body _ _ => body.varIdents
  | .forLoop init _ _ body _ => (match init with
    | some i => i.varIdents
    | none => []) ++ body.varIdents
  | .forOf target _ body _ => target.varIdents ++ body.varIdents
  | .switch _ cases _ => casesVarIdents cases
  | .function _ _ | .classDecl _ _ | .expr _ _ | .returning _ _ | .breaking _ _
  | .unsupported _ _ | .empty _ => []

/-- The names that statements declare with `var`. -/
def stmtsVarIdents : List Stmt → List Ident
  | [] => []
  | s :: rest => s.varIdents ++ stmtsVarIdents rest

/-- The names that the cases of a switch declare with `var`. -/
def casesVarIdents : List SwitchCase → List Ident
  | [] => []
  | ⟨_, body, _⟩ :: rest => stmtsVarIdents body ++ casesVarIdents rest

end

/-- The statement declares a function. -/
def Stmt.isFunction : Stmt → Bool
  | .function _ _ => true
  | _ => false

/-- The functions first, then the other statements. -/
def functionsFirst (body : List Stmt) : List Stmt :=
  body.filter (·.isFunction) ++ body.filter (!·.isFunction)

end PackScript
