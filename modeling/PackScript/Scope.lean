import PackScript.Program.Basic

namespace PackScript

/-!
# Scopes

A scope binds names to slots. Scopes are numbered in the order of creation, and code sees a chain
of them, outermost first, of which the innermost binding of a name counts. Every binding keeps its
slot for the whole compilation, so a closure and the code around it use the same place.
-/

/-- How a name was declared. -/
inductive BindingKind where
  | let_
  | const_
  | var_
  | param
  | function
  | class_
deriving Repr, DecidableEq, Inhabited

namespace BindingKind

/-- All kinds. -/
def all : List BindingKind :=
  [.let_, .const_, .var_, .param, .function, .class_]

/-- The name of the kind. -/
def name : BindingKind → String
  | .let_ => "let"
  | .const_ => "const"
  | .var_ => "var"
  | .param => "param"
  | .function => "function"
  | .class_ => "class"

/-- An assignment may write the binding. -/
def isMutable (k : BindingKind) : Bool :=
  k ≠ .const_

/-- A scope may declare the name again, which leaves the binding as it is. -/
def allowsRedeclaration : BindingKind → Bool
  | .var_ | .function => true
  | _ => false

end BindingKind

/-- The slot of a name, and how it was declared. -/
structure Binding where
  slot : Slot
  kind : BindingKind
deriving Repr, DecidableEq, Inhabited

/-- The number of a scope. -/
abbrev ScopeId := Nat

/-- Why a name cannot be declared. -/
inductive DeclareError where
  | alreadyDeclared (name : String)
  | unknownScope (scope : ScopeId)
deriving Repr, DecidableEq, Inhabited

/-- All scopes. -/
structure Scopes where
  list : List (Table Binding)
deriving Repr, DecidableEq, Inhabited

/-- The number of scopes and of global names at some point. -/
structure ScopeMark where
  scopes : Nat
  globals : Nat
deriving Repr, DecidableEq, Inhabited

namespace Scopes

/-- No scopes. -/
def empty : Scopes := ⟨[]⟩

/-- The bindings of a scope. -/
def get? (a : Scopes) (scope : ScopeId) : Option (Table Binding) :=
  a.list[scope]?

/-- Adds a scope. -/
def create (a : Scopes) : ScopeId × Scopes :=
  (a.list.length, ⟨a.list ++ [[]]⟩)

/-- Declares a name in a scope: the binding that counts, and the scopes afterwards. -/
def declare (a : Scopes) (scope : ScopeId) (name : String) (binding : Binding) :
    Except DeclareError (Binding × Scopes) :=
  match a.get? scope with
  | none => .error (.unknownScope scope)
  | some table => match table.find? name with
    | some old =>
      if old.kind.allowsRedeclaration && binding.kind.allowsRedeclaration then .ok (old, a)
      else .error (.alreadyDeclared name)
    | none => .ok (binding, ⟨a.list.set scope (table.put name binding)⟩)

/-- The binding of a name in a scope. -/
def own? (a : Scopes) (scope : ScopeId) (name : String) : Option Binding :=
  (a.get? scope).bind (·.find? name)

/-- The binding of a name in a chain of scopes. -/
def resolve (a : Scopes) (chain : List ScopeId) (name : String) : Option Binding :=
  chain.reverse.findSome? (a.own? · name)

/-- The position in a chain of the scope that binds a name. -/
def resolveDepth (a : Scopes) (chain : List ScopeId) (name : String) : Option Nat :=
  (chain.reverse.findIdx? fun scope => (a.own? scope name).isSome).map
    (chain.length - 1 - ·)

/-- The mark of the present state. -/
def mark (a : Scopes) (global : ScopeId) : ScopeMark :=
  ⟨a.list.length, ((a.get? global).getD []).length⟩

/-- Drops the scopes and global names that came after a mark. -/
def rollback (a : Scopes) (global : ScopeId) (m : ScopeMark) : Scopes :=
  ⟨(a.list.take m.scopes).modify global (·.take m.globals)⟩

end Scopes

end PackScript
