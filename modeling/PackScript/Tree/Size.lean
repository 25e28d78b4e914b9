import PackScript.Tree.Basic

namespace PackScript

/-!
# The number of nodes of a tree

Every node counts for one more than its parts together, so a part is smaller than the whole. The
compiler takes the size of a statement as the bound on its own recursion.
-/

mutual

/-- Number of nodes of an expression. -/
def Expr.size : Expr → Nat
  | .literal _ _ | .ident _ | .this _ | .super _ | .newTarget _ => 1
  | .array elements _ => elementsSize elements + 1
  | .object properties _ => propertiesSize properties + 1
  | .function fn => fn.size + 1
  | .arrow params body _ _ => paramsSize params + body.size + 1
  | .classExpr cls => cls.size + 1
  | .template _ parts _ => exprsSize parts + 1
  | .unary _ e _ | .update _ e _ _ | .spread e _ | .await e _ => e.size + 1
  | .binary _ a b _ | .logical _ a b _ => a.size + b.size + 1
  | .conditional a b c _ => a.size + b.size + c.size + 1
  | .assign _ target value _ => target.size + value.size + 1
  | .sequence es _ => exprsSize es + 1
  | .member m => m.size + 1
  | .call f es _ _ | .new f es _ => f.size + exprsSize es + 1
  | .yield e _ => optionSize e + 1

/-- Number of nodes of expressions. -/
def exprsSize : List Expr → Nat
  | [] => 0
  | e :: es => e.size + exprsSize es

/-- Number of nodes of an expression that may be missing. -/
def optionSize : Option Expr → Nat
  | none => 0
  | some e => e.size

/-- Number of nodes of the elements of an array. -/
def elementsSize : List (Option Expr) → Nat
  | [] => 0
  | e :: es => optionSize e + elementsSize es

/-- Number of nodes of a member access. -/
def Member.size : Member → Nat
  | ⟨object, key, _, _⟩ => object.size + key.size + 1

/-- Number of nodes of a member key. -/
def MemberKey.size : MemberKey → Nat
  | .name _ => 0
  | .index e => e.size

/-- Number of nodes of a property name. -/
def PropertyKey.size : PropertyKey → Nat
  | .ident _ | .string _ _ | .number _ _ => 0
  | .computed e => e.size

/-- Number of nodes of the entries of an object. -/
def propertiesSize : List Property → Nat
  | [] => 0
  | .entry key value _ _ _ _ :: ps => key.size + value.size + propertiesSize ps + 1
  | .spread e _ :: ps => e.size + propertiesSize ps + 1

/-- Number of nodes of a function. -/
def Function.size : Function → Nat
  | ⟨_, params, body, _, _, _⟩ => paramsSize params + body.size + 1

/-- Number of nodes of a block. -/
def Block.size : Block → Nat
  | ⟨body, _⟩ => stmtsSize body + 1

/-- Number of nodes of parameters. -/
def paramsSize : List Param → Nat
  | [] => 0
  | ⟨pattern, _⟩ :: ps => pattern.size + paramsSize ps + 1

/-- Number of nodes of the body of an arrow function. -/
def ArrowBody.size : ArrowBody → Nat
  | .expr e => e.size
  | .block b => b.size

/-- Number of nodes of a class. -/
def ClassNode.size : ClassNode → Nat
  | ⟨_, parent, members, _, _⟩ => optionSize parent + membersSize members + 1

/-- Number of nodes of the members of a class. -/
def membersSize : List ClassMember → Nat
  | [] => 0
  | .method key fn _ _ _ :: ms => key.size + fn.size + membersSize ms + 1
  | .field ⟨key, value, _, _⟩ :: ms => key.size + optionSize value + membersSize ms + 1
  | .ctor params body _ :: ms => paramsSize params + body.size + membersSize ms + 1

/-- Number of nodes of an assignment target. -/
def AssignTarget.size : AssignTarget → Nat
  | .ident _ => 1
  | .member m => m.size
  | .pattern p => p.size

/-- Number of nodes of a pattern. -/
def Pattern.size : Pattern → Nat
  | .ident _ => 1
  | .object properties _ => patternPropertiesSize properties + 1
  | .array elements _ => patternsSize elements + 1
  | .rest p _ => p.size + 1
  | .withDefault p e _ => p.size + e.size + 1

/-- Number of nodes of the entries of an object pattern. -/
def patternPropertiesSize : List PatternProperty → Nat
  | [] => 0
  | .entry key value _ :: ps => key.size + value.size + patternPropertiesSize ps + 1
  | .rest p _ :: ps => p.size + patternPropertiesSize ps + 1

/-- Number of nodes of the elements of an array pattern. -/
def patternsSize : List (Option Pattern) → Nat
  | [] => 0
  | none :: ps => patternsSize ps
  | some p :: ps => p.size + patternsSize ps

/-- Number of nodes of a statement. -/
def Stmt.size : Stmt → Nat
  | .declare decl => decl.size + 1
  | .function _ fn => fn.size + 1
  | .classDecl _ cls => cls.size + 1
  | .block b => b.size + 1
  | .branch test yes none _ => test.size + yes.size + 1
  | .branch test yes (some no) _ => test.size + yes.size + no.size + 1
  | .switch subject cases _ => subject.size + casesSize cases + 1
  | .forLoop none test update body _ => optionSize test + optionSize update + body.size + 1
  | .forLoop (some init) test update body _ =>
    init.size + optionSize test + optionSize update + body.size + 1
  | .forOf target subject body _ => target.size + subject.size + body.size + 1
  | .whileLoop test body _ | .doWhile body test _ => test.size + body.size + 1
  | .returning e _ => optionSize e + 1
  | .expr e _ => e.size + 1
  | .breaking _ _ | .unsupported _ _ | .empty _ => 1

/-- Number of nodes of statements. -/
def stmtsSize : List Stmt → Nat
  | [] => 0
  | s :: ss => s.size + stmtsSize ss

/-- Number of nodes of a declaration. -/
def Declaration.size : Declaration → Nat
  | ⟨_, declarators, _⟩ => declaratorsSize declarators + 1

/-- Number of nodes of declared variables. -/
def declaratorsSize : List Declarator → Nat
  | [] => 0
  | ⟨pattern, init, _⟩ :: ds => pattern.size + optionSize init + declaratorsSize ds + 1

/-- Number of nodes of the cases of a switch. -/
def casesSize : List SwitchCase → Nat
  | [] => 0
  | ⟨test, body, _⟩ :: cs => optionSize test + stmtsSize body + casesSize cs + 1

/-- Number of nodes of the first part of a loop. -/
def ForInit.size : ForInit → Nat
  | .declare decl => decl.size
  | .expr e => e.size

/-- Number of nodes of what a loop binds. -/
def ForTarget.size : ForTarget → Nat
  | .declared _ p | .existing p => p.size

end

end PackScript
