import PackScript.Program.Basic

namespace PackScript

/-!
# Equality of programs

Two programs are the same when their parts are; the order of tables does not count, and doubles
are compared as numbers.
-/

/-- Two tables have the same names with the same entries. -/
def Table.same {α : Type} (eq : α → α → Bool) (a b : Table α) : Bool :=
  a.length == b.length && List.all a fun (name, x) => match Table.find? b name with
    | some y => eq x y
    | none => false

/-- Two lists have the same items. -/
def sameLists {α : Type} (eq : α → α → Bool) (a b : List α) : Bool :=
  a.length == b.length && (a.zip b).all fun (x, y) => eq x y

/-- Two writes take the same. -/
def Source.same : Source → Source → Bool
  | .literal a, .literal b => a.same b
  | .copy a, .copy b => a = b
  | .param a, .param b => a = b
  | _, _ => false

/-- Two tests are the same. -/
def Test.same (a b : Test) : Bool :=
  a.place = b.place && a.value.same b.value && a.negated = b.negated

/-- Two guards are the same. -/
def Guard.same (a b : Guard) : Bool :=
  sameLists Test.same a b

/-- Two instructions are the same. -/
def Instr.same : Instr → Instr → Bool
  | .set g d s, .set g' d' s' => g.same g' && d = d' && s.same s'
  | .append d s, .append d' s' => d = d' && s.same s'
  | .invoke g t c s, .invoke g' t' c' s' => g.same g' && t = t' && c = c' && s = s'
  | .returnIf g c, .returnIf g' c' => g.same g' && c = c'
  | .returnWith c, .returnWith c' => c = c'
  | .raw a, .raw b => a = b
  | _, _ => false

/-- Two units are the same. -/
def CodeUnit.same (a b : CodeUnit) : Bool :=
  a.name = b.name && a.info = b.info && sameLists Instr.same a.instrs b.instrs

/-- Two programs are the same. -/
def Program.same (a b : Program) : Bool :=
  a.ns = b.ns && a.entry = b.entry && a.units.same CodeUnit.same b.units &&
    a.functions.same (· = ·) b.functions && a.globals.same (· = ·) b.globals &&
    a.heapBase = b.heapBase

end PackScript
