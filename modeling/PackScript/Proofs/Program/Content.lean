import Mathlib
import PackScript.Program.Basic

namespace PackScript

/-!
# What programs hold

The trees, doubles and indices that stand in the instructions of a program, and what the types of
its parts promise about them.

* `Nbt.doubles`, `CodeUnit.doubles`, `Program.doubles` — all doubles, in order.
* `Instr.trees` — the trees that an instruction writes or compares with.
* `Instr.indices` — the numbers of the slots, records and channels that it names.
* `Nbt.Distinct` — the keys of every compound are distinct.
* `Program.Proper` — the tables of a program have every name once, and its indices have 32 bits.
-/

/-! ### Trees -/

namespace Nbt

mutual

/-- All doubles in a tree. -/
def doubles : Nbt → List Float
  | .double x => [x]
  | .list items => itemsDoubles items
  | .compound entries => entriesDoubles entries
  | .bool _ | .int _ | .string _ => []

/-- All doubles in items. -/
def itemsDoubles : List Nbt → List Float
  | [] => []
  | n :: rest => doubles n ++ itemsDoubles rest

/-- All doubles in entries. -/
def entriesDoubles : List (String × Nbt) → List Float
  | [] => []
  | (_, n) :: rest => doubles n ++ entriesDoubles rest

end

/-- The keys of every compound in the tree are distinct. -/
inductive Distinct : Nbt → Prop
  | bool (b : Bool) : Distinct (.bool b)
  | int (i : Int32) : Distinct (.int i)
  | double (x : Float) : Distinct (.double x)
  | string (s : String) : Distinct (.string s)
  | list {items : List Nbt} (h : ∀ n ∈ items, Distinct n) : Distinct (.list items)
  | compound {entries : List (String × Nbt)} (hnames : (Table.names entries).Nodup)
      (h : ∀ e ∈ entries, Distinct e.2) : Distinct (.compound entries)

end Nbt

/-! ### Instructions -/

/-- The trees that a write takes. -/
def Source.trees : Source → List Nbt
  | .literal value => [value]
  | .copy _ | .param _ => []

/-- The trees that a guard compares with. -/
def Guard.trees (g : Guard) : List Nbt :=
  g.map (·.value)

/-- The trees in an instruction. -/
def Instr.trees : Instr → List Nbt
  | .set guard _ source => guard.trees ++ source.trees
  | .append _ source => source.trees
  | .invoke guard _ _ _ => guard.trees
  | .returnIf guard _ => guard.trees
  | .returnWith _ | .raw _ => []

/-- The number of an address. -/
def Address.index : Address → Nat
  | .slot s => s.index
  | .record r => r.index
  | .channel c => c.index

/-- The indices that a write reads. -/
def Source.indices : Source → List Nat
  | .copy place => [place.address.index]
  | .literal _ | .param _ => []

/-- The indices that a guard reads. -/
def Guard.indices (g : Guard) : List Nat :=
  g.map (·.place.address.index)

/-- The indices in an instruction. -/
def Instr.indices : Instr → List Nat
  | .set guard target source => guard.indices ++ target.address.index :: source.indices
  | .append target source => target.address.index :: source.indices
  | .invoke guard _ channel store =>
    guard.indices ++ channel.toList.map (·.index) ++ store.toList.map (·.address.index)
  | .returnIf guard _ => guard.indices
  | .returnWith _ | .raw _ => []

/-! ### Units and programs -/

/-- The trees in a unit. -/
def CodeUnit.trees (u : CodeUnit) : List Nbt :=
  u.instrs.flatMap Instr.trees

/-- The doubles in a unit. -/
def CodeUnit.doubles (u : CodeUnit) : List Float :=
  u.trees.flatMap Nbt.doubles

/-- The indices in a unit. -/
def CodeUnit.indices (u : CodeUnit) : List Nat :=
  u.info.scopes ++ u.instrs.flatMap Instr.indices

namespace Program

/-- The trees in a program. -/
def trees (p : Program) : List Nbt :=
  p.units.flatMap (·.2.trees)

/-- The doubles in a program. -/
def doubles (p : Program) : List Float :=
  p.units.flatMap (·.2.doubles)

/-- The indices in a program. -/
def indices (p : Program) : List Nat :=
  p.units.flatMap (·.2.indices) ++ p.functions.map (·.2.binding.index) ++
    p.globals.map (·.2.index) ++ [p.heapBase]

/-- What the types of the parts of a program promise: every name stands once in its table, every
    key once in its compound, and indices have 32 bits. -/
structure Proper (p : Program) : Prop where
  units : p.units.names.Nodup
  functions : p.functions.names.Nodup
  globals : p.globals.names.Nodup
  trees : ∀ t ∈ p.trees, t.Distinct
  indices : ∀ n ∈ p.indices, n < 2 ^ 32

end Program

end PackScript
