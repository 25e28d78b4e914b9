import PackScript.Table
import PackScript.Binary64

namespace PackScript

/-!
# Storage trees

The target environment keeps its data in trees of named compounds, lists and leaves. This module
has the tree, its views and the access by path.

* `Nbt.get?`, `Nbt.getPath` — the node under a key or a path.
* `Nbt.setPath`, `Nbt.appendPath` — a write below a path, refused as a whole when a node on the
  way is not a compound.
* `Nbt.same` — equality of trees, where the order of keys does not count.
* `Nbt.fits` — the comparison a guard makes, where a compound may hold more than it asks for.
-/

/-- A node of a storage tree. -/
inductive Nbt where
  | bool (value : Bool)
  | int (value : Int32)
  | double (value : Float)
  | string (value : String)
  | list (items : List Nbt)
  | compound (entries : List (String × Nbt))
deriving Inhabited, Repr

namespace Nbt

/-- The compound without entries. -/
def empty : Nbt := .compound []

/-! ### Views -/

/-- The text of a string node. -/
def text? : Nbt → Option String
  | .string s => some s
  | _ => none

/-- The number a leaf stands for; a flag counts as zero or one. -/
def number? : Nbt → Option Float
  | .double x => some x
  | .int i => some (doubleOfInt i.toInt)
  | .bool b => some (if b then 1.0 else 0.0)
  | _ => none

/-- The flag a leaf stands for; an integer counts as set unless it is zero. -/
def flag? : Nbt → Option Bool
  | .bool b => some b
  | .int i => some (i != 0)
  | _ => none

/-- The items of a list node. -/
def items? : Nbt → Option (List Nbt)
  | .list items => some items
  | _ => none

/-! ### Paths -/

/-- The entry of a compound. -/
def get? : Nbt → String → Option Nbt
  | .compound entries, key => Table.find? entries key
  | _, _ => none

/-- The node at a path of keys. -/
def getPath (node : Nbt) : List String → Option Nbt
  | [] => some node
  | key :: path => match node.get? key with
    | some child => child.getPath path
    | none => none

/-- Writes a node at a path, creating the compounds that are missing on the way. `none` when a
    node on the way is there and is not a compound. -/
def setPath (node : Nbt) : List String → Nbt → Option Nbt
  | [], value => some value
  | key :: path, value => match node with
    | .compound entries =>
      (((Table.find? entries key).getD empty).setPath path value).map fun child =>
        .compound (Table.put entries key child)
    | _ => none

/-- Adds an item to the list at a path, creating the list when there is nothing. `none` when the
    path leads to something else, or cannot be written. -/
def appendPath (node : Nbt) (path : List String) (value : Nbt) : Option Nbt :=
  match node.getPath path with
  | some (.list items) => node.setPath path (.list (items ++ [value]))
  | some _ => none
  | none => node.setPath path (.list [value])

/-! ### Comparison -/

mutual

/-- Equality of trees: lists item by item, compounds entry by entry in any order, doubles as
    numbers. -/
def same : Nbt → Nbt → Bool
  | .bool a, .bool b => a == b
  | .int a, .int b => a == b
  | .double a, .double b => a == b
  | .string a, .string b => a == b
  | .list a, .list b => sameItems a b
  | .compound a, .compound b => a.length == b.length && sameEntries a b
  | _, _ => false

/-- Equality of lists of trees. -/
def sameItems : List Nbt → List Nbt → Bool
  | [], [] => true
  | a :: as, b :: bs => same a b && sameItems as bs
  | _, _ => false

/-- Every entry of the first table is an entry of the second. -/
def sameEntries : List (String × Nbt) → List (String × Nbt) → Bool
  | [], _ => true
  | (key, a) :: rest, entries =>
    (match Table.find? entries key with
      | some b => same a b
      | none => false) && sameEntries rest entries

end

mutual

/-- The node meets what a guard asks for: a compound may hold further entries, and a number that
    is none meets itself. -/
def fits (expected actual : Nbt) : Bool :=
  match expected, actual with
  | .double b, .double a => a == b || (a.isNaN && b.isNaN)
  | .compound entries, .compound found => fitsEntries entries found
  | expected, actual => same actual expected

/-- Every entry asked for is there and fits. -/
def fitsEntries : List (String × Nbt) → List (String × Nbt) → Bool
  | [], _ => true
  | (key, expected) :: rest, found =>
    (match Table.find? found key with
      | some actual => fits expected actual
      | none => false) && fitsEntries rest found

end

end Nbt

end PackScript
