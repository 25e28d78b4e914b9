import PackScript.Json.Basic
import PackScript.Table

namespace PackScript

/-!
# Typed reading of JSON values

A decoder reads a JSON value as a value of some type. It knows how many levels of lists and
objects it may still enter.

* `Decoder.record` — a structure: an object with the fields in any order, where fields that are
  not asked for may have any value, or a list of all fields in order.
* `Decoder.variant` — a constructor with its argument: an object with one entry.
* `Decoder.word` — a constructor without argument: its name, or an object that gives it `null`.
* `JsonLibrary` — what the types of a program need to be written and read. Their readers are made
  for any library; the decoders above are those of one.
-/

/-- Reads a JSON value, with the given number of levels left. -/
abbrev Decoder (α : Type) := Nat → Json → Option α

namespace Decoder

variable {α : Type}

/-! ### Leaves -/

/-- A string. -/
def text : Decoder String
  | _, .string s => some s
  | _, _ => none

/-- A truth value. -/
def flag : Decoder Bool
  | _, .bool b => some b
  | _, _ => none

/-- A natural number of 32 bits. -/
def nat32 : Decoder Nat
  | _, .int i => if 0 ≤ i ∧ i < 0x100000000 then some i.toNat else none
  | _, _ => none

/-- A signed number of 32 bits. -/
def int32 : Decoder Int32
  | _, .int i => if -0x80000000 ≤ i ∧ i < 0x80000000 then some (Int32.ofInt i) else none
  | _, _ => none

/-- A double; an integer is one too. -/
def double : Decoder Float
  | _, .float x => some x
  | _, .int i => some (doubleOfInt i)
  | _, _ => none

/-! ### Lists, tables and options -/

/-- A list. -/
def list (item : Decoder α) : Decoder (List α)
  | levels + 1, .array items => items.mapM (item levels)
  | _, _ => none

/-- An object as a table. A repeated key keeps its first position and its last value. -/
def table (item : Decoder α) : Decoder (Table α)
  | levels + 1, .object entries =>
    (entries.mapM fun ((key, j) : String × Json) => (item levels j).map (key, ·)).map
      Table.ofEntries
  | _, _ => none

/-- A value or `null`. -/
def option (item : Decoder α) : Decoder (Option α)
  | _, .null => some none
  | levels, j => (item levels j).map some

/-! ### Structures -/

/-- The fields of a structure, by position. -/
abbrev Fields := List (Option Json)

/-- The value of a field in an object; a field must not be repeated. -/
def fieldOf (entries : List (String × Json)) (name : String) : Option (Option Json) :=
  match entries.filter (·.1 == name) with
  | [] => some none
  | [(_, j)] => some (some j)
  | _ => none

/-- The fields of a structure. -/
def fields (names : List String) : Json → Option Fields
  | .object entries => names.mapM (fieldOf entries)
  | .array items => if items.length = names.length then some (items.map some) else none
  | _ => none

/-- A structure with the named fields. -/
def record (names : List String) (build : Nat → Fields → Option α) : Decoder α
  | levels + 1, j => (fields names j).bind (build levels)
  | 0, _ => none

/-- A field that has to be there. -/
def needed (item : Decoder α) (levels : Nat) (j : Option Json) : Option α :=
  j.bind (item levels)

/-- A field that may be missing, with a decoder for one that is there. -/
def optional (item : Decoder (Option α)) (levels : Nat) : Option Json → Option (Option α)
  | none => some none
  | some j => item levels j

/-! ### Constructors -/

/-- A constructor with its argument. -/
def variant (cases : String → Option (Decoder α)) : Decoder α
  | levels + 1, .object [(name, j)] => (cases name).bind fun item => item levels j
  | _, _ => none

/-- A constructor without argument. -/
def word (cases : String → Option α) : Decoder α
  | _, .string name => cases name
  | _ + 1, .object [(name, .null)] => cases name
  | _, _ => none

end Decoder

/-! ### Libraries -/

/-- A library that writes and reads JSON texts, and has decoders to make others of. -/
structure JsonLibrary where
  write : Json → String
  read : String → Option Json
  /-- How deep lists and objects may be inside of each other in a text that is read -/
  maxLevels : Nat
  text : Decoder String
  flag : Decoder Bool
  nat32 : Decoder Nat
  int32 : Decoder Int32
  double : Decoder Float
  list {α : Type} (item : Decoder α) : Decoder (List α)
  table {α : Type} (item : Decoder α) : Decoder (Table α)
  option {α : Type} (item : Decoder α) : Decoder (Option α)
  record {α : Type} (names : List String) (build : Nat → Decoder.Fields → Option α) : Decoder α
  variant {α : Type} (cases : String → Option (Decoder α)) : Decoder α
  word {α : Type} (cases : String → Option α) : Decoder α

end PackScript
