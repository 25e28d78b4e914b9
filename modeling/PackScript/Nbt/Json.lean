import PackScript.Json.Decode
import PackScript.Nbt.Basic

namespace PackScript

/-!
# Storage trees in JSON

A node is an object with one entry, named for what the node is.
-/

namespace Nbt

mutual

/-- The JSON value of a tree. -/
def toJson : Nbt → Json
  | .bool b => .object [("Bool", .bool b)]
  | .int i => .object [("Int", .int i.toInt)]
  | .double x => .object [("Double", .float x)]
  | .string s => .object [("String", .string s)]
  | .list items => .object [("List", .array (itemsJson items))]
  | .compound entries => .object [("Compound", .object (entriesJson entries))]

/-- The JSON values of items. -/
def itemsJson : List Nbt → List Json
  | [] => []
  | n :: rest => toJson n :: itemsJson rest

/-- The JSON values of entries. -/
def entriesJson : List (String × Nbt) → List (String × Json)
  | [] => []
  | (key, n) :: rest => (key, toJson n) :: entriesJson rest

end

/-- Reads a tree, of which so many nodes are below each other. -/
def reader (L : JsonLibrary) : Nat → Decoder Nbt
  | 0 => fun _ _ => none
  | n + 1 => L.variant fun
    | "Bool" => some fun levels j => (L.flag levels j).map .bool
    | "Int" => some fun levels j => (L.int32 levels j).map .int
    | "Double" => some fun levels j => (L.double levels j).map .double
    | "String" => some fun levels j => (L.text levels j).map .string
    | "List" => some fun levels j => (L.list (reader L n) levels j).map .list
    | "Compound" => some fun levels j => (L.table (reader L n) levels j).map .compound
    | _ => none

end Nbt

end PackScript
