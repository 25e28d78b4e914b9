namespace PackScript

/-!
# Tables in insertion order

A table is a list of named entries. Writing an entry that is there keeps its position, and a new
entry goes to the end, so the list is the order in which names were first written. Compounds of
the storage tree, the units of a program and the variables of a scope are such tables.
-/

/-- Named entries, in the order in which the names were first written. -/
abbrev Table (α : Type) := List (String × α)

namespace Table

variable {α : Type}

/-- The entry of a name. -/
def find? : Table α → String → Option α
  | [], _ => none
  | (name, a) :: rest, key => if name = key then some a else find? rest key

/-- The table has an entry of that name. -/
def has (table : Table α) (key : String) : Bool :=
  (find? table key).isSome

/-- Writes an entry: in place when the name is there, at the end when it is new. -/
def put : Table α → String → α → Table α
  | [], key, a => [(key, a)]
  | (name, b) :: rest, key, a =>
    if name = key then (name, a) :: rest else (name, b) :: put rest key a

/-- The names, in order. -/
def names (table : Table α) : List String :=
  table.map (·.1)

/-- Writes the entries one after the other, so that a repeated name keeps its first position and
    its last entry. -/
def ofEntries (entries : List (String × α)) : Table α :=
  entries.foldl (fun table e => put table e.1 e.2) []

end Table

end PackScript
