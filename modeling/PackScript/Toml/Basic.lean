import PackScript.Table

namespace PackScript.Toml

/-!
# TOML documents

A document is a group of named nodes. How a group came to be decides whether it may be extended:
by a header, by a dotted key, or only as a step on the way to another group. `Group.below` walks
along such steps, and `Group.add` adds the node of a key.
-/

/-- Named nodes, with how the group came to be. -/
structure Group (α : Type) where
  /-- It was never written itself, only a step to another one -/
  implied : Bool := false
  /-- The steps to it were those of a dotted key -/
  dotted : Bool := false
  entries : List (String × α) := []

/-- A node of a document. Dates and times are checked, and not kept. -/
inductive Node where
  | text (s : String)
  | flag (b : Bool)
  | int (i : Int)
  | float (x : Float)
  | moment
  | list (items : List Node)
  /-- Written as a value between braces, and closed since -/
  | inline (group : Group Node)
  /-- Written by a header or by dotted keys -/
  | table (group : Group Node)
  /-- Written by repeated headers -/
  | tables (groups : List (Group Node))

namespace Group

/-- The node under a name. -/
def find? (g : Group Node) (name : String) : Option Node :=
  Table.find? g.entries name

/-- The group with the node under a name. -/
def put (g : Group Node) (name : String) (n : Node) : Group Node :=
  { g with entries := Table.put g.entries name n }

/-- The node that a step leads to, made if there is none. -/
def step (g : Group Node) (dotted : Bool) (name : String) : Node :=
  (g.find? name).getD (.table { implied := true, dotted := dotted })

/-- Changes the group that the steps lead to. Steps of a dotted key do not enter a group that has
    been written; steps of a header enter the last one of repeated groups. -/
def below (change : Group Node → Option (Group Node)) (dotted : Bool) :
    List String → Group Node → Option (Group Node)
  | [], g => change g
  | name :: path, g =>
    match g.step dotted name with
    | .table child =>
      if dotted && !child.implied then none
      else (below change dotted path child).map fun child => g.put name (.table child)
    | .tables children =>
      children.getLast?.bind fun child =>
        (below change dotted path child).map fun child =>
          g.put name (.tables (children.dropLast ++ [child]))
    | _ => none

/-- The group that the steps lead to, if it is there. -/
def at? : List String → Group Node → Option (Group Node)
  | [], g => some g
  | name :: path, g =>
    match g.find? name with
    | some (.table child) => at? path child
    | some (.tables children) => children.getLast?.bind (at? path)
    | _ => none

/-- Adds the node of a new key. A dotted key adds only to groups of dotted keys. -/
def add (g : Group Node) (path : List String) (name : String) (n : Node) :
    Option (Group Node) :=
  g.below (fun g =>
    if g.dotted == path.isEmpty || (g.find? name).isSome then none
    else some (g.put name n)) true path

end Group

end PackScript.Toml
