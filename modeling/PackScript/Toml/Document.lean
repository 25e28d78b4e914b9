import PackScript.Toml.Value

namespace PackScript.Toml

/-!
# Reading TOML documents

A document has a line for each pair and each header. A header closes the group before it and
opens another. `Toml.parse?` reads a whole document.
-/

/-- The group that a header names. -/
structure Header where
  /-- Each header of this name opens another group -/
  repeated : Bool
  path : List String
  name : String

/-- A document that is being read: what is closed, and the group that is open. -/
structure Draft where
  root : Group Node := { }
  current : Group Node := { }
  header : Option Header := none

namespace Draft

/-- The node of a group that is closed, where `before` stands under its name. -/
def closed (repeated : Bool) (current : Group Node) (before : Option Node) : Option Node :=
  match repeated, before with
  | true, none => some (.tables [current])
  | true, some (.tables groups) => some (.tables (groups ++ [current]))
  | false, none => some (.table current)
  | false, some (.table group) => if group.implied then some (.table current) else none
  | _, _ => none

/-- The document with the open group closed. -/
def close (d : Draft) : Option (Group Node) :=
  match d.header with
  | none => some d.current
  | some h =>
    d.root.below (fun parent =>
      (closed h.repeated d.current (parent.find? h.name)).map (parent.put h.name)) false
      h.path

/-- What is there of the group that a header opens: it may have been a step to others. -/
def opened (root : Group Node) (h : Header) : Option (Group Node) :=
  if h.repeated then some { }
  else match (root.at? h.path).bind (·.find? h.name) with
    | none => some { }
    | some (.table g) =>
      if g.implied && !g.dotted then some { g with implied := false } else none
    | some _ => none

/-- Opens the group of a header. -/
def open? (d : Draft) (h : Header) : Option Draft := do
  let root ← d.close
  let current ← opened root h
  return ⟨root, current, some h⟩

/-- Adds a pair to the open group. -/
def add? (d : Draft) (path : List String) (name : String) (n : Node) : Option Draft :=
  (d.current.add path name n).map fun current => { d with current := current }

end Draft

/-- What is left after the end of a line, which may have a comment. -/
def endOfLine? (cs : List Char) : Option (List Char) :=
  let after := match skipBlanks cs with
    | '#' :: rest => rest.dropWhile isPlain
    | rest => rest
  if after.isEmpty then some [] else newline? after

/-- A header. -/
def readHeader : Reader Header
  | '[' :: '[' :: rest => do
    let ((path, name), rest) ← readKey maxLevels rest
    let (_, rest) ← expect ']' rest
    let (_, rest) ← expect ']' rest
    return (⟨true, path, name⟩, rest)
  | '[' :: rest => do
    let ((path, name), rest) ← readKey maxLevels rest
    let (_, rest) ← expect ']' rest
    return (⟨false, path, name⟩, rest)
  | _ => none

/-- Reads lines into a document; there are at most so many characters. -/
def readDocument : Nat → Draft → List Char → Option Draft
  | 0, _, _ => none
  | fuel + 1, d, cs =>
    match skipBlanks cs with
    | [] => some d
    | '#' :: rest => (endOfLine? ('#' :: rest)).bind (readDocument fuel d)
    | '[' :: rest => do
      let (h, rest) ← readHeader ('[' :: rest)
      readDocument fuel (← d.open? h) (← endOfLine? rest)
    | c :: rest =>
      match newline? (c :: rest) with
      | some rest => readDocument fuel d rest
      | none => do
        let (((path, name), node), rest) ← readPair (readValue maxLevels) (c :: rest)
        readDocument fuel (← d.add? path name node) (← endOfLine? rest)

/-- The document that a text writes. A mark of byte order may stand before it. -/
def parse? (text : String) : Option (Group Node) :=
  let cs := match text.toList with
    | '\ufeff' :: rest => rest
    | cs => cs
  (readDocument (cs.length + 1) { } cs).bind Draft.close

end PackScript.Toml
