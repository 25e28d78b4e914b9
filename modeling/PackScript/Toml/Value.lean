import PackScript.Toml.Number
import PackScript.Toml.Moment

namespace PackScript.Toml

/-!
# Keys and values of TOML
-/

/-! ### Keys -/

/-- A character of a key without quotes. -/
def isKeyChar (c : Char) : Bool :=
  c.isAlphanum || c = '_' || c = '-'

/-- A part of a key. -/
def readKeyPart : Reader String := fun cs =>
  match readLine cs with
  | some (text, rest) => some (.ofList text, rest)
  | none =>
    let name := cs.takeWhile isKeyChar
    if name.isEmpty then none else some (.ofList name, cs.drop name.length)

/-- A key of at most so many parts: the groups on the way, and the last name. Blanks may stand
    around each part. -/
def readKey : Nat → Reader (List String × String)
  | 0, _ => none
  | parts + 1, cs => do
    let (name, rest) ← readKeyPart (skipBlanks cs)
    match skipBlanks rest with
    | '.' :: rest =>
      let ((path, last), rest) ← readKey parts rest
      return ((name :: path, last), rest)
    | rest => return (([], name), rest)

/-- The most parts of a key, and the most levels of a value. -/
def maxLevels : Nat := 79

/-! ### Values -/

/-- What is left after the blanks, ends of line and comments ahead. A comment ends at the first
    character that cannot be in it. -/
def skipLayout (inComment : Bool) : List Char → List Char
  | [] => []
  | '\r' :: '\n' :: rest => skipLayout false rest
  | c :: rest =>
    if c = '\n' then skipLayout false rest
    else if inComment then if isPlain c then skipLayout true rest else c :: rest
    else if isBlank c then skipLayout false rest
    else if c = '#' then skipLayout true rest
    else c :: rest

/-- A value without parts. -/
def readScalar : Reader Node := fun cs =>
  match cs with
  | 't' :: 'r' :: 'u' :: 'e' :: rest => some (.flag true, rest)
  | 'f' :: 'a' :: 'l' :: 's' :: 'e' :: rest => some (.flag false, rest)
  | _ =>
    match readText cs with
    | some (text, rest) => some (.text (.ofList text), rest)
    | none =>
      match moment? cs with
      | some rest => some (.moment, rest)
      | none => readNumber cs

/-- The items of a list up to its end; there are at most so many characters. -/
def readItems (value : Reader Node) : Nat → Reader (List Node)
  | 0, _ => none
  | fuel + 1, cs =>
    match skipLayout false cs with
    | ']' :: rest => some ([], rest)
    | cs => do
      let (item, rest) ← value cs
      match skipLayout false rest with
      | ']' :: rest => return ([item], rest)
      | ',' :: rest =>
        let (items, rest) ← readItems value fuel rest
        return (item :: items, rest)
      | _ => none

/-- A key and its value. -/
def readPair (value : Reader Node) : Reader ((List String × String) × Node) := fun cs => do
  let (key, rest) ← readKey maxLevels cs
  let (_, rest) ← expect '=' rest
  let (node, rest) ← value (skipBlanks rest)
  return ((key, node), rest)

/-- The pairs of a group up to its brace, at least one; there are at most so many characters. -/
def readPairs (value : Reader Node) : Nat → Group Node → Reader (Group Node)
  | 0, _, _ => none
  | fuel + 1, group, cs => do
    let (((path, name), node), rest) ← readPair value cs
    let group ← group.add path name node
    match skipBlanks rest with
    | '\x7d' :: rest => return (group, rest)
    | ',' :: rest => readPairs value fuel group rest
    | _ => none

/-- A group after its opening brace. -/
def readGroup (value : Reader Node) : Reader Node := fun cs =>
  match skipBlanks cs with
  | '\x7d' :: rest => some (.inline { }, rest)
  | cs => do
    let (group, rest) ← readPairs value cs.length { } cs
    return (.inline group, rest)

/-- A value with at most so many levels of lists and groups. -/
def readValue : Nat → Reader Node
  | 0 => readScalar
  | levels + 1 => fun cs =>
    match cs with
    | '[' :: rest =>
      (readItems (readValue levels) (rest.length + 1) rest).map fun (items, rest) =>
        (.list items, rest)
    | '\x7b' :: rest => readGroup (readValue levels) rest
    | _ => readScalar cs

end PackScript.Toml
