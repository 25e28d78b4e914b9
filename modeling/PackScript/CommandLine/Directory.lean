import PackScript.CommandLine.Files
import PackScript.Table

namespace PackScript

/-!
# Directories

A directory as a value: the texts of its files, and its folders. `Directory.files` are the
operations of the command line on it.

Names lead from the directory down to a file or folder. The names `..` lead up, and may stand
before the others; the name `/` leads to the root, and may be the first. Outside of the directory
only the folders above it and the root are there, and what was written.
-/

/-- Files and folders, by the names that lead to them. -/
structure Directory where
  contents : List (List String × String) := []
  folders : List (List String) := []
deriving Repr, DecidableEq, Inhabited

/-- What is found under names. -/
inductive Entry where
  | folder
  | file (text : String)
  | nothing
deriving Repr, DecidableEq, Inhabited

/-- The longest name, in bytes. -/
def maxNameSize : Nat := 255

/-- The longest path, in bytes. -/
def maxPathSize : Nat := 4095

namespace Directory

/-- The names lead up only, or to the root. -/
def isAbove (names : List String) : Bool :=
  names = ["/"] || names.all (· = "..")

/-- The names that lead up from where some names lead. There is nothing above the root. -/
def up (names : List String) : List String :=
  if names = ["/"] then names
  else if isAbove names then ".." :: names
  else names.dropLast

/-- What is under the names. -/
def entry (d : Directory) (names : List String) : Entry :=
  if isAbove names || d.folders.contains names then .folder
  else match d.contents.find? (·.1 = names) with
    | some (_, text) => .file text
    | none => .nothing

/-- Writes the file under the names. -/
def put (d : Directory) (names : List String) (text : String) : Directory :=
  { d with contents := (names, text) :: d.contents.filter (·.1 ≠ names) }

/-- Makes the folder under the names, and those it is in. -/
def withFolders (d : Directory) (names : List String) : Directory :=
  { d with folders := (List.range names.length).map (fun n => names.take (n + 1)) ++ d.folders }

/-- The directory with these files, by their paths. -/
def ofFiles (files : Table String) : Directory :=
  files.foldl (fun d (path, text) =>
    let names := (Path.steps path).filter fun s => s ≠ "" && s ≠ "."
    (d.withFolders names.dropLast).put names text) { }

/-- Walks from a folder along steps: the names that they lead to. Only the last of them may lead
    to something that is no folder, or is not there. -/
def walk (d : Directory) (names : List String) : List String → Except FileError (List String)
  | [] => .ok names
  | step :: rest =>
    match d.entry names with
    | .file _ => .error .notDirectory
    | .nothing => .error .notFound
    | .folder =>
      if step = "" ∨ step = "." then walk d names rest
      else if step = ".." then walk d (up names) rest
      else if maxNameSize < step.utf8ByteSize then .error .nameTooLong
      else walk d (names ++ [step]) rest

/-- The names that a path leads to. -/
def resolve (d : Directory) (path : String) : Except FileError (List String) := do
  Path.check path
  if path.isEmpty then throw .notFound
  if maxPathSize < path.utf8ByteSize then throw .nameTooLong
  d.walk (if Path.isRooted path then ["/"] else []) (Path.steps path)

/-- What a path leads to. -/
def look (d : Directory) (path : String) : Except FileError Entry :=
  (d.resolve path).map d.entry

/-- The text of the file at a path. -/
def read (d : Directory) (path : String) : Except FileError String := do
  match ← d.look path with
  | .file text => return text
  | .folder => throw .isDirectory
  | .nothing => throw .notFound

/-- The directory with the file at a path written. -/
def write (d : Directory) (path text : String) : Except FileError Directory := do
  let names ← d.resolve path
  match d.entry names with
  | .folder => throw .isDirectory
  | _ => return d.put names text

/-- The directory with a new folder at a path. -/
def makeFolder (d : Directory) (path : String) : Except FileError Directory := do
  let names ← d.resolve path
  match d.entry names with
  | .nothing => return { d with folders := names :: d.folders }
  | _ => throw .alreadyExists

/-- Something is at the path. -/
def isThere (d : Directory) (path : String) : Bool :=
  match d.look path with
  | .ok .nothing | .error _ => false
  | .ok _ => true

/-- A folder is at the path. -/
def isFolder (d : Directory) (path : String) : Bool :=
  match d.look path with
  | .ok .folder => true
  | _ => false

/-- A change of the directory, which a failure leaves as it is. -/
def change (f : Directory → Except FileError Directory) :
    StateM Directory (Except FileError Unit) := do
  match f (← get) with
  | .ok d =>
    set d
    return .ok ()
  | .error e => return .error e

/-- The operations on a directory. -/
def files : Files (StateM Directory) where
  read path := return (← get).read path
  write path text := change (·.write path text)
  makeFolder path := change (·.makeFolder path)
  isThere path := return (← get).isThere path
  isFolder path := return (← get).isFolder path

/-- The names lead to something in the directory. -/
def isInside (names : List String) : Bool :=
  !(names.head?.any fun name => name = ".." || name = "/")

/-- The files in the directory that are new or changed since, by their paths. -/
def changesSince (d before : Directory) : Table String :=
  (d.contents.filter fun (names, text) =>
    isInside names && before.entry names ≠ .file text).map
    fun (names, text) => ("/".intercalate names, text)

end Directory

end PackScript
