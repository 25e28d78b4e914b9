import PackScript.CommandLine.Path

namespace PackScript

/-!
# Files

What the command line needs of files, apart from where they are kept: `Files m` has the
operations, and `Files.store` writes a file into folders that need not be there yet.
-/

/-- Why an operation on a file fails. -/
inductive FileError where
  | notFound
  | denied
  | alreadyExists
  | notDirectory
  | isDirectory
  | nameTooLong
  /-- The path has a character that ends it -/
  | brokenName
  | other (text : String)
deriving Repr, DecidableEq, Inhabited

/-- The message of a failure. -/
def FileError.message : FileError → String
  | .notFound => "No such file or directory (os error 2)"
  | .denied => "Permission denied (os error 13)"
  | .alreadyExists => "File exists (os error 17)"
  | .notDirectory => "Not a directory (os error 20)"
  | .isDirectory => "Is a directory (os error 21)"
  | .nameTooLong => "File name too long (os error 36)"
  | .brokenName => "file name contained an unexpected NUL byte"
  | .other text => text

/-- Refuses a path that no file can have: one with a null character in it. -/
def Path.check (path : String) : Except FileError Unit :=
  if path.toList.contains '\x00' then .error .brokenName else .ok ()

/-- Operations on files. -/
structure Files (m : Type → Type) where
  read : String → m (Except FileError String)
  write : String → String → m (Except FileError Unit)
  makeFolder : String → m (Except FileError Unit)
  isThere : String → m Bool
  isFolder : String → m Bool

namespace Files

variable {m : Type → Type} [Monad m] (files : Files m)

/-- A failure to make a folder does not matter if the folder is there. -/
def unlessFolder (path : String) : Except FileError Unit → m (Except FileError Unit)
  | .ok () => return .ok ()
  | .error e => return if ← files.isFolder path then .ok () else .error e

/-- Makes a folder and those it is in. The path has at most so many parts. -/
def makeFolders : Nat → String → m (Except FileError Unit)
  | 0, _ => return .error (.other "failed to create whole tree")
  | parts + 1, path => do
    if path.isEmpty then return .ok ()
    match ← files.makeFolder path with
    | .error .notFound =>
      match Path.parent? path with
      | none => return .error (.other "failed to create whole tree")
      | some parent =>
        match ← makeFolders parts parent with
        | .error e => return .error e
        | .ok () => files.unlessFolder path (← files.makeFolder path)
    | result => files.unlessFolder path result

end Files

/-- Why a file is not written. -/
inductive StoreError where
  | folder (path : String) (e : FileError)
  | file (path : String) (e : FileError)
deriving Repr, DecidableEq, Inhabited

/-- The message of a file that is not written. -/
def StoreError.message : StoreError → String
  | .folder path e => "Failed to create " ++ path ++ ": " ++ e.message
  | .file path e => "Failed to write " ++ path ++ ": " ++ e.message

/-- Writes a file, after making the folders it is in. -/
def Files.store {m : Type → Type} [Monad m] (files : Files m) (path contents : String) :
    m (Except StoreError Unit) := do
  let parent := (Path.parent? path).getD ""
  match ← files.makeFolders (path.length + 1) parent with
  | .error e => return .error (.folder parent e)
  | .ok () =>
    match ← files.write path contents with
    | .error e => return .error (.file path e)
    | .ok () => return .ok ()

end PackScript
