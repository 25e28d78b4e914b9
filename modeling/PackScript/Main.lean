import PackScript.CommandLine.Execute

namespace PackScript

/-!
# The program

The files of the machine that the program runs on, and the entry point.
-/

/-- The failure of an operation on files. -/
def FileError.ofIOError : IO.Error → FileError
  | .noFileOrDirectory _ _ _ => .notFound
  | .alreadyExists _ _ _ => .alreadyExists
  | .permissionDenied _ _ _ => .denied
  | .inappropriateType _ code _ => if code = 21 ∨ code = -21 then .isDirectory else .notDirectory
  | .invalidArgument _ code details =>
    if code = 36 ∨ code = -36 then .nameTooLong else .other details
  | e => .other (toString e)

/-- An operation on a path with its failure. -/
def attempt {α : Type} (path : String) (act : IO α) : IO (Except FileError α) := do
  match Path.check path with
  | .error e => return .error e
  | .ok () =>
    try
      return .ok (← act)
    catch e => return .error (.ofIOError e)

/-- The files of the machine that the program runs on. -/
def systemFiles : Files IO where
  read path := attempt path (IO.FS.readFile path)
  write path text := attempt path (IO.FS.writeFile path text)
  makeFolder path := attempt path (IO.FS.createDir path)
  isThere path := return (← attempt path (IO.FS.realPath path)).toBool
  isFolder path := return (← attempt path (IO.FS.realPath (path ++ "/."))).toBool

end PackScript

/-- Does what the arguments ask for. -/
def main (args : List String) : IO UInt32 := do
  let report ← PackScript.execute PackScript.systemFiles args
  (← IO.getStdout).putStr report.out
  (← IO.getStderr).putStr report.err
  return report.code.toUInt32
