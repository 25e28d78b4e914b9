namespace PackScript.Path

/-!
# Paths

A path is a text of steps with `/` between them. Empty steps and `.` lead nowhere, but a path may
start with `.`, and one that starts with `/` starts at the root.
-/

/-- The path starts at the root. -/
def isRooted (path : String) : Bool :=
  path.toList.head? = some '/'

/-- The steps of a path, also those that lead nowhere. -/
def steps (path : String) : List String :=
  path.splitOn "/"

/-- The path of a name seen from a path. -/
def join (base name : String) : String :=
  if isRooted name then name
  else if base.isEmpty || base.toList.getLast? = some '/' then base ++ name
  else base ++ "/" ++ name

/-- A step that is part of the path; `.` is one only at its start. -/
def isPart (step : String × Nat) : Bool :=
  step.1 ≠ "" && (step.1 ≠ "." || step.2 = 0)

/-- The path without its last part. -/
def parent? (path : String) : Option String :=
  match (steps path).zipIdx.reverse.dropWhile (!isPart ·) with
  | [] => none
  | _ :: before =>
    match before.dropWhile (!isPart ·) with
    | [] => some (if isRooted path then "/" else "")
    | kept => some ("/".intercalate (kept.reverse.map (·.1)))

end PackScript.Path
