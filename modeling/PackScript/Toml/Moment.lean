import PackScript.Toml.Text

namespace PackScript.Toml

/-!
# Dates and times of TOML

A moment is a date, a time of day, or both, and both may have an offset. Only the form and the
ranges are checked.
-/

/-- A number of so many digits, in a range. -/
def readField (width low high : Nat) : Reader Nat := fun cs =>
  let digits := cs.take width
  let n := decimalValue digits
  if digits.length = width ∧ digits.all isDecimalDigit ∧ low ≤ n ∧ n ≤ high then
    some (n, cs.drop width)
  else none

/-- The character ahead is this one. -/
def expect (c : Char) : Reader Unit
  | d :: rest => if d = c then some ((), rest) else none
  | [] => none

/-- The year has a day more than others. -/
def isLeapYear (year : Nat) : Bool :=
  year % 4 = 0 && (year % 100 ≠ 0 || year % 400 = 0)

/-- The number of days of a month. -/
def daysOfMonth (year month : Nat) : Nat :=
  if month = 2 then if isLeapYear year then 29 else 28
  else if month = 4 ∨ month = 6 ∨ month = 9 ∨ month = 11 then 30
  else 31

/-- What is left after a date. -/
def date? (cs : List Char) : Option (List Char) := do
  let (year, cs) ← readField 4 0 9999 cs
  let (_, cs) ← expect '-' cs
  let (month, cs) ← readField 2 1 12 cs
  let (_, cs) ← expect '-' cs
  let (_, cs) ← readField 2 1 (daysOfMonth year month) cs
  return cs

/-- What is left after the fraction of a second ahead, if any. -/
def skipFraction : List Char → List Char
  | '.' :: rest =>
    if (rest.takeWhile isDecimalDigit).isEmpty then '.' :: rest else rest.dropWhile isDecimalDigit
  | cs => cs

/-- What is left after a time of day. There may be a 61st second. -/
def time? (cs : List Char) : Option (List Char) := do
  let (_, cs) ← readField 2 0 23 cs
  let (_, cs) ← expect ':' cs
  let (_, cs) ← readField 2 0 59 cs
  let (_, cs) ← expect ':' cs
  let (_, cs) ← readField 2 0 60 cs
  return skipFraction cs

/-- What is left after an offset. -/
def offset? : List Char → Option (List Char)
  | [] => none
  | c :: rest =>
    if c = 'Z' ∨ c = 'z' then some rest
    else if c = '+' ∨ c = '-' then do
      let (_, cs) ← readField 2 0 23 rest
      let (_, cs) ← expect ':' cs
      let (_, cs) ← readField 2 0 59 cs
      return cs
    else none

/-- What is left after the time and the offset that follow a date, if there is a time. -/
def skipTime (cs : List Char) : List Char :=
  match cs with
  | [] => []
  | c :: rest =>
    if c = 'T' ∨ c = 't' ∨ c = ' ' then
      match time? rest with
      | some rest => (offset? rest).getD rest
      | none => cs
    else cs

/-- What is left after a moment. -/
def moment? (cs : List Char) : Option (List Char) :=
  match date? cs with
  | some rest => some (skipTime rest)
  | none => time? cs

end PackScript.Toml
