namespace PackScript.Text

/-!
# Sets of characters as runs of code points

A Unicode property is given by the lengths of the runs of code points that have it and of the gaps
before them. Membership passes over gaps and runs until the code point lies in one of them.
-/

/-- Lengths of gaps and runs of code points by turns, from the first code point on. -/
abbrev Runs := List Nat

/-- The code point, counted from the start of a gap, lies in one of the runs. -/
def Runs.containsCode (n : Nat) : Runs → Bool
  | gap :: run :: rest =>
    if n < gap then false
    else if n < gap + run then true
    else containsCode (n - (gap + run)) rest
  | _ => false

/-- The character's code point lies in one of the runs. -/
def Runs.contains (runs : Runs) (c : Char) : Bool :=
  Runs.containsCode c.toNat runs

end PackScript.Text
