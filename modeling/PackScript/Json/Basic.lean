import PackScript.Binary64

namespace PackScript

/-!
# JSON values
-/

/-- A JSON value. Numbers without fraction and exponent that fit 64 bits are integers. A literal
    that is well formed but stands for no value is kept as `unreadable`: it may stand where
    nobody looks. -/
inductive Json where
  | null
  | bool (value : Bool)
  | int (value : Int)
  | float (value : Float)
  | string (value : String)
  | array (items : List Json)
  | object (entries : List (String × Json))
  | unreadable
deriving Repr, Inhabited

namespace Json

/-- Lists and objects may be nested this deep. -/
def maxLevels : Nat := 127

mutual

/-- The value can be read as a whole, with the given number of levels left. -/
def isReadable (levels : Nat) : Json → Bool
  | .null | .bool _ | .int _ | .float _ | .string _ => true
  | .array items => 0 < levels && areReadable (levels - 1) items
  | .object entries => 0 < levels && entriesReadable (levels - 1) entries
  | .unreadable => false

/-- All values can be read. -/
def areReadable (levels : Nat) : List Json → Bool
  | [] => true
  | j :: rest => isReadable levels j && areReadable levels rest

/-- The values of all entries can be read. -/
def entriesReadable (levels : Nat) : List (String × Json) → Bool
  | [] => true
  | (_, j) :: rest => isReadable levels j && entriesReadable levels rest

end

end Json

end PackScript
