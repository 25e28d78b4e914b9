namespace PackScript

/-!
# Kinds of script values

Every slot carries the tag of the kind of value it holds. Objects, arrays and functions are
references to a heap record; the other kinds hold their value themselves.
-/

/-- Kind of a script value. -/
inductive Kind where
  | string
  | number
  | boolean
  | object
  | array
  | function
  | undefined
  | null
deriving Repr, DecidableEq, Inhabited

namespace Kind

/-- All kinds, in the order in which their tags are tested. -/
def all : List Kind :=
  [.string, .number, .boolean, .object, .array, .function, .undefined, .null]

/-- Tag in a slot. -/
def tag : Kind → String
  | .string => "string"
  | .number => "number"
  | .boolean => "boolean"
  | .object => "object"
  | .array => "array"
  | .function => "function"
  | .undefined => "undefined"
  | .null => "null"

/-- The kind of a tag. -/
def ofTag? (tag : String) : Option Kind :=
  all.find? (·.tag == tag)

/-- Values of the kind hold the address of a heap record. -/
def isReference : Kind → Bool
  | .object | .array | .function => true
  | _ => false

/-- What `typeof` answers for values of the kind. -/
def typeOf : Kind → String
  | .array | .null | .object => "object"
  | kind => kind.tag

end Kind

end PackScript
