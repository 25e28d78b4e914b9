import PackScript.Machine.State

namespace PackScript

/-!
# Objects and arrays

The record of an object has its properties and perhaps a prototype, the record of an array its
elements. This module reads them.
-/

/-- Chains of prototypes and nested arrays are followed this far, since they may be circles. -/
def maxChain : Nat := 64

/-- Indices are below this bound. -/
def indexBound : Nat := 1 <<< 64

/-- The number that a name of an element is: digits, perhaps after a plus sign, below the bound of
    indices. -/
def elementIndex? (name : String) : Option Nat :=
  let digits := match name.toList with
    | '+' :: rest => rest
    | cs => cs
  if digits.isEmpty || !digits.all isDecimalDigit then none
  else
    let n := decimalValue digits
    if n < indexBound then some n else none

namespace Machine

variable (m : Machine)

/-- A heap record. -/
def record? (address : String) : Option Nbt :=
  m.heap.get? address

/-- The elements of an array. -/
def elements (address : String) : List Nbt :=
  (((m.record? address).bind (·.get? "elements")).bind Nbt.items?).getD []

/-! ### Conversions -/

/-- The scalar that a value stands for where one is needed: an array joins its elements, of which
    `undefined` and `null` are empty. Arrays are followed a number of levels deep. -/
def scalarWithin : Nat → Value → Scalar
  | _, .scalar s => s
  | levels + 1, .reference .array address =>
    .string (",".intercalate ((m.elements address).map fun element =>
      let value := Value.ofSlot element
      match value with
      | .scalar .undefined => ""
      | .scalar .null => ""
      | value => (scalarWithin levels value).toText))
  | _, .reference .function _ => .string "function"
  | _, .reference _ _ => .string "[object Object]"

/-- The scalar that a value stands for where one is needed. -/
def scalar (value : Value) : Scalar :=
  m.scalarWithin maxChain value

/-- The text of the value in a slot. -/
def display (slot : Nbt) : String :=
  (m.scalar (.ofSlot slot)).toText

/-! ### Members -/

/-- A property of an object or of one of its prototypes. -/
def lookupWithin (property : String) : Nat → String → Nbt
  | 0, _ => .undefinedSlot
  | levels + 1, address => match m.record? address with
    | none => .undefinedSlot
    | some record => match record.getPath ["props", property] with
      | some found => found
      | none => match (record.get? "prototype").bind Nbt.text? with
        | some prototype => lookupWithin property levels prototype
        | none => .undefinedSlot

/-- A property of an object or of one of its prototypes. -/
def lookup (address property : String) : Nbt :=
  m.lookupWithin property maxChain address

/-- A member of a list: its length, or the item that the name is the number of. -/
def listMember (items : List Nbt) (property : String) : Nbt :=
  if property = "length" then (Scalar.number (doubleOfNat items.length)).slot
  else ((elementIndex? property).bind fun i => items[i]?).getD .undefinedSlot

/-- A member of a value. The members of a string are its characters. -/
def member (object : Value) (property : String) : Nbt :=
  match object with
  | .reference .array address => listMember (m.elements address) property
  | .reference _ address => m.lookup address property
  | .scalar (.string s) =>
    listMember (s.toList.map fun c => (Scalar.string c.toString).slot) property
  | .scalar _ => .undefinedSlot

end Machine

/-- A list with an item at an index; it grows by `undefined` as far as needed. Lengths are below
    the bound of indices as well, and behind the last index they start again: a list that would
    get that long becomes empty. That a shorter list may have no room in memory either is left
    aside. -/
def putElement (items : List Nbt) (index : Nat) (value : Nbt) : List Nbt :=
  if index < items.length then items.set index value
  else if index + 1 < indexBound then
    items ++ List.replicate (index - items.length) .undefinedSlot ++ [value]
  else []

end PackScript
