import PackScript.Nbt.Basic
import PackScript.Program.Routine

namespace PackScript

/-!
# Programs

A program is a table of units, and a unit is a list of instructions over three storages: slots,
heap records and parameter channels. An instruction becomes one command of the target, see
`PackScript.Command`, and one step of the machine, see `PackScript.Machine`.
-/

/-! ### Addresses -/

/-- A slot, which holds the value of a variable or an intermediate result. -/
structure Slot where
  index : Nat
deriving Repr, DecidableEq, Inhabited

/-- A heap record, which holds the properties of an object or the elements of an array. -/
structure Record where
  index : Nat
deriving Repr, DecidableEq, Inhabited

/-- A channel, which holds the parameters of a call. -/
structure Channel where
  index : Nat
deriving Repr, DecidableEq, Inhabited

/-- The key of a slot in its storage. -/
def Slot.key (s : Slot) : String :=
  "s" ++ toString s.index

/-- The key of a heap record in its storage. -/
def Record.key (r : Record) : String :=
  "h" ++ toString r.index

/-- The key of a channel in its storage. -/
def Channel.key (c : Channel) : String :=
  "c" ++ toString c.index

/-- The three storages. -/
inductive Storage where
  | slots
  | heap
  | channels
deriving Repr, DecidableEq, Inhabited

/-- The name of a storage. -/
def Storage.name : Storage → String
  | .slots => "slots"
  | .heap => "heap"
  | .channels => "channels"

/-- A slot, a heap record or a channel. -/
inductive Address where
  | slot (s : Slot)
  | record (r : Record)
  | channel (c : Channel)
deriving Repr, DecidableEq, Inhabited

namespace Address

/-- The storage of an address. -/
def storage : Address → Storage
  | .slot _ => .slots
  | .record _ => .heap
  | .channel _ => .channels

/-- The key of an address in its storage. -/
def key : Address → String
  | .slot s => s.key
  | .record r => r.key
  | .channel c => c.key

end Address

/-- An address and a path below it. -/
structure Place where
  address : Address
  path : List String
deriving Repr, DecidableEq, Inhabited

namespace Place

/-- A whole slot. -/
def slot (s : Slot) : Place :=
  ⟨.slot s, []⟩

/-- One field of a slot: `type`, `value` or `function`. -/
def field (s : Slot) (name : String) : Place :=
  ⟨.slot s, [name]⟩

/-- A node of a heap record. -/
def record (r : Record) (path : List String) : Place :=
  ⟨.record r, path⟩

/-- A whole channel. -/
def channel (c : Channel) : Place :=
  ⟨.channel c, []⟩

/-- One entry of a channel. -/
def entry (c : Channel) (name : String) : Place :=
  ⟨.channel c, [name]⟩

/-- The path of a place from the root of its storage. -/
def fullPath (p : Place) : List String :=
  p.address.key :: p.path

end Place

/-! ### Instructions -/

/-- What a write takes. -/
inductive Source where
  /-- A tree that is known -/
  | literal (value : Nbt)
  /-- What is at a place -/
  | copy (place : Place)
  /-- An entry of the channel that the unit was called with; nothing is written when the entry is
      missing -/
  | param (entry : String)
deriving Repr, Inhabited

namespace Source

/-- A string. -/
def text (s : String) : Source :=
  .literal (.string s)

/-- The key of a slot, as library routines take it. -/
def addressOf (s : Slot) : Source :=
  text s.key

/-- The value of a slot. -/
def valueOf (s : Slot) : Source :=
  .copy (.slot s)

end Source

/-- A comparison of a place with a tree. -/
structure Test where
  place : Place
  value : Nbt
  negated : Bool
deriving Repr, Inhabited

/-- Tests that must all hold; without tests the guard always holds. -/
abbrev Guard := List Test

namespace Guard

/-- The guard that always holds. -/
def always : Guard := []

/-- The place holds the tree. -/
def when (place : Place) (value : Nbt) : Guard :=
  [⟨place, value, false⟩]

/-- The guard, and the place holds the tree. -/
def and (g : Guard) (place : Place) (value : Nbt) : Guard :=
  List.append g [⟨place, value, false⟩]

/-- The guard, and the place does not hold the tree. -/
def andNot (g : Guard) (place : Place) (value : Nbt) : Guard :=
  List.append g [⟨place, value, true⟩]

end Guard

/-- What an instruction calls. -/
inductive Callee where
  | unit (name : String)
  | library (routine : Routine)
deriving Repr, DecidableEq, Inhabited

/-- The unit that a callee is. -/
def Callee.unitName : Callee → String
  | .unit name => name
  | .library routine => routine.unitName

/-- Instructions. -/
inductive Instr where
  /-- Writes to a place when the guard holds -/
  | set (guard : Guard) (target : Place) (source : Source)
  /-- Adds an item to the list at a place -/
  | append (target : Place) (source : Source)
  /-- Calls when the guard holds, and stores the return code -/
  | invoke (guard : Guard) (callee : Callee) (channel : Option Channel) (store : Option Place)
  /-- Ends the unit when the guard holds -/
  | returnIf (guard : Guard) (code : Int32)
  /-- Ends the unit -/
  | returnWith (code : Int32)
  /-- A command as it is -/
  | raw (command : String)
deriving Repr, Inhabited

/-- Return codes: a unit that ends as usual answers `normal`; the two others are passed on to
    the loop or switch that ends, and to the body of the function that returns. -/
def Instr.normal : Int32 := 0

@[inherit_doc Instr.normal]
def Instr.breakCode : Int32 := 1000001

@[inherit_doc Instr.normal]
def Instr.returnCode : Int32 := 1000002

/-! ### Units and programs -/

/-- What a unit was compiled from. -/
inductive UnitKind where
  | script
  | function
  | arrow
  | method
  | ctor
  | block
  | loop
  | case
  | expression
  | continuation
deriving Repr, DecidableEq, Inhabited

/-- All kinds of units. -/
def UnitKind.all : List UnitKind :=
  [.script, .function, .arrow, .method, .ctor, .block, .loop, .case, .expression, .continuation]

/-- The name of a kind of unit. -/
def UnitKind.name : UnitKind → String
  | .script => "script"
  | .function => "function"
  | .arrow => "arrow"
  | .method => "method"
  | .ctor => "constructor"
  | .block => "block"
  | .loop => "loop"
  | .case => "case"
  | .expression => "expression"
  | .continuation => "continuation"

/-- What is known of a unit besides its instructions. -/
structure UnitInfo where
  kind : UnitKind
  isAsync : Bool
  /-- Key of the slot of `this` -/
  that : Option String
  /-- Key of the slot of the prototype of the parent class -/
  parentClass : Option String
  /-- Scopes that are visible where the unit is defined, outermost first -/
  scopes : List Nat
deriving Repr, DecidableEq, Inhabited

/-- A unit. -/
structure CodeUnit where
  name : String
  info : UnitInfo
  instrs : List Instr
deriving Repr, Inhabited

/-- A function declared at the top level. -/
structure Signature where
  unit : String
  params : List String
  isAsync : Bool
  /-- The slot of its variable -/
  binding : Slot
deriving Repr, DecidableEq, Inhabited

/-- A program. -/
structure Program where
  ns : String
  /-- The unit that runs once when the program is loaded -/
  entry : String
  units : Table CodeUnit
  functions : Table Signature
  globals : Table Slot
  /-- The first heap record that is free at run time -/
  heapBase : Nat
deriving Repr, Inhabited

/-- The id of a function: the namespace and the unit. -/
def functionId (ns unit : String) : String :=
  ns ++ ":" ++ unit

/-- Most arguments a call can have. -/
def maxArguments : Nat := 8

/-- The channel entry of an argument. -/
def argumentName (index : Nat) : String :=
  "arg" ++ toString index

end PackScript
