import PackScript.Machine.Component
import PackScript.Program.Basic
import PackScript.Value

namespace PackScript

/-!
# State of the machine

The machine runs a program the way the target does: it has three storages, it calls units, and a
unit answers an integer. A step of the machine is a `Run`; one that fails keeps what was done
before.
-/

/-! ### Errors -/

/-- What is wrong with a storage. -/
inductive StorageFault where
  /-- A write below a node that has no entries -/
  | notCompound
  /-- An item added to a node that is no list -/
  | notList
  /-- A routine was called without an argument that it needs -/
  | missingArgument
  /-- A routine was called with an operator that it does not have -/
  | unknownOperator (text : String)
deriving Repr, DecidableEq, Inhabited

/-- Wording of a fault. -/
def StorageFault.text : StorageFault → String
  | .notCompound => "not a compound"
  | .notList => "not a list"
  | .missingArgument => "missing string argument"
  | .unknownOperator text => "unknown operator '" ++ text ++ "'"

/-- Why the machine stops. -/
inductive MachineError where
  | unknownUnit (name : String)
  | depthExceeded (limit : Nat)
  | storage (address : String) (fault : StorageFault)
  /-- A loop over an array that grows without end -/
  | endlessLoop
deriving Repr, DecidableEq, Inhabited

/-- Wording of an error. -/
def MachineError.message : MachineError → String
  | .unknownUnit name => "unknown function " ++ name
  | .depthExceeded limit => "maximum call depth " ++ toString limit ++ " exceeded"
  | .storage address fault => "malformed storage at " ++ address ++ ": " ++ fault.text
  | .endlessLoop => "endless loop over an array"

/-! ### State -/

/-- A function that waits for its tick. -/
structure Task where
  due : UInt64
  function : Nbt
deriving Repr, Inhabited

/-- A machine with its program. -/
structure Machine where
  program : Program
  /-- How many calls may be inside of each other -/
  maxDepth : Nat
  slots : Nbt
  heap : Nbt
  channels : Nbt
  /-- The next heap record; after the last word the count starts again -/
  nextRecord : UInt32
  /-- Texts that were shown -/
  output : Array String
  /-- Commands that were run -/
  commands : Array String
  tick : UInt64
  scheduled : List Task
  /-- How many calls the machine is inside of -/
  depth : Nat
deriving Inhabited

/-- How many calls may be inside of each other unless something else is said. -/
def defaultDepth : Nat := 512

namespace Machine

/-- A machine that has not run yet. -/
def start (program : Program) (maxDepth : Nat) : Machine :=
  { program := program
    maxDepth := maxDepth
    slots := .empty
    heap := .empty
    channels := .empty
    nextRecord := .ofNat program.heapBase
    output := #[]
    commands := #[]
    tick := 0
    scheduled := []
    depth := 0 }

/-- A storage. -/
def storage (m : Machine) : Storage → Nbt
  | .slots => m.slots
  | .heap => m.heap
  | .channels => m.channels

/-- The machine with another storage. -/
def withStorage (m : Machine) (s : Storage) (tree : Nbt) : Machine :=
  match s with
  | .slots => { m with slots := tree }
  | .heap => { m with heap := tree }
  | .channels => { m with channels := tree }

/-- The value of a slot; one that was never written is `undefined`. -/
def slot (m : Machine) (key : String) : Nbt :=
  (m.slots.get? key).getD .undefinedSlot

/-- What is at a place. -/
def read (m : Machine) (p : Place) : Option Nbt :=
  (m.storage p.address.storage).getPath p.fullPath

/-- A test holds. -/
def meets (m : Machine) (t : Test) : Bool :=
  (match m.read t.place with
    | some actual => t.value.fits actual
    | none => false) != t.negated

/-- A guard holds. -/
def holds (m : Machine) (g : Guard) : Bool :=
  g.all m.meets

/-- What a write takes in a unit that was called with a channel, if it is there. -/
def take (m : Machine) (channel : Option String) : Source → Option Nbt
  | .literal value => some value
  | .copy place => m.read place
  | .param entry => channel.bind fun c => m.channels.getPath [c, entry]

/-- Runs a command. Only those that show a text do something. -/
def command (m : Machine) (text : String) : Machine :=
  { m with
    commands := m.commands.push text
    output := match shownText? text with
      | some line => m.output.push line
      | none => m.output }

end Machine

/-- A step of the machine. -/
abbrev Run := EStateM MachineError Machine

namespace Run

variable {α : Type}

/-- Stops with a fault of a storage. -/
def storageFault (path : List String) (fault : StorageFault) : Run α :=
  throw (.storage (".".intercalate path) fault)

/-- Writes to a path of a storage. -/
def write (s : Storage) (path : List String) (value : Nbt) : Run Unit := do
  let m ← get
  match (m.storage s).setPath path value with
  | some tree => set (m.withStorage s tree)
  | none => storageFault path .notCompound

/-- Adds an item to the list at a path of a storage. -/
def append (s : Storage) (path : List String) (value : Nbt) : Run Unit := do
  let m ← get
  match (m.storage s).appendPath path value with
  | some tree => set (m.withStorage s tree)
  | none => storageFault path .notList

/-- Writes a slot. -/
def setSlot (key : String) (value : Nbt) : Run Unit :=
  write .slots [key] value

/-- The value of a slot. -/
def slot (key : String) : Run Nbt := do
  return (← get).slot key

end Run

end PackScript
