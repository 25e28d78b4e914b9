import PackScript.Json.Read
import PackScript.Json.Write
import PackScript.Nbt.Json
import PackScript.Program.Basic

namespace PackScript

/-!
# Programs in JSON

`Program.textBy` writes a program with a library, and `Program.readBy?` reads it. A structure is an
object with its fields in order, a constructor an object with one entry, and a slot, record or
channel is its index. `Program.toText` and `Program.ofText?` do this with `Json.library`.
-/

/-- An optional value, `null` if it is missing. -/
def Json.ofOption {α : Type} (f : α → Json) : Option α → Json
  | some a => f a
  | none => .null

/-- A table as an object. -/
def Json.ofTable {α : Type} (f : α → Json) (t : Table α) : Json :=
  .object (t.map fun (key, a) => (key, f a))

/-! ### Writing -/

/-- The JSON value of an address. -/
def Address.toJson : Address → Json
  | .slot s => .object [("Slot", .int s.index)]
  | .record r => .object [("Heap", .int r.index)]
  | .channel c => .object [("Channel", .int c.index)]

/-- The JSON value of a place. -/
def Place.toJson (p : Place) : Json :=
  .object [("addr", p.address.toJson), ("path", .array (p.path.map .string))]

/-- The JSON value of what a write takes. -/
def Source.toJson : Source → Json
  | .literal value => .object [("Literal", value.toJson)]
  | .copy place => .object [("Copy", place.toJson)]
  | .param entry => .object [("Param", .string entry)]

/-- The JSON value of a test. -/
def Test.toJson (t : Test) : Json :=
  .object [("place", t.place.toJson), ("value", t.value.toJson), ("negate", .bool t.negated)]

/-- The JSON value of a guard. -/
def Guard.toJson (g : Guard) : Json :=
  .object [("tests", .array (g.map Test.toJson))]

/-- The JSON value of a callee. -/
def Callee.toJson : Callee → Json
  | .unit name => .object [("Unit", .string name)]
  | .library routine => .object [("Library", .string routine.name)]

/-- The JSON value of an instruction. -/
def Instr.toJson : Instr → Json
  | .set guard target source =>
    .object [("Set", .object
      [("guard", guard.toJson), ("dst", target.toJson), ("src", source.toJson)])]
  | .append target source =>
    .object [("Append", .object [("dst", target.toJson), ("src", source.toJson)])]
  | .invoke guard callee channel store =>
    .object [("Invoke", .object
      [("guard", guard.toJson), ("target", callee.toJson),
       ("channel", .ofOption (fun (c : Channel) => .int c.index) channel),
       ("store", .ofOption Place.toJson store)])]
  | .returnIf guard code =>
    .object [("ReturnIf", .object [("guard", guard.toJson), ("code", .int code.toInt)])]
  | .returnWith code => .object [("Return", .int code.toInt)]
  | .raw command => .object [("Raw", .string command)]

/-- The JSON value of what is known of a unit. -/
def UnitInfo.toJson (i : UnitInfo) : Json :=
  .object [("kind", .string i.kind.name), ("is_async", .bool i.isAsync),
    ("that", .ofOption .string i.that), ("super_class", .ofOption .string i.parentClass),
    ("scope_chain", .array (i.scopes.map fun (n : Nat) => .int n))]

/-- The JSON value of a unit. -/
def CodeUnit.toJson (u : CodeUnit) : Json :=
  .object [("name", .string u.name), ("meta", u.info.toJson),
    ("instrs", .array (u.instrs.map Instr.toJson))]

/-- The JSON value of a function. -/
def Signature.toJson (f : Signature) : Json :=
  .object [("unit", .string f.unit), ("params", .array (f.params.map .string)),
    ("is_async", .bool f.isAsync), ("binding", .int f.binding.index)]

/-- The JSON value of a program. -/
def Program.toJson (p : Program) : Json :=
  .object [("namespace", .string p.ns), ("entry", .string p.entry),
    ("units", .ofTable CodeUnit.toJson p.units),
    ("functions", .ofTable Signature.toJson p.functions),
    ("globals", .ofTable (fun (s : Slot) => .int s.index) p.globals),
    ("heap_base", .int p.heapBase)]

/-- The text of a program. -/
def Program.textBy (L : JsonLibrary) (p : Program) : String :=
  L.write p.toJson

/-! ### Reading -/

namespace JsonLibrary

open Decoder (needed optional)

variable (L : JsonLibrary)

/-- A slot. -/
def slot : Decoder Slot := fun levels j => (L.nat32 levels j).map .mk

/-- A heap record. -/
def heapRecord : Decoder Record := fun levels j => (L.nat32 levels j).map .mk

/-- A channel. -/
def channel : Decoder Channel := fun levels j => (L.nat32 levels j).map .mk

/-- A tree. -/
def tree : Decoder Nbt := fun levels => Nbt.reader L levels levels

/-- An address. -/
def address : Decoder Address :=
  L.variant fun
    | "Slot" => some fun levels j => (L.slot levels j).map .slot
    | "Heap" => some fun levels j => (L.heapRecord levels j).map .record
    | "Channel" => some fun levels j => (L.channel levels j).map .channel
    | _ => none

/-- A place. -/
def place : Decoder Place :=
  L.record ["addr", "path"] fun levels fs => match fs with
    | [a, p] => do return ⟨← needed L.address levels a, ← needed (L.list L.text) levels p⟩
    | _ => none

/-- What a write takes. -/
def source : Decoder Source :=
  L.variant fun
    | "Literal" => some fun levels j => (L.tree levels j).map .literal
    | "Copy" => some fun levels j => (L.place levels j).map .copy
    | "Param" => some fun levels j => (L.text levels j).map .param
    | _ => none

/-- A test. -/
def test : Decoder Test :=
  L.record ["place", "value", "negate"] fun levels fs => match fs with
    | [p, v, n] => do
      return ⟨← needed L.place levels p, ← needed L.tree levels v, ← needed L.flag levels n⟩
    | _ => none

/-- A guard. -/
def guard : Decoder Guard :=
  L.record ["tests"] fun levels fs => match fs with
    | [ts] => needed (L.list L.test) levels ts
    | _ => none

/-- A routine. -/
def routine : Decoder Routine :=
  L.word Routine.ofName?

/-- A callee. -/
def callee : Decoder Callee :=
  L.variant fun
    | "Unit" => some fun levels j => (L.text levels j).map .unit
    | "Library" => some fun levels j => (L.routine levels j).map .library
    | _ => none

/-- The parts of a write under a guard. -/
def setParts : Decoder Instr :=
  L.record ["guard", "dst", "src"] fun levels fs => match fs with
    | [g, d, s] => do
      return .set (← needed L.guard levels g) (← needed L.place levels d)
        (← needed L.source levels s)
    | _ => none

/-- The parts of an addition to a list. -/
def appendParts : Decoder Instr :=
  L.record ["dst", "src"] fun levels fs => match fs with
    | [d, s] => do return .append (← needed L.place levels d) (← needed L.source levels s)
    | _ => none

/-- The parts of a call. -/
def invokeParts : Decoder Instr :=
  L.record ["guard", "target", "channel", "store"] fun levels fs => match fs with
    | [g, t, c, s] => do
      return .invoke (← needed L.guard levels g) (← needed L.callee levels t)
        (← optional (L.option L.channel) levels c) (← optional (L.option L.place) levels s)
    | _ => none

/-- The parts of an end under a guard. -/
def returnIfParts : Decoder Instr :=
  L.record ["guard", "code"] fun levels fs => match fs with
    | [g, c] => do return .returnIf (← needed L.guard levels g) (← needed L.int32 levels c)
    | _ => none

/-- An instruction. -/
def instr : Decoder Instr :=
  L.variant fun
    | "Set" => some L.setParts
    | "Append" => some L.appendParts
    | "Invoke" => some L.invokeParts
    | "ReturnIf" => some L.returnIfParts
    | "Return" => some fun levels j => (L.int32 levels j).map .returnWith
    | "Raw" => some fun levels j => (L.text levels j).map .raw
    | _ => none

/-- The kind of a unit. -/
def unitKind : Decoder UnitKind :=
  L.word fun name => UnitKind.all.find? (·.name == name)

/-- What is known of a unit. -/
def unitInfo : Decoder UnitInfo :=
  L.record ["kind", "is_async", "that", "super_class", "scope_chain"] fun levels fs => match fs with
    | [k, a, t, p, s] => do
      return ⟨← needed L.unitKind levels k, ← needed L.flag levels a,
        ← optional (L.option L.text) levels t, ← optional (L.option L.text) levels p,
        ← needed (L.list L.nat32) levels s⟩
    | _ => none

/-- A unit. -/
def unit : Decoder CodeUnit :=
  L.record ["name", "meta", "instrs"] fun levels fs => match fs with
    | [n, i, is] => do
      return ⟨← needed L.text levels n, ← needed L.unitInfo levels i,
        ← needed (L.list L.instr) levels is⟩
    | _ => none

/-- A function. -/
def signature : Decoder Signature :=
  L.record ["unit", "params", "is_async", "binding"] fun levels fs => match fs with
    | [u, ps, a, b] => do
      return ⟨← needed L.text levels u, ← needed (L.list L.text) levels ps,
        ← needed L.flag levels a, ← needed L.slot levels b⟩
    | _ => none

/-- A program. -/
def program : Decoder Program :=
  L.record ["namespace", "entry", "units", "functions", "globals", "heap_base"] fun levels fs =>
    match fs with
    | [n, e, us, fs, gs, h] => do
      return ⟨← needed L.text levels n, ← needed L.text levels e,
        ← needed (L.table L.unit) levels us, ← needed (L.table L.signature) levels fs,
        ← needed (L.table L.slot) levels gs, ← needed L.nat32 levels h⟩
    | _ => none

end JsonLibrary

/-- The program that a text is. -/
def Program.readBy? (L : JsonLibrary) (s : String) : Option Program :=
  (L.read s).bind (L.program L.maxLevels)

/-! ### One library -/

/-- The library that the command line works with. -/
def Json.library : JsonLibrary where
  write := Json.pretty
  read := Json.parse?
  maxLevels := Json.maxLevels
  text := Decoder.text
  flag := Decoder.flag
  nat32 := Decoder.nat32
  int32 := Decoder.int32
  double := Decoder.double
  list := Decoder.list
  table := Decoder.table
  option := Decoder.option
  record := Decoder.record
  variant := Decoder.variant
  word := Decoder.word

@[inherit_doc Program.textBy]
def Program.toText (p : Program) : String :=
  p.textBy Json.library

@[inherit_doc Program.readBy?]
def Program.ofText? (s : String) : Option Program :=
  Program.readBy? Json.library s

end PackScript
