import PackScript.Compile.Function
import PackScript.Proofs.Names

namespace PackScript

/-!
# Units, channels and routines

What code goes by, apart from the names that it mentions.

* `UnitRole` — a unit is the body of a function or a part of one. `UnitRole.Allows`: a part may pass
  `break` or `return` on.
* `ValueEntry` — the entries of a channel that a called function reads as values.
* `Routine.args` — the arguments that a library routine cannot do without. `Routine.Served`: they
  are given.
* `fillCode` — the instructions that fill a channel.
-/

/-! ### Units -/

/-- The unit runs as a part of the one that enters it. -/
def UnitKind.isPart : UnitKind → Bool
  | .block | .loop | .case | .expression => true
  | _ => false

/-- The part is one that `break` ends. -/
def UnitKind.takesBreak : UnitKind → Bool
  | .loop | .case => true
  | _ => false

/-- What a unit is for. -/
structure UnitRole where
  kind : UnitKind
  /-- It is inside of a function, not of the script -/
  ofFunction : Bool
  /-- It is inside of a loop or switch of its function -/
  breakable : Bool
deriving DecidableEq

/-- The unit may answer the code. -/
def UnitRole.Allows (r : UnitRole) (code : Int32) : Prop :=
  code = Instr.normal ∨ (r.kind.isPart = true ∧ r.kind ≠ .expression ∧
    ((code = Instr.breakCode ∧ r.breakable = true) ∨
      (code = Instr.returnCode ∧ r.ofFunction = true)))

/-! ### Arguments -/

/-- The entry of a channel that takes a script value. -/
def ValueEntry (name : String) : Prop :=
  name = "this" ∨ name = "newtarget" ∨ ∃ i, name = argumentName i

/-- What an argument of a routine is. -/
inductive ArgSort where
  /-- The key of a slot that holds a script value -/
  | slot
  /-- A text -/
  | text
  /-- The text of a binary operator -/
  | operator
  /-- A return address -/
  | address
deriving DecidableEq

/-- The arguments that a routine cannot do without. The name of the member that is written is not
    in the list, see `Routine.Served`. -/
def Routine.args : Routine → List (String × ArgSort)
  | .add | .subtract | .singleQuoteConcat =>
    [("left", .slot), ("right", .slot), ("result", .slot)]
  | .mathOperation | .equals | .numberCompare =>
    [("left", .slot), ("right", .slot), ("result", .slot), ("operation", .operator)]
  | .toNumber => [("value", .slot), ("result", .slot)]
  | .getMember => [("object", .slot), ("property", .text), ("result", .slot)]
  | .computedMember => [("object", .slot), ("property", .slot), ("result", .slot)]
  | .prototypeMember => [("property", .text), ("result", .slot)]
  | .setMember => [("object", .slot), ("value", .slot)]
  | .allocate => [("result", .slot)]
  | .setClassPrototype => [("prototype", .text), ("parent", .slot)]
  | .loopArray => [("array", .slot), ("function", .text), ("channel", .text)]
  | .callFunction => [("function", .slot), ("channel", .text)]
  | .bindFunction => [("function", .slot), ("that", .slot), ("result", .slot)]
  | .setVariable => [("target", .address), ("source", .slot)]
  | .initPromise => [("promise", .slot)]
  | .resolvePromise => [("promise", .slot), ("value", .slot), ("channel", .text)]
  | .awaitPromise => [("promise", .slot), ("listener", .slot), ("channel", .text)]
  | .run => [("command", .slot)]
  | .schedule => [("function", .slot), ("ticks", .slot)]

/-- The routine gets the arguments that it cannot do without, where the relation says which texts
    are given. -/
structure Routine.Served (r : Routine) (given : String → String → Prop) : Prop where
  args : ∀ x ∈ r.args, ∃ t, given x.1 t ∧ (x.2 = .operator → ∃ op : BinaryOp, t = op.text)
  member : r = .setMember → ∃ t, given "property" t ∨ given "key" t

theorem Routine.Served.imp {r : Routine} {given given' : String → String → Prop}
    (h : r.Served given) (himp : ∀ name t, given name t → given' name t) : r.Served given' where
  args x hx := by
    obtain ⟨t, ht, hop⟩ := h.args x hx
    exact ⟨t, himp _ _ ht, hop⟩
  member hr := by
    obtain ⟨t, ht⟩ := h.member hr
    exact ⟨t, ht.imp (himp _ _) (himp _ _)⟩

@[simp] theorem Source.addressOf_inj {a b : Slot} :
    Source.addressOf a = Source.addressOf b ↔ a = b := by
  simp [Source.addressOf, Source.text]

@[simp] theorem Source.text_inj {a b : String} : Source.text a = Source.text b ↔ a = b := by
  simp [Source.text]

/-- The instructions that empty a channel and write its entries. -/
def fillCode (c : Channel) (entries : Compile.Entries) : List Instr :=
  .set .always (.channel c) (.literal (.compound [("frame", .string c.key)])) ::
    entries.map fun e => .set .always (.entry c e.1) e.2

end PackScript
