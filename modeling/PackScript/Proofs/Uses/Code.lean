import PackScript.Proofs.SlotValue
import PackScript.Proofs.Uses.Basic

namespace PackScript

/-!
# What names are used for

Slots, channels and units are never handed out twice, so each has one use in the whole program. This
module says what the uses are and which code keeps to them.

* `SlotUse`, `ChannelUse`, `UnitUse` — what a slot, a channel and a unit are for. The *root* of a
  unit is the body of the function that it is a piece of, its *owner* is the top-level function
  whose body that is, if it is one, and its *home* is the slot with the return address that the code
  around it has written.
* `Uses` — the uses of all names that were handed out.
* `Uses.EntryFits` — an entry of a channel is written in line with the use of the channel.
* `Uses.MayCall` — a top-level function calls another one only if the call was recorded.
* `Uses.Target` — where the result of a routine may go.
* `Uses.Within` — the instruction writes no slot but some.
-/

/-! ### Uses -/

/-- What a slot is for. -/
inductive SlotUse where
  /-- A variable that was declared in some way, and if it is one of a loop, the number of functions
      around that -/
  | variable_ (kind : BindingKind) (loop : Option Nat)
  /-- An intermediate result of the function with a root -/
  | result (root : String)
  /-- An intermediate result of a known kind, of which the payload is written by itself -/
  | scalar (root : String) (kind : Kind)
  /-- A slot of the function with a root that is tested or joined to a text only -/
  | flag (root : String)
  /-- The promise of the function with a root -/
  | promise (root : String)
  /-- The rest of a function that waits for a promise -/
  | listener
  /-- The return code of a call -/
  | code
  /-- The key of the slot that takes the result of a function -/
  | address
deriving DecidableEq

/-- The slot is read as a script value. -/
def SlotUse.isValue : SlotUse → Bool
  | .variable_ _ _ | .result _ | .scalar _ _ | .promise _ => true
  | .flag _ | .listener | .code | .address => false

/-- The number of functions around the loop that the slot belongs to. -/
def SlotUse.loop : SlotUse → Option Nat
  | .variable_ _ loop => loop
  | _ => none

/-- What a channel is for. -/
inductive ChannelUse where
  /-- The arguments of a library routine, and the slot that takes the result if there is one -/
  | library (routine : Routine) (target : Option Slot)
  /-- The arguments for handing a value to the caller, whose slot the address tells -/
  | answer (address value : Slot)
  /-- The arguments of a call whose result goes to a slot -/
  | call (result : Slot)
  /-- The arguments of a loop over an array that calls a unit -/
  | each (unit : String)
  /-- A routine fills it -/
  | filled
deriving DecidableEq

/-- The slot of the present function that a call with the channel writes. -/
def ChannelUse.target? : ChannelUse → Option Slot
  | .library _ target => target
  | .call result => some result
  | .answer _ _ | .each _ | .filled => none

/-- What all code of a unit goes by. -/
structure Standing where
  /-- The unit of the body of its function -/
  root : String
  /-- The slot with the return address that is written before the unit is entered, if it is a part
      of another one that relies on it -/
  home : Option Slot
  /-- It is inside of a loop or switch of its function -/
  breakable : Bool
  /-- It is entered with a channel -/
  fed : Bool
  /-- How many functions it is inside of -/
  depth : Nat
deriving DecidableEq

/-- What a unit is for. -/
structure UnitUse extends Standing where
  kind : UnitKind
  /-- The top-level function whose body it is a piece of; nothing is said of a unit that has the
      name of such a function -/
  owner : Option (Option String)
deriving DecidableEq

namespace UnitUse

/-- The use of the body of a function, or of what follows an `await` in it. -/
def body (kind : UnitKind) (depth : Nat) (root : String) (owner : Option (Option String)) :
    UnitUse :=
  ⟨⟨root, none, false, true, depth⟩, kind, owner⟩

/-- The use of the body of a top-level function. -/
def declared (unit : String) : UnitUse :=
  body .function 1 unit none

/-- The use of the entry unit. -/
def script : UnitUse :=
  ⟨⟨entryUnit, none, false, false, 0⟩, .script, some none⟩

/-- The unit runs as a part of the one that enters it. -/
def isPart (u : UnitUse) : Bool :=
  u.kind.isPart

/-- The role of the unit. -/
def role (u : UnitUse) : UnitRole :=
  ⟨u.kind, u.depth != 0, u.breakable⟩

/-- The unit can be called with a channel at any time. -/
structure IsBody (u : UnitUse) : Prop where
  part : u.isPart = false
  kind : u.kind ≠ .script
  home : u.home = none
  breakable : u.breakable = false
  fed : u.fed = true
  depth : u.depth ≠ 0

theorem isBody_body {kind : UnitKind} {depth : Nat} (root : String)
    (owner : Option (Option String)) (hpart : kind.isPart = false) (hkind : kind ≠ .script)
    (hdepth : depth ≠ 0) : (body kind depth root owner).IsBody :=
  ⟨hpart, hkind, rfl, rfl, rfl, hdepth⟩

theorem isBody_declared (unit : String) : (declared unit).IsBody :=
  isBody_body unit none rfl (by decide) (by decide)

end UnitUse

/-- The uses of all names that were handed out. -/
structure Uses where
  /-- The namespace of the program -/
  ns : String
  slot : Slot → Option SlotUse
  channel : Channel → Option ChannelUse
  unit : String → Option UnitUse
  /-- Top-level functions that were declared -/
  function : String → Signature → Prop
  /-- Calls between top-level functions that were recorded -/
  calls : String → String → Prop
  /-- How many heap records the program has -/
  records : Nat

namespace Uses

/-- What was handed out keeps its use. -/
structure Le (G G' : Uses) : Prop where
  ns : G'.ns = G.ns
  slot : ∀ s u, G.slot s = some u → G'.slot s = some u
  channel : ∀ c u, G.channel c = some u → G'.channel c = some u
  unit : ∀ n u, G.unit n = some u → G'.unit n = some u
  function : ∀ f sig, G.function f sig → G'.function f sig
  calls : ∀ f h, G.calls f h → G'.calls f h
  records : G.records ≤ G'.records

instance : LE Uses := ⟨Le⟩

theorem le_refl (G : Uses) : G ≤ G :=
  ⟨rfl, fun _ _ h => h, fun _ _ h => h, fun _ _ h => h, fun _ _ h => h, fun _ _ h => h,
    Nat.le_refl _⟩

theorem le_trans {G1 G2 G3 : Uses} (h : G1 ≤ G2) (h' : G2 ≤ G3) : G1 ≤ G3 where
  ns := h'.ns.trans h.ns
  slot s u hs := h'.slot s u (h.slot s u hs)
  channel c u hc := h'.channel c u (h.channel c u hc)
  unit n u hn := h'.unit n u (h.unit n u hn)
  function f sig hf := h'.function f sig (h.function f sig hf)
  calls f g hg := h'.calls f g (h.calls f g hg)
  records := Nat.le_trans h.records h'.records

/-- The slot holds script values. -/
def IsValue (G : Uses) (s : Slot) : Prop :=
  ∃ use, G.slot s = some use ∧ use.isValue = true

/-- The slot takes any script value, from the code of a function with a root. -/
def Takes (G : Uses) (root : String) (s : Slot) : Prop :=
  (∃ kind loop, G.slot s = some (.variable_ kind loop)) ∨ G.slot s = some (.result root)

/-- The address is the key of a heap record of the program. -/
def IsRecord (G : Uses) (address : String) : Prop :=
  ∃ r : Record, r.index < G.records ∧ address = r.key

/-- The id is that of a unit that can be called at any time. -/
def IsFunction (G : Uses) (id : String) : Prop :=
  ∃ name u, id = functionId G.ns name ∧ G.unit name = some u ∧ u.IsBody

/-- The id is that of a unit that can be called at any time, and that is made by code inside of so
    many functions. What follows an `await` is a unit of the function itself. -/
def MadeAt (G : Uses) (depth : Nat) (id : String) : Prop :=
  ∃ name u, id = functionId G.ns name ∧ G.unit name = some u ∧ u.IsBody ∧
    u.depth = if u.kind = .continuation then depth else depth + 1

/-- The unit is a piece of the body of the top-level function, or of no such body. -/
def Owned (G : Uses) (name : String) (owner : Option String) : Prop :=
  ∃ u, G.unit name = some u ∧ (u.owner = some owner ∨
    (u.owner = none ∧ ∃ f sig, owner = some f ∧ G.function f sig ∧ sig.unit = name))

variable {G G' : Uses} {root : String} {s : Slot}

theorem IsValue.mono (h : G.IsValue s) (hle : G ≤ G') : G'.IsValue s := by
  obtain ⟨use, hs, hvalue⟩ := h
  exact ⟨use, hle.slot _ _ hs, hvalue⟩

theorem isValue_of_variable {kind : BindingKind} {loop : Option Nat}
    (h : G.slot s = some (.variable_ kind loop)) : G.IsValue s :=
  ⟨_, h, rfl⟩

theorem isValue_of_result (h : G.slot s = some (.result root)) : G.IsValue s :=
  ⟨_, h, rfl⟩

theorem isValue_of_promise (h : G.slot s = some (.promise root)) : G.IsValue s :=
  ⟨_, h, rfl⟩

theorem Takes.mono (h : G.Takes root s) (hle : G ≤ G') : G'.Takes root s := by
  rcases h with ⟨kind, loop, h⟩ | h
  · exact .inl ⟨kind, loop, hle.slot _ _ h⟩
  · exact .inr (hle.slot _ _ h)

theorem Takes.isValue (h : G.Takes root s) : G.IsValue s := by
  rcases h with ⟨kind, loop, h⟩ | h
  · exact isValue_of_variable h
  · exact isValue_of_result h

theorem IsRecord.mono {address : String} (h : G.IsRecord address) (hle : G ≤ G') :
    G'.IsRecord address := by
  obtain ⟨r, hr, haddress⟩ := h
  exact ⟨r, Nat.lt_of_lt_of_le hr hle.records, haddress⟩

theorem IsFunction.mono {id : String} (h : G.IsFunction id) (hle : G ≤ G') :
    G'.IsFunction id := by
  obtain ⟨name, u, hid, hu, hbody⟩ := h
  exact ⟨name, u, by rw [hle.ns, hid], hle.unit _ _ hu, hbody⟩

theorem MadeAt.isFunction {depth : Nat} {id : String} (h : G.MadeAt depth id) :
    G.IsFunction id := by
  obtain ⟨name, u, hid, hu, hbody, _⟩ := h
  exact ⟨name, u, hid, hu, hbody⟩

theorem MadeAt.mono {depth : Nat} {id : String} (h : G.MadeAt depth id) (hle : G ≤ G') :
    G'.MadeAt depth id := by
  obtain ⟨name, u, hid, hu, hmade⟩ := h
  exact ⟨name, u, by rw [hle.ns, hid], hle.unit _ _ hu, hmade⟩

theorem Owned.mono {name : String} {owner : Option String} (h : G.Owned name owner)
    (hle : G ≤ G') : G'.Owned name owner := by
  obtain ⟨u, hu, howner⟩ := h
  refine ⟨u, hle.unit _ _ hu, howner.imp_right ?_⟩
  rintro ⟨hnone, f, sig, hf, hsig, hunit⟩
  exact ⟨hnone, f, sig, hf, hle.function _ _ hsig, hunit⟩

end Uses

/-! ### Values and sources -/

/-- The tree is no reference to a record, or one to an address with a property. -/
def Nbt.Refers (P : String → Prop) (v : Nbt) : Prop :=
  ∀ kind address, Value.ofSlot v = .reference kind address → P address

theorem Nbt.Refers.mono {P Q : String → Prop} {v : Nbt} (h : v.Refers P)
    (hPQ : ∀ address, P address → Q address) : v.Refers Q :=
  fun kind address hv => hPQ address (h kind address hv)

/-- The function that the tree tells, if any, has an id with a property. -/
def Nbt.Calls (P : String → Prop) (v : Nbt) : Prop :=
  ∀ id, (v.get? "function").bind Nbt.text? = some id → P id

theorem Nbt.Calls.mono {P Q : String → Prop} {v : Nbt} (h : v.Calls P)
    (hPQ : ∀ id, P id → Q id) : v.Calls Q :=
  fun id hv => hPQ id (h id hv)

/-- The value of a slot compound. -/
theorem Value.ofSlot_payload (kind : Kind) (payload : Nbt) (function : Option String) :
    Value.ofSlot (.slot kind payload function) = .ofPayload kind (some payload) := by
  have hkind : Kind.ofTag? kind.tag = some kind := by
    cases kind <;> decide
  simp [Value.ofSlot, Nbt.slot, Nbt.get?, Table.find?, Nbt.text?, hkind]

/-- A scalar is no reference. -/
theorem Scalar.refers (P : String → Prop) (a : Scalar) : a.slot.Refers P := by
  intro kind address h
  cases a <;> simp [Scalar.slot, Value.ofSlot_payload, Value.ofPayload, Scalar.kind] at h

theorem Nbt.refers_slot {P : String → Prop} {address : String} (kind : Kind)
    (function : Option String) (h : P address) :
    (Nbt.slot kind (.string address) function).Refers P := by
  intro kind' address' hv
  rw [Value.ofSlot_payload] at hv
  cases kind <;> cases hv <;> exact h

theorem Nbt.calls_slot {P : String → Prop} {function : Option String} (kind : Kind) (payload : Nbt)
    (h : ∀ id, function = some id → P id) : (Nbt.slot kind payload function).Calls P := by
  intro id hid
  cases function with
  | none => simp [Nbt.slot, Nbt.get?, Table.find?] at hid
  | some f =>
    refine h id ?_
    simpa [Nbt.slot, Nbt.get?, Table.find?, Nbt.text?] using hid

theorem Scalar.calls (P : String → Prop) (a : Scalar) : a.slot.Calls P :=
  Nbt.calls_slot a.kind _ nofun

/-- A script value that refers to records and functions with properties only. -/
structure Nbt.Proper (records functions : String → Prop) (v : Nbt) : Prop where
  wellFormed : v.WellFormed
  refers : v.Refers records
  calls : v.Calls functions

theorem Nbt.Proper.mono {records records' functions functions' : String → Prop} {v : Nbt}
    (h : v.Proper records functions) (hrecords : ∀ a, records a → records' a)
    (hfunctions : ∀ id, functions id → functions' id) : v.Proper records' functions' :=
  ⟨h.wellFormed, h.refers.mono hrecords, h.calls.mono hfunctions⟩

theorem Scalar.proper (records functions : String → Prop) (a : Scalar) :
    a.slot.Proper records functions :=
  ⟨a.wellFormed, a.refers records, a.calls functions⟩

theorem Nbt.proper_function {records functions : String → Prop} {address id : String}
    (haddress : records address) (hid : functions id) :
    (Nbt.slot .function (.string address) (some id)).Proper records functions :=
  ⟨wellFormed_function address (some id), refers_slot .function _ haddress,
    calls_slot .function _ fun _ h => Option.some.inj h ▸ hid⟩

namespace Uses

variable {G G' : Uses}

/-- What is written is a script value, which refers to nothing that the program does not have. -/
def Gives (G : Uses) : Source → Prop
  | .literal v => v.Proper G.IsRecord G.IsFunction
  | .copy p => ∃ s, p = .slot s ∧ G.IsValue s
  | .param entry => ValueEntry entry

theorem Gives.mono {source : Source} (h : G.Gives source) (hle : G ≤ G') :
    G'.Gives source := by
  cases source with
  | literal v => exact Nbt.Proper.mono h (fun _ ha => ha.mono hle) fun _ hid => hid.mono hle
  | copy p =>
    obtain ⟨s, hp, hs⟩ := h
    exact ⟨s, hp, hs.mono hle⟩
  | param entry => exact h

/-- What is written is the payload of a value of the kind, or the id of a function as its text. -/
inductive Payload (G : Uses) (kind : Kind) : Source → Prop
  | literal {v} (hv : kind.HasPayload v) : Payload G kind (.literal v)
  | function {s} (hkind : kind = .string) (hs : G.IsValue s) :
      Payload G kind (.copy (.field s "function"))

theorem Payload.mono {kind : Kind} {source : Source} (h : G.Payload kind source) (hle : G ≤ G') :
    G'.Payload kind source := by
  cases h with
  | literal hv => exact .literal hv
  | function hkind hs => exact .function hkind (hs.mono hle)

end Uses

/-! ### Entries of channels -/

/-- What a routine does with an argument. -/
inductive ArgUse where
  /-- Reads the slot whose key it is -/
  | reads
  /-- Writes the slot whose key it is -/
  | writes
  /-- Keeps the function in the slot whose key it is -/
  | waits
  /-- Writes the heap record whose key it is -/
  | record
  /-- Calls a unit with the channel whose key it is -/
  | calls
  /-- Makes a reference of the kind whose tag it is -/
  | kind
  /-- Anything else -/
  | other
  /-- There is no such argument -/
  | foreign
deriving DecidableEq

/-- What a routine does with an argument. -/
def Routine.argUse (r : Routine) (name : String) : ArgUse :=
  if name = "result" then .writes
  else if name = "listener" then .waits
  else if name = "prototype" then (if r = .setClassPrototype then .record else .other)
  else if name = "channel" then .calls
  else if name = "kind" then .kind
  else if name = "property" then (if r = .computedMember then .reads else .other)
  else if name ∈ ["value", "object", "key", "parent", "function", "that", "promise", "command",
    "ticks"] then .reads
  else if name ∈ ["left", "right", "operation"] then .other
  else .foreign

theorem argumentName_ne {name : String} (i : Nat) (h : name.toList.take 3 ≠ "arg".toList) :
    argumentName i ≠ name := by
  rintro rfl
  simp [argumentName] at h

/-- A name that starts otherwise is none of an argument of a function. -/
theorem valueEntry_ne {name : String} (h : ValueEntry name) : name ≠ "return" ∧ name ≠ "frame" ∧
    name ≠ "target" ∧ name ≠ "source" ∧ name ≠ "array" ∧ name ≠ "function" ∧ name ≠ "channel" := by
  rcases h with rfl | rfl | ⟨i, rfl⟩
  · decide
  · decide
  · refine ⟨?_, ?_, ?_, ?_, ?_, ?_, ?_⟩ <;> exact argumentName_ne i (by decide)

theorem argumentName_notMem {names : List String} (i : Nat)
    (h : ∀ name ∈ names, name.toList.take 3 ≠ "arg".toList) : argumentName i ∉ names :=
  fun hi => argumentName_ne i (h _ hi) rfl

/-- The arguments of functions are none of routines. -/
theorem Routine.argUse_valueEntry {name : String} (r : Routine) (h : ValueEntry name) :
    r.argUse name = .foreign := by
  rcases h with rfl | rfl | ⟨i, rfl⟩
  · rfl
  · rfl
  · rw [argUse, if_neg (argumentName_ne i (by decide)), if_neg (argumentName_ne i (by decide)),
      if_neg (argumentName_ne i (by decide)), if_neg (argumentName_ne i (by decide)),
      if_neg (argumentName_ne i (by decide)), if_neg (argumentName_ne i (by decide)),
      if_neg (argumentName_notMem i (by decide)), if_neg (argumentName_notMem i (by decide))]

/-! ### Code -/

/-- What is written is the text. -/
def Source.isText (t : String) : Source → Bool
  | .literal (.string t') => t' = t
  | _ => false

theorem Source.isText_iff {t : String} {source : Source} :
    source.isText t = true ↔ source = .text t := by
  unfold Source.isText Source.text
  split
  · simp [eq_comm]
  · next h => exact iff_of_false (by simp) fun htext => h t htext

/-- The place is an entry of a channel that tells where a result goes. -/
def Place.isTarget : Place → Bool
  | ⟨.channel _, ["result"]⟩ | ⟨.channel _, ["return"]⟩ => true
  | _ => false

/-- The instruction writes the slot, or tells a routine or a function to write its result there. -/
def Instr.names (s : Slot) : Instr → Bool
  | .set _ target source => target.address = .slot s || (target.isTarget && source.isText s.key)
  | .append target _ => target.address = .slot s
  | .invoke _ _ _ store => store.any fun p => p.address = .slot s
  | .returnIf _ _ | .returnWith _ | .raw _ => false

/-- A unit whose code is looked at. -/
structure Site extends Standing where
  unit : String
  kind : UnitKind
  owner : Option String
  isAsync : Bool

/-- The role of the unit. -/
def Site.role (site : Site) : UnitRole :=
  ⟨site.kind, site.depth != 0, site.breakable⟩

namespace Uses

variable (G : Uses) (site : Site)

/-- The source is an argument that a routine can use so, where the result goes to the target. -/
def ArgFits (target : Option Slot) : ArgUse → Source → Prop
  | .reads, source => ∃ s, G.IsValue s ∧ source = .addressOf s
  | .writes, source => ∃ s, target = some s ∧ source = .addressOf s
  | .waits, source => ∃ s, (G.IsValue s ∨ G.slot s = some .listener) ∧ source = .addressOf s
  | .record, source => ∃ r : Record, r.index < G.records ∧ source = .text r.key
  | .calls, source => ∃ c, ((∃ s root, target = some s ∧ G.slot s = some (.result root) ∧
    G.channel c = some (.call s)) ∨ G.channel c = some .filled) ∧ source = .text c.key
  | .kind, source => ∃ kind : Kind, kind.isReference = true ∧ source = .text kind.tag
  | .other, _ => True
  | .foreign, _ => False

/-- What is written to an entry of a channel is what its use says. -/
def EntryFits (name : String) (source : Source) : ChannelUse → Prop
  | .library r target => G.ArgFits target (r.argUse name) source
  | .answer _ _ => False
  | .call result => (ValueEntry name ∧ G.Gives source) ∨
    (name = "return" ∧ source = .addressOf result)
  | .each unit => (name = "array" ∧ ∃ s, G.IsValue s ∧ source = .addressOf s) ∨
    (name = "function" ∧ source = .text (functionId G.ns unit)) ∨
    (name = "channel" ∧ ∃ c, G.channel c = some .filled ∧ source = .text c.key)
  | .filled => False

/-- The unit is that of a top-level function, which may be called: a call in another one was
    recorded, or the name of the called function was not declared as a function only. -/
def MayCall (owner : Option String) (unit : String) : Prop :=
  ∃ g sig, G.function g sig ∧ sig.unit = unit ∧ ∀ f, owner = some f →
    (G.calls f g ∨
      ∃ kind loop, G.slot sig.binding = some (.variable_ kind loop) ∧ kind ≠ .function)

/-- The result of a routine may go to the slot: it is an intermediate one, or the promise of the
    function in whose body the code stands. -/
def Target (s : Slot) : Prop :=
  G.slot s = some (.result site.root) ∨
    (G.slot s = some (.promise site.root) ∧ site.unit = site.root)

/-- Hands the value in a slot to the caller, whose slot the address tells. -/
abbrev answerCode (c : Channel) (d s : Slot) : List Instr :=
  [.set .always (.channel c) (.literal (.compound [("frame", .string c.key)])),
    .set .always (.entry c "target") (.valueOf d),
    .set .always (.entry c "source") (.addressOf s),
    .invoke .always (.library .setVariable) (some c) none]

/-- The arguments of a loop over an array, which calls a unit with a channel. -/
abbrev eachEntries (ns : String) (array : Slot) (unit : String) (d : Channel) : Compile.Entries :=
  [("array", .addressOf array), ("function", .text (functionId ns unit)), ("channel", .text d.key)]

/-- The instruction writes no slot but some, also by what it calls a routine or function with. -/
def Within (writes : Slot → Prop) : Instr → Prop
  | .set _ target _ | .append target _ => ∀ s, target.address = .slot s → writes s
  | .invoke _ _ channel store =>
    (∀ c, channel = some c → ∃ use, G.channel c = some use ∧
      ∀ s, use.target? = some s → writes s) ∧
    ∀ p s, store = some p → p.address = .slot s → writes s
  | .returnIf _ _ | .returnWith _ | .raw _ => True

end Uses

/-! ### Uses only grow -/

namespace Uses

variable {G G' : Uses} {site : Site}

theorem MayCall.mono {owner : Option String} {unit : String} (h : G.MayCall owner unit)
    (hle : G ≤ G') : G'.MayCall owner unit := by
  obtain ⟨g, sig, hg, hunit, hcall⟩ := h
  refine ⟨g, sig, hle.function _ _ hg, hunit, fun f hf => (hcall f hf).imp (hle.calls _ _) ?_⟩
  rintro ⟨kind, loop, hkind, hne⟩
  exact ⟨kind, loop, hle.slot _ _ hkind, hne⟩

theorem Target.mono {s : Slot} (h : G.Target site s) (hle : G ≤ G') : G'.Target site s :=
  h.imp (hle.slot _ _) (And.imp_left (hle.slot _ _))

theorem Target.isValue {s : Slot} (h : G.Target site s) : G.IsValue s :=
  h.elim isValue_of_result fun h => isValue_of_promise h.1

/-! ### Filled channels -/

/-- The instructions that fill a channel. -/
theorem mem_fillCode {c : Channel} {entries : Compile.Entries} {i : Instr}
    (h : i ∈ fillCode c entries) :
    i = .set .always (.channel c) (.literal (.compound [("frame", .string c.key)])) ∨
      ∃ e ∈ entries, i = .set .always (.entry c e.1) e.2 := by
  refine (List.mem_cons.1 h).imp_right fun h => ?_
  obtain ⟨e, he, rfl⟩ := List.mem_map.1 h
  exact ⟨e, he, rfl⟩

theorem eachEntries_fit {d : Channel} {array : Slot} {unit : String}
    (hd : G.channel d = some .filled) (harray : G.IsValue array) :
    ∀ e ∈ eachEntries G.ns array unit d, G.EntryFits e.1 e.2 (.each unit) := by
  intro e he
  simp only [List.mem_cons, List.not_mem_nil, or_false] at he
  rcases he with rfl | rfl | rfl
  · exact .inl ⟨rfl, array, harray, rfl⟩
  · exact .inr (.inl ⟨rfl, rfl⟩)
  · exact .inr (.inr ⟨rfl, d, hd, rfl⟩)

theorem eachEntries_served (ns : String) (array : Slot) (unit : String) (d : Channel) :
    Routine.loopArray.Served fun name t => (name, .text t) ∈ eachEntries ns array unit d where
  args x hx := by
    simp only [Routine.args, List.mem_cons, List.not_mem_nil, or_false] at hx
    rcases hx with rfl | rfl | rfl
    · exact ⟨array.key, by simp [Source.addressOf], by simp⟩
    · exact ⟨functionId ns unit, by simp, by simp⟩
    · exact ⟨d.key, by simp, by simp⟩
  member := by simp

end Uses

end PackScript
