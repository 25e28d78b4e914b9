import PackScript.Proofs.Json.Number
import PackScript.Proofs.Machine.Straight
import PackScript.Proofs.Machine.Tree

namespace PackScript

/-!
# Members that are written and read

A property of an object is looked up along its prototypes, an element of an array by its number.
What a write changes is seen by every read that gets to the same place, whatever slot it goes
through, and by no other read.

* `Machine.chain`, `Machine.Resolves` — the records that a read goes along, and the one it ends at.
* `Machine.lookupWithin_eq` — a read gives the first property along the chain.
* `Machine.PropertyPut` — only one property of one record differs; `member` says what reads see.
* `getElem?_putElement` — what a write does to the elements of an array.
* `members_written_and_read` — the laws of writes and reads.
-/

/-! ### Chains of prototypes -/

namespace Machine

/-- A property that a record has itself. -/
def property? (m : Machine) (property address : String) : Option Nbt :=
  (m.record? address).bind (·.getPath ["props", property])

/-- The prototype that a record names. -/
def prototype? (m : Machine) (address : String) : Option String :=
  ((m.record? address).bind (·.get? "prototype")).bind Nbt.text?

/-- The addresses of the first records along the prototypes. -/
def chain (m : Machine) : Nat → String → List String
  | 0, _ => []
  | levels + 1, address =>
    if (m.record? address).isNone then []
    else address :: ((m.prototype? address).map (m.chain levels)).getD []

/-- The record is the first one that has the property, among those that a read of the property from
    the value goes along. -/
def Resolves (m : Machine) (object : Value) (property address : String) : Prop :=
  ∃ kind start, object = .reference kind start ∧ kind ≠ .array ∧
    (m.chain maxChain start).find? (fun x => (m.property? property x).isSome) = some address

variable {m m' : Machine} {property address : String} {v : Nbt}

/-- A read gives the first property along the chain. -/
theorem lookupWithin_eq (m : Machine) (property : String) (levels : Nat) (address : String) :
    m.lookupWithin property levels address =
      ((m.chain levels address).findSome? (m.property? property)).getD .undefinedSlot := by
  induction levels generalizing address with
  | zero => rfl
  | succ levels ih =>
    rw [lookupWithin, chain]
    cases hr : m.record? address with
    | none => rfl
    | some record =>
      have hproperty : m.property? property address = record.getPath ["props", property] := by
        rw [property?, hr]
        rfl
      have hprototype : m.prototype? address = (record.get? "prototype").bind Nbt.text? := by
        rw [prototype?, hr]
        rfl
      simp only [← hproperty, ← hprototype]
      cases hfound : m.property? property address with
      | some found => simp [hfound]
      | none => cases hnext : m.prototype? address <;> simp [hfound, ih]

/-- A chain that gets to the written record gives what was written, and every other one what it gave
    before. -/
theorem findSome?_put {f f' : String → Option Nbt}
    (hf : ∀ x, f' x = if x = address then some v else f x) (chain : List String) :
    chain.findSome? f' = if chain.find? (fun x => (f' x).isSome) = some address then some v
      else chain.findSome? f := by
  induction chain with
  | nil => rfl
  | cons x rest ih =>
    by_cases hx : x = address
    · simp [hf, hx]
    · cases hfx : f x with
      | some w => simp [hf, hx, hfx]
      | none => simpa [hf, hx, hfx] using ih

/-! ### One property written -/

/-- Everything but one property of one record is as it was. -/
structure PropertyPut (m m' : Machine) (property address : String) (v : Nbt) : Prop where
  slots : m'.slots = m.slots
  channels : m'.channels = m.channels
  records : ∀ x, (m'.record? x).isNone = (m.record? x).isNone
  entries : ∀ x name, name ≠ "props" →
    (m'.record? x).bind (·.get? name) = (m.record? x).bind (·.get? name)
  properties : ∀ q x, m'.property? q x =
    if x = address ∧ q = property then some v else m.property? q x

namespace PropertyPut

variable (h : PropertyPut m m' property address v)

include h

theorem chain (levels : Nat) (start : String) : m'.chain levels start = m.chain levels start := by
  induction levels generalizing start with
  | zero => rfl
  | succ levels ih =>
    have hprototype : m'.prototype? start = m.prototype? start := by
      rw [prototype?, prototype?, h.entries _ _ (by decide)]
    rw [Machine.chain, Machine.chain, h.records, hprototype]
    cases m.prototype? start <;> simp [ih]

theorem elements (x : String) : m'.elements x = m.elements x := by
  rw [Machine.elements, Machine.elements, h.entries _ _ (by decide)]

theorem scalarWithin (levels : Nat) (value : Value) :
    m'.scalarWithin levels value = m.scalarWithin levels value := by
  induction levels generalizing value with
  | zero => rcases value with _ | ⟨⟨⟩, _⟩ <;> rfl
  | succ levels ih =>
    rcases value with _ | ⟨⟨⟩, _⟩ <;> simp [Machine.scalarWithin, h.elements, ih]

/-- The property is read as what was written where the read ends at the record, and everything else
    is read as before. -/
theorem member (object : Value) (q : String) :
    (q = property ∧ m'.Resolves object q address → m'.member object q = v) ∧
    (¬ (q = property ∧ m'.Resolves object q address) → m'.member object q = m.member object q) := by
  have hlookup : ∀ start, m'.lookup start q = if q = property ∧ (m'.chain maxChain start).find?
      (fun x => (m'.property? q x).isSome) = some address then v else m.lookup start q := by
    intro start
    rw [lookup, lookup, lookupWithin_eq, lookupWithin_eq, ← h.chain]
    by_cases hq : q = property
    · rw [findSome?_put (fun x => by simpa [hq] using h.properties q x)]
      split <;> simp_all
    · have hsame : m'.property? q = m.property? q := by
        funext x
        simp [h.properties, hq]
      simp [hsame, hq]
  cases object with
  | scalar s =>
    exact ⟨fun ⟨_, _, _, hobject, _⟩ => (nomatch hobject), fun _ => by cases s <;> rfl⟩
  | reference kind start =>
    by_cases hkind : kind = .array
    · subst hkind
      refine ⟨fun ⟨_, _, _, hobject, hne, _⟩ => ?_, fun _ => ?_⟩
      · cases hobject
        exact absurd rfl hne
      · rw [Machine.member, Machine.member, h.elements]
    · have hread : ∀ m : Machine, m.member (.reference kind start) q = m.lookup start q := by
        intro m
        cases kind <;> first | exact absurd rfl hkind | rfl
      rw [hread, hread, hlookup]
      refine ⟨fun ⟨hq, _, _, hobject, _, hfirst⟩ => ?_, fun hnot => ?_⟩
      · cases hobject
        rw [if_pos ⟨hq, hfirst⟩]
      · rw [if_neg fun hq => hnot ⟨hq.1, kind, start, rfl, hkind, hq.2⟩]

/-- A read that starts at the record ends there. -/
theorem resolves {kind : Kind} (hkind : kind ≠ .array) (hrecord : (m.record? address).isSome) :
    m'.Resolves (.reference kind address) property address := by
  have hthere : (m'.record? address).isNone = false := by
    rw [h.records]
    simpa using hrecord
  refine ⟨kind, address, rfl, hkind, ?_⟩
  rw [maxChain, Machine.chain, hthere]
  simp [h.properties]

end PropertyPut

end Machine

/-! ### Elements -/

/-- The text of a number below the bound names the element with that number. -/
theorem elementIndex?_toString (i : Nat) :
    elementIndex? (toString i) = if i < indexBound then some i else none := by
  have hchars : (toString i).toList = digitsOf i := Nat.toList_repr
  have hvalue : decimalValue (digitsOf i) = i := by
    have hread : decimalValue (digitsOf i) = Nat.ofDigitChars 10 (digitsOf i) 0 := by
      simp [decimalValue, digitsValue, decimalDigitValue, Nat.ofDigitChars, Nat.mul_comm]
    rw [hread, digitsOf, Nat.ofDigitChars_ten_toDigits]
  have hdigits : (digitsOf i).all isDecimalDigit = true :=
    List.all_eq_true.2 fun c hc => isDecimalDigit_of_mem_digitsOf hc
  unfold elementIndex?
  rw [hchars]
  split
  · next rest hplus =>
    rw [hplus] at hdigits
    exact absurd hdigits (by simp [isDecimalDigit])
  · simp [hvalue, hdigits, digitsOf_ne_nil]

/-- The elements after a write: the one that was written, `undefined` before it where there was
    nothing, and the others as they were. -/
theorem getElem?_putElement {items : List Nbt} {i : Nat}
    (hi : i < items.length ∨ i + 1 < indexBound) (v : Nbt) :
    (putElement items i v).length = max items.length (i + 1) ∧
    ∀ j, (putElement items i v)[j]? = if j = i then some v
      else if j < items.length then items[j]? else if j < i then some .undefinedSlot else none := by
  unfold putElement
  split
  · refine ⟨by rw [List.length_set]; omega, fun j => ?_⟩
    grind
  · rw [if_pos (by omega)]
    refine ⟨by simp; omega, fun j => ?_⟩
    grind

/-! ### Writes -/

namespace Machine

variable {m : Machine} {address : String}

theorem write_heap {path : List String} {v tree : Nbt} (h : m.heap.setPath path v = some tree) :
    Run.write .heap path v m = .ok () { m with heap := tree } := by
  refine (Run.bind_of_ok rfl).trans ?_
  simp only [storage, h]
  rfl

/-- A property of a record that has properties is written. -/
theorem write_property {props : Nbt} (hprops : m.heap.getPath [address, "props"] = some props)
    (hcompound : props.IsCompound) (property : String) (v : Nbt) :
    ∃ m', Run.write .heap [address, "props", property] v m = .ok () m' ∧
      PropertyPut m m' property address v := by
  rw [Nbt.getPath_pair] at hprops
  obtain ⟨record, hold, hget⟩ := Option.bind_eq_some_iff.1 hprops
  have hset : m.heap.setPath [address, "props", property] v =
      some (m.heap.put address (record.put "props" (props.put property v))) := by
    refine Nbt.setPath_put (.of_get? hold) ?_
    rw [hold]
    refine Nbt.setPath_put (.of_get? hget) ?_
    rw [Option.getD_some, hget]
    exact Nbt.setPath_single hcompound
  refine ⟨_, write_heap hset, rfl, rfl, fun x => ?_, fun x name hname => ?_, fun q x => ?_⟩
  all_goals
    by_cases hx : address = x
    · subst hx
      simp [property?, record?, Nbt.getPath_pair, eq_comm, *]
    · simp [property?, record?, hx, Ne.symm hx]

/-- The elements of an array are written. -/
theorem write_elements (hheap : m.heap.IsCompound)
    (hrecord : ((m.record? address).getD .empty).IsCompound) (items : List Nbt) :
    ∃ m', Run.write .heap [address, "elements"] (.list items) m = .ok () m' ∧
      m'.elements address = items ∧ ∀ x, x ≠ address → m'.record? x = m.record? x := by
  refine ⟨_, write_heap (Nbt.setPath_pair hheap hrecord), ?_, fun x hx => ?_⟩
  · simp [elements, record?, Nbt.items?]
  · exact (Nbt.get?_put _ _ _ _).trans (if_neg (Ne.symm hx))

end Machine

/-! ### Routines -/

/-- The arguments of a write: slots with the object and with the value, and the name or a slot with
    the name. -/
structure WriteArgs (m : Machine) (a : Args) (object : Value) (property : String) (v : Nbt) :
    Prop where
  object : ∃ s : Slot, a.text? "object" = some s.key ∧ Value.ofSlot (m.slot s.key) = object
  property : a.text? "property" = some property ∨ a.text? "property" = none ∧
    ∃ s : Slot, a.text? "key" = some s.key ∧ m.display (m.slot s.key) = property
  value : ∃ s : Slot, a.text? "value" = some s.key ∧ m.slot s.key = v

/-- The arguments of a read: a slot with the object, the name or a slot with the name, and the slot
    for the result. -/
structure ReadArgs (m : Machine) (b : Args) (r : Routine) (object : Value) (property : String)
    (result : Slot) : Prop where
  object : ∃ s : Slot, b.text? "object" = some s.key ∧ Value.ofSlot (m.slot s.key) = object
  property : r = .getMember ∧ b.text? "property" = some property ∨ r = .computedMember ∧
    ∃ s : Slot, b.text? "property" = some s.key ∧ m.display (m.slot s.key) = property
  result : b.text? "result" = some result.key

section

variable {m m' : Machine} {a b : Args} {r : Routine} {object : Value} {property : String} {v : Nbt}
  {result : Slot} {call : Executor}

/-- What the routine of a write does once it has its arguments. -/
theorem setMemberRoutine_run (h : WriteArgs m a object property v) :
    Run.setMemberRoutine a m = (match object with
      | .reference .array address => Run.setElement address property v
      | .reference _ address =>
        if !address.isEmpty then Run.write .heap [address, "props", property] v else pure ()
      | .scalar _ => pure ()) m := by
  obtain ⟨⟨s, hs, hobject⟩, hproperty, ⟨t, ht, hvalue⟩⟩ := h
  have hname : Run.writtenProperty a m = .ok property m := by
    rw [Run.writtenProperty]
    rcases hproperty with hdirect | ⟨hnone, k, hk, hkey⟩
    · rw [hdirect]
      rfl
    · rw [hnone, ← hkey]
      exact Run.bind_of_ok (Run.scalarArgument_run hk)
  subst hobject hvalue
  refine (Run.bind_of_ok (Run.valueArgument_run hs)).trans ?_
  refine (Run.bind_of_ok hname).trans ?_
  exact Run.bind_of_ok (Run.slotArgument_run ht)

/-- A write of an element. -/
theorem setMember_element {address : String} {i : Nat}
    (ha : WriteArgs m a (.reference .array address) (toString i) v) (hheap : m.heap.IsCompound)
    (hrecord : ((m.record? address).getD .empty).IsCompound) (hi : i < indexBound) :
    ∃ m', Run.routine call a .setMember m = .ok Instr.normal m' ∧
      m'.elements address = putElement (m.elements address) i v ∧
      ∀ x, x ≠ address → m'.record? x = m.record? x := by
  obtain ⟨m', hwrite, hnew⟩ :=
    Machine.write_elements hheap hrecord (putElement (m.elements address) i v)
  have hrun : Run.setMemberRoutine a m = .ok () m' := by
    rw [setMemberRoutine_run ha]
    show Run.setElement address (toString i) v m = _
    rw [Run.setElement, elementIndex?_toString, if_pos hi]
    exact hwrite
  exact ⟨m', Run.bind_of_ok hrun, hnew⟩

/-- A read writes the member to the slot for its result. -/
theorem read_run (hm : m.Stored) (h : ReadArgs m b r object property result) :
    Run.routine call b r m = .ok Instr.normal (m.putSlot result (m.member object property)) := by
  obtain ⟨⟨s, hs, rfl⟩, hproperty, hresult⟩ := h
  have hvalue := Run.valueArgument_run (m := m) hs
  rcases hproperty with ⟨rfl, hname⟩ | ⟨rfl, k, hk, rfl⟩
  · have hrun : Run.getMemberRoutine b m =
        .ok () (m.putSlot result (m.member (.ofSlot (m.slot s.key)) property)) := by
      refine (Run.bind_of_ok hvalue).trans ?_
      exact (Run.bind_of_ok (Run.argument_run hname)).trans (Run.answer_slot hm hresult _)
    exact Run.bind_of_ok hrun
  · have hrun : Run.computedMemberRoutine b m = .ok () (m.putSlot result
        (m.member (.ofSlot (m.slot s.key)) (m.display (m.slot k.key)))) := by
      refine (Run.bind_of_ok hvalue).trans ?_
      exact (Run.bind_of_ok (Run.scalarArgument_run hk)).trans (Run.answer_slot hm hresult _)
    exact Run.bind_of_ok hrun

/-- A read finds the same arguments after a property was written. -/
theorem ReadArgs.put {address : String} (hput : m.PropertyPut m' property address v) {q : String}
    (h : ReadArgs m b r object q result) : ReadArgs m' b r object q result := by
  have hslot : m'.slot = m.slot := by
    funext key
    rw [Machine.slot, Machine.slot, hput.slots]
  have hdisplay : m'.display = m.display := by
    funext w
    exact congrArg Scalar.toText (hput.scalarWithin _ _)
  obtain ⟨hobject, hproperty, hresult⟩ := h
  rw [← hslot] at hobject hproperty
  rw [← hdisplay] at hproperty
  exact ⟨hobject, hproperty, hresult⟩

end

/-- A property that is written is read from every object along whose prototypes its record is the
    first one to have it, the object itself among them, and all other reads give what they gave
    before. An element that is written is in its place, and the array has got as long as that takes,
    but with the last index an array that has to grow becomes empty, and texts of larger numbers
    name no element. -/
theorem members_written_and_read (m : Machine) (hm : m.Stored) (call : Executor) (a : Args)
    (v : Nbt) :
    (∀ kind address property props, WriteArgs m a (.reference kind address) property v →
      kind ≠ .array → address ≠ "" →
      m.heap.getPath [address, "props"] = some (.compound props) →
      ∃ m', Run.routine call a .setMember m = .ok Instr.normal m' ∧
        (∀ kind', kind' ≠ .array → m'.Resolves (.reference kind' address) property address) ∧
        ∀ b r object q result, ReadArgs m b r object q result → ∃ before after,
          Run.routine call b r m = .ok Instr.normal before ∧
          Run.routine call b r m' = .ok Instr.normal after ∧
          (q = property ∧ m'.Resolves object q address → after.slot result.key = v) ∧
          (¬ (q = property ∧ m'.Resolves object q address) →
            after.slot result.key = before.slot result.key)) ∧
    (∀ address i, WriteArgs m a (.reference .array address) (toString i) v →
      m.heap.IsCompound → ((m.record? address).getD .empty).IsCompound →
      ∃ m', Run.routine call a .setMember m = .ok Instr.normal m' ∧
        (∀ x, x ≠ address → m'.record? x = m.record? x) ∧
        let old := m.elements address
        let new := m'.elements address
        (i + 1 < indexBound ∨ i < indexBound ∧ i < old.length →
          new.length = max old.length (i + 1) ∧ ∀ j, new[j]? =
            if j = i then some v
            else if j < old.length then old[j]?
            else if j < i then some .undefinedSlot else none) ∧
        (i + 1 = indexBound → old.length ≤ i → new = []) ∧
        (indexBound ≤ i → new = old)) := by
  refine ⟨fun kind address property props ha hkind haddress hprops => ?_,
    fun address i ha hheap hrecord => ?_⟩
  · obtain ⟨m', hwrite, hput⟩ := Machine.write_property hprops ⟨props, rfl⟩ property v
    have hm' : m'.Stored := ⟨hput.slots ▸ hm.slots, hput.channels ▸ hm.channels⟩
    have hrun : Run.setMemberRoutine a m = .ok () m' := by
      rw [setMemberRoutine_run ha]
      have hnonempty : (!address.isEmpty) = true := by simpa using haddress
      cases kind <;> first | exact absurd rfl hkind | simpa [hnonempty] using hwrite
    have hthere : (m.record? address).isSome := by
      rw [Nbt.getPath_pair] at hprops
      obtain ⟨record, hrecord, _⟩ := Option.bind_eq_some_iff.1 hprops
      exact Option.isSome_of_eq_some hrecord
    refine ⟨m', Run.bind_of_ok hrun, fun _ hkind' => hput.resolves hkind' hthere,
      fun b r object q result hb => ?_⟩
    refine ⟨_, _, read_run hm hb, read_run hm' (hb.put hput), ?_⟩
    simpa [Machine.slot] using hput.member object q
  · by_cases hi : i < indexBound
    · obtain ⟨m', hrun, helements, hother⟩ := setMember_element ha hheap hrecord hi
      refine ⟨m', hrun, hother, ?_⟩
      rw [helements]
      refine ⟨fun hgrows => getElem?_putElement (by omega) v, fun hlast hlong => ?_, fun h => ?_⟩
      · rw [putElement, if_neg (by omega), if_neg (by omega)]
      · omega
    · have hrun : Run.setMemberRoutine a m = .ok () m := by
        rw [setMemberRoutine_run ha]
        show Run.setElement address (toString i) v m = _
        rw [Run.setElement, elementIndex?_toString, if_neg hi]
        rfl
      refine ⟨m, Run.bind_of_ok hrun, fun _ _ => rfl, ?_, ?_, fun _ => rfl⟩ <;> intros <;> omega

/-- A machine with two slots that refer to one object, and one that refers to an array. -/
def aliasMachine : Machine :=
  { Machine.start default 0 with
    slots := .compound [((Slot.mk 0).key, .slot .object (.string "x0") none),
      ((Slot.mk 1).key, .slot .object (.string "x0") none),
      ((Slot.mk 2).key, .slot .array (.string "x1") none)]
    heap := .compound [("x0", .compound [("props", .empty)]),
      ("x1", .compound [("elements", .list [.undefinedSlot])])] }

/-- Arguments to write what is in the third slot, and to read into the fourth. -/
def memberArgs (object : Slot) (property : String) : Args :=
  ⟨"c", .compound [("object", .string object.key), ("property", .string property),
    ("value", .string (Slot.mk 2).key), ("result", .string (Slot.mk 3).key)]⟩

/-- What is written through the first slot is read through the second. -/
theorem member_read_through_alias : ∃ m' after,
    Run.routine (Run.execute 0) (memberArgs ⟨0⟩ "p") .setMember aliasMachine =
      .ok Instr.normal m' ∧
    Run.routine (Run.execute 0) (memberArgs ⟨1⟩ "p") .getMember m' = .ok Instr.normal after ∧
    after.slot (Slot.mk 3).key = aliasMachine.slot (Slot.mk 2).key := by
  obtain ⟨hobjects, _⟩ := members_written_and_read aliasMachine ⟨⟨_, rfl⟩, ⟨_, rfl⟩⟩
    (Run.execute 0) (memberArgs ⟨0⟩ "p") (aliasMachine.slot (Slot.mk 2).key)
  obtain ⟨m', hwrite, hresolves, hreads⟩ := hobjects .object "x0" "p" []
    ⟨⟨⟨0⟩, rfl, rfl⟩, .inl rfl, ⟨⟨2⟩, rfl, rfl⟩⟩ (by decide) (by decide) rfl
  obtain ⟨_, after, _, hread, hvalue, _⟩ := hreads (memberArgs ⟨1⟩ "p") .getMember
    (.reference .object "x0") "p" ⟨3⟩ ⟨⟨⟨1⟩, rfl, rfl⟩, .inl ⟨rfl, rfl⟩, rfl⟩
  exact ⟨m', after, hwrite, hread, hvalue ⟨rfl, hresolves _ (by decide)⟩⟩

/-- An element at the last index does not make the array as long as it could be, but empty. -/
theorem array_emptied_at_last_index : ∃ m',
    Run.routine (Run.execute 0) (memberArgs ⟨2⟩ (toString (indexBound - 1))) .setMember
      aliasMachine = .ok Instr.normal m' ∧
    (aliasMachine.elements "x1").length = 1 ∧ m'.elements "x1" = [] := by
  have ha : WriteArgs aliasMachine (memberArgs ⟨2⟩ (toString (indexBound - 1)))
      (.reference .array "x1") (toString (indexBound - 1)) (aliasMachine.slot (Slot.mk 2).key) :=
    ⟨⟨⟨2⟩, rfl, rfl⟩, .inl rfl, ⟨⟨2⟩, rfl, rfl⟩⟩
  obtain ⟨m', hrun, helements, _⟩ :=
    setMember_element ha ⟨_, rfl⟩ ⟨_, rfl⟩ (by decide)
  refine ⟨m', hrun, rfl, helements.trans ?_⟩
  have hlong : ¬ indexBound - 1 < (aliasMachine.elements "x1").length := by decide
  rw [putElement, if_neg hlong, if_neg (by decide)]

end PackScript
