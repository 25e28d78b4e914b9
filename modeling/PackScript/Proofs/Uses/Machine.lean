import PackScript.Machine.Host
import PackScript.Proofs.Machine.Arguments
import PackScript.Proofs.Machine.Records
import PackScript.Proofs.Uses.Code

namespace PackScript

/-!
# Machines that keep to the uses of names

The slots, channels and records of a machine hold what their uses say.

* `Limits` — what the runs of a machine are held to: the uses of names, what variables may hold,
  perhaps a slot that is not to be written, and errors that do not come up.
* `Tidy L n m` — the machine keeps to the limits, and `n` records were handed out. Nothing in it
  refers to a record that was not.
* `Proceeds` — what runs lead to: a tidy machine, with the slot as it was. Return addresses do not
  start to lead to the slot either.
* `Run.Keeps` — a run leads to such a machine, also one that fails.

The count `n` is a number without bound, of which the machine keeps the last 32 bits.
-/

variable {entries : List (String × Nbt)} {items : List Nbt} {path : List String} {n n' : Nat}
  {child tree : Nbt} {address key : String}

/-! ### Limits -/

/-- A single step failed. -/
def MachineError.IsFault : MachineError → Prop
  | .unknownUnit _ | .storage _ _ => True
  | .depthExceeded _ | .endlessLoop => False

/-- What runs are held to. -/
structure Limits where
  uses : Uses
  program : Program
  /-- What variables may hold -/
  variables_ : Slot → Nbt → Prop
  /-- A slot that is not to be written -/
  spared : Option Slot
  /-- The limit of a depth error that does not come up -/
  alarm : Option Nat
  /-- No single step fails -/
  unfailing : Prop

namespace Limits

/-- The uses only. -/
def ofUses (uses : Uses) (program : Program) : Limits :=
  ⟨uses, program, fun _ _ => True, none, none, False⟩

variable (L : Limits)

/-- The key is not that of the slot that is not to be written. -/
def Free (key : String) : Prop :=
  ∀ a, L.spared = some a → key ≠ a.key

/-- The error may come up. -/
structure Quiet (e : MachineError) : Prop where
  alarm : ∀ limit, L.alarm = some limit → e ≠ .depthExceeded limit
  fault : L.unfailing → ¬ e.IsFault

/-- Nothing is said of errors. -/
structure Lenient : Prop where
  alarm : L.alarm = none
  fault : ¬ L.unfailing

/-- The instruction leaves the slot alone that is not to be written. -/
def Leaves (i : Instr) : Prop :=
  ∀ a, L.spared = some a → L.uses.Within (· ≠ a) i

end Limits

theorem Limits.lenient_ofUses (uses : Uses) (program : Program) : (ofUses uses program).Lenient :=
  ⟨rfl, id⟩

theorem Limits.Lenient.quiet {L : Limits} (h : L.Lenient) (e : MachineError) : L.Quiet e where
  alarm limit ha := by
    rw [h.alarm] at ha
    cases ha
  fault hfault := absurd hfault h.fault

/-! ### Values -/

/-- The address is the key of one of the first records. -/
def Issued (n : Nat) (address : String) : Prop :=
  ∃ r : Record, r.index < n ∧ address = r.key

theorem Issued.mono (h : Issued n address) (hle : n ≤ n') : Issued n' address := by
  obtain ⟨r, hr, haddress⟩ := h
  exact ⟨r, Nat.lt_of_lt_of_le hr hle, haddress⟩

/-- The address is the key of one of the first records, or none. -/
def Known (n : Nat) (address : String) : Prop :=
  address = "" ∨ Issued n address

theorem Known.mono (h : Known n address) (hle : n ≤ n') : Known n' address :=
  h.imp_right (·.mono hle)

theorem Uses.IsRecord.issued {G : Uses} (h : G.IsRecord address) (hle : G.records ≤ n) :
    Issued n address :=
  Issued.mono h hle

section

variable {L : Limits} {n n' : Nat} {v : Nbt}

/-- The tree is a script value that refers to none but the first records. -/
def Nbt.Fair (L : Limits) (n : Nat) (v : Nbt) : Prop :=
  v.Proper (Issued n) L.uses.IsFunction

/-- The tree is a script value that is called at most. -/
def Nbt.Callable (L : Limits) (n : Nat) (v : Nbt) : Prop :=
  v.Proper (Known n) L.uses.IsFunction

theorem Nbt.Fair.mono (h : v.Fair L n) (hle : n ≤ n') : v.Fair L n' :=
  Nbt.Proper.mono h (fun _ ha => ha.mono hle) fun _ hid => hid

theorem Nbt.Callable.mono (h : v.Callable L n) (hle : n ≤ n') : v.Callable L n' :=
  Nbt.Proper.mono h (fun _ ha => ha.mono hle) fun _ hid => hid

theorem Nbt.Fair.callable (h : v.Fair L n) : v.Callable L n :=
  Nbt.Proper.mono h (fun _ ha => .inr ha) fun _ hid => hid

theorem Scalar.fair (L : Limits) (n : Nat) (a : Scalar) : a.slot.Fair L n :=
  a.proper _ _

theorem Nbt.fair_undefined (L : Limits) (n : Nat) : undefinedSlot.Fair L n :=
  Scalar.fair L n .undefined

/-- A value of a kind that is none of references refers to nothing. -/
theorem Nbt.ValueOf.fair {kind : Kind} (h : v.ValueOf kind) (hkind : kind.isReference = false) :
    v.Fair L n := by
  refine ⟨⟨kind, h⟩, fun kind' address hv => ?_, fun id hid => ?_⟩
  · rw [h.ofSlot] at hv
    cases kind <;> simp [Kind.isReference] at hkind <;> cases hv
  · obtain ⟨f, hf, _⟩ := Option.bind_eq_some_iff.1 hid
    rw [(h.function f hf).1] at hkind
    cases hkind

/-- The payload makes no reference of a tree that is none. -/
theorem Nbt.Refers.payload {v' : Nbt} (h : v.Refers fun _ => False)
    (htype : v'.get? "type" = v.get? "type") : v'.Refers fun _ => False := by
  intro kind address hv
  rw [Value.ofSlot, htype] at hv
  cases hkind : (((v.get? "type").bind text?).bind Kind.ofTag?).getD .undefined <;>
    rw [hkind] at hv <;> cases hv <;> exact h _ _ (by rw [Value.ofSlot, hkind]; rfl)

/-- What is no compound is no reference. -/
theorem Nbt.refers_of_no_type {P : String → Prop} (h : v.get? "type" = none) : v.Refers P := by
  intro kind address hv
  simp [Value.ofSlot, h, Value.ofPayload] at hv

theorem Scalar.kind_isReference (a : Scalar) : a.kind.isReference = false := by
  cases a <;> rfl

end

/-! ### Slots -/

/-- The text is one that a slot for return addresses may hold. -/
def Uses.Returns (G : Uses) (t : String) : Prop :=
  t = "" ∨ t = hostResult ∨ ∃ s root, G.slot s = some (.result root) ∧ t = s.key

/-- What a slot may hold. -/
def SlotUse.Holds (L : Limits) (n : Nat) (s : Slot) : SlotUse → Nbt → Prop
  | .variable_ _ _, v => v.Fair L n ∧ L.variables_ s v
  | .result _, v => v.Fair L n
  | .scalar _ kind, v => v.ValueOf kind ∧ kind.isReference = false
  | .promise _, v => v.Fair L n
  | .flag _, v => (∃ entries, v = .compound entries) ∧ v.Refers fun _ => False
  | .listener, v => v.Callable L n
  | .code, v => ∃ code, v = .int code
  | .address, v => ∃ t, v = .string t ∧ L.uses.Returns t

/-- What is under the key of a slot is what the slot may hold. -/
structure SlotTidy (L : Limits) (n : Nat) (key : String) (v : Nbt) : Prop where
  holds : ∀ s use, key = s.key → L.uses.slot s = some use → use.Holds L n s v
  refers : v.Refers (Known n)

section

variable {L : Limits} {n n' : Nat} {s : Slot} {use : SlotUse} {v : Nbt}

theorem SlotUse.Holds.mono (h : use.Holds L n s v) (hle : n ≤ n') : use.Holds L n' s v := by
  cases use with
  | variable_ kind loop => exact ⟨h.1.mono hle, h.2⟩
  | result root | promise root => exact Nbt.Fair.mono h hle
  | listener => exact Nbt.Callable.mono h hle
  | _ => exact h

/-- A slot that is read as a value holds one. -/
theorem SlotUse.Holds.fair (h : use.Holds L n s v) (huse : use.isValue = true) : v.Fair L n := by
  cases use with
  | variable_ kind loop => exact h.1
  | result root | promise root => exact h
  | scalar root kind => exact h.1.fair h.2
  | _ => cases huse

/-- Whatever the use of a slot is, what it holds refers to nothing that was not handed out. -/
theorem SlotUse.Holds.refers (h : use.Holds L n s v) : v.Refers (Known n) := by
  cases use with
  | flag root => exact h.2.mono fun _ h => h.elim
  | listener => exact Nbt.Proper.refers h
  | code =>
    obtain ⟨code, rfl⟩ := h
    exact Nbt.refers_of_no_type rfl
  | address =>
    obtain ⟨t, rfl, _⟩ := h
    exact Nbt.refers_of_no_type rfl
  | _ => exact (h.fair rfl).refers.mono fun _ ha => .inr ha

theorem SlotTidy.mono (h : SlotTidy L n key v) (hle : n ≤ n') : SlotTidy L n' key v :=
  ⟨fun s use hkey hs => (h.holds s use hkey hs).mono hle, h.refers.mono fun _ ha => ha.mono hle⟩

theorem SlotUse.Holds.slotTidy (h : use.Holds L n s v) (hs : L.uses.slot s = some use) :
    SlotTidy L n s.key v := by
  refine ⟨fun s' use' hkey hs' => ?_, h.refers⟩
  obtain rfl := Slot.key_injective hkey
  obtain rfl := Option.some.inj (hs.symm.trans hs')
  exact h

theorem slotTidy_hostResult (hv : v.Fair L n) : SlotTidy L n hostResult v := by
  refine ⟨fun s use hkey _ => ?_, hv.refers.mono fun _ ha => .inr ha⟩
  obtain ⟨digits, hlist, _⟩ := s.toList_key
  rw [← hkey] at hlist
  simp [hostResult] at hlist

/-- A script value may go where results are returned to. -/
theorem Uses.Returns.slotTidy {t : String} (h : L.uses.Returns t) (ht : t ≠ "")
    (hv : v.Fair L n) : SlotTidy L n t v := by
  rcases h with h | rfl | ⟨s, root, hs, rfl⟩
  · exact absurd h ht
  · exact slotTidy_hostResult hv
  · have hholds : (SlotUse.result root).Holds L n s v := hv
    exact hholds.slotTidy hs

end

/-! ### Channels -/

/-- The channel of the key passes values to a called unit, and the key of the slot for its
    result. -/
inductive Uses.Passes (G : Uses) : String → Option String → Prop
  | call {c a} (h : G.channel c = some (.call a)) : Passes G c.key (some a.key)
  | filled {c} (h : G.channel c = some .filled) : Passes G c.key none
  | host : Passes G hostChannel (some hostResult)
  | schedule : Passes G scheduleChannel none

/-- What an argument of a routine may be. -/
def Uses.ArgHolds (G : Uses) (target : Option Slot) : ArgUse → Nbt → Prop
  | .reads, v => ∃ s, G.IsValue s ∧ v = .string s.key
  | .writes, v => ∃ s, target = some s ∧ v = .string s.key
  | .waits, v => ∃ s, (G.IsValue s ∨ G.slot s = some .listener) ∧ v = .string s.key
  | .record, v => ∃ r : Record, r.index < G.records ∧ v = .string r.key
  | .calls, v => ∃ c, ((∃ s root, target = some s ∧ G.slot s = some (.result root) ∧
    G.channel c = some (.call s)) ∨ G.channel c = some .filled) ∧ v = .string c.key
  | .kind, v => ∃ kind : Kind, kind.isReference = true ∧ v = .string kind.tag
  | .other, _ | .foreign, _ => True

/-- What an argument of a loop over an array may be. -/
structure Uses.EachHolds (G : Uses) (unit name : String) (v : Nbt) : Prop where
  function : name = "function" → v = .string (functionId G.ns unit)
  channel : name = "channel" → ∃ c, G.channel c = some .filled ∧ v = .string c.key

/-- What an argument may be with which a value is handed to the caller. -/
structure Uses.AnswerHolds (G : Uses) (value : Slot) (name : String) (v : Nbt) : Prop where
  target : name = "target" → ∃ t, v = .string t ∧ G.Returns t
  source : name = "source" → v = .string value.key

/-- What an entry of a channel may be, unless it is passed to a called unit. -/
def Uses.EntryHolds (G : Uses) (name : String) (v : Nbt) : ChannelUse → Prop
  | .library r target => G.ArgHolds target (r.argUse name) v
  | .answer _ value => G.AnswerHolds value name v
  | .each unit => G.EachHolds unit name v
  | .call _ | .filled => True

/-- An entry of a channel is what its use says. -/
structure EntryTidy (L : Limits) (n : Nat) (key name : String) (v : Nbt) : Prop where
  value : ValueEntry name → v.Fair L n
  returned : ∀ result, L.uses.Passes key result → name = "return" →
    ∃ t, result = some t ∧ v = .string t
  holds : ∀ c use, key = c.key → L.uses.channel c = some use → L.uses.EntryHolds name v use

theorem Channel.toList_key (c : Channel) : ∃ digits, c.key.toList = 'c' :: digits :=
  ⟨(toString c.index).toList, by simp [Channel.key]⟩

theorem Channel.key_ne_host (c : Channel) : c.key ≠ hostChannel ∧ c.key ≠ scheduleChannel := by
  obtain ⟨digits, hkey⟩ := c.toList_key
  constructor <;> intro h <;> rw [h] at hkey <;> simp [hostChannel, scheduleChannel] at hkey

section

variable {L : Limits} {G : Uses} {n n' : Nat} {key name : String} {v : Nbt} {c : Channel}
  {result : Option String}

/-- What a channel is used for, if it passes values. -/
theorem Uses.Passes.channel (h : G.Passes c.key result) :
    (∃ a, G.channel c = some (.call a) ∧ result = some a.key) ∨
      (G.channel c = some .filled ∧ result = none) := by
  generalize hkey : c.key = key at h
  cases h with
  | @call c' a h =>
    obtain rfl := Channel.key_injective hkey
    exact .inl ⟨a, h, rfl⟩
  | @filled c' h =>
    obtain rfl := Channel.key_injective hkey
    exact .inr ⟨h, rfl⟩
  | host => exact absurd hkey c.key_ne_host.1
  | schedule => exact absurd hkey c.key_ne_host.2

theorem Uses.Passes.unique {result' : Option String} (h : G.Passes key result)
    (h' : G.Passes key result') : result' = result := by
  cases h with
  | call h =>
    rcases h'.channel with ⟨a, ha, rfl⟩ | ⟨hfilled, rfl⟩
    · cases h.symm.trans ha
      rfl
    · cases h.symm.trans hfilled
  | filled h =>
    rcases h'.channel with ⟨a, ha, rfl⟩ | ⟨_, rfl⟩
    · cases h.symm.trans ha
    · rfl
  | host =>
    generalize hkey : hostChannel = key at h'
    cases h' with
    | call _ => exact absurd hkey.symm (Channel.key_ne_host _).1
    | filled _ => exact absurd hkey.symm (Channel.key_ne_host _).1
    | host => rfl
    | schedule => exact absurd hkey (by decide)
  | schedule =>
    generalize hkey : scheduleChannel = key at h'
    cases h' with
    | call _ => exact absurd hkey.symm (Channel.key_ne_host _).2
    | filled _ => exact absurd hkey.symm (Channel.key_ne_host _).2
    | host => exact absurd hkey (by decide)
    | schedule => rfl

theorem EntryTidy.mono (h : EntryTidy L n key name v) (hle : n ≤ n') :
    EntryTidy L n' key name v :=
  ⟨fun hname => (h.value hname).mono hle, h.returned, h.holds⟩

/-- An entry of a channel that passes values. -/
theorem EntryTidy.ofPassed (hpasses : L.uses.Passes key result)
    (hvalue : ValueEntry name → v.Fair L n)
    (hreturn : name = "return" → ∃ t, result = some t ∧ v = .string t) :
    EntryTidy L n key name v where
  value := hvalue
  returned result' h' := by
    obtain rfl := hpasses.unique h'
    exact hreturn
  holds c use hkey hc := by
    rw [hkey] at hpasses
    rcases hpasses.channel with ⟨a, ha, _⟩ | ⟨hfilled, _⟩
    · obtain rfl := Option.some.inj (hc.symm.trans ha)
      trivial
    · obtain rfl := Option.some.inj (hc.symm.trans hfilled)
      trivial

/-- An entry of a channel with a use that none but routines read. -/
theorem EntryTidy.ofUse {use : ChannelUse} (hc : L.uses.channel c = some use)
    (hholds : L.uses.EntryHolds name v use) (hvalue : ¬ ValueEntry name)
    (hreturn : name ≠ "return") : EntryTidy L n c.key name v where
  value h := absurd h hvalue
  returned _ _ h := absurd h hreturn
  holds c' use' hkey hc' := by
    obtain rfl := Channel.key_injective hkey
    obtain rfl := Option.some.inj (hc.symm.trans hc')
    exact hholds

/-- The key of a channel may stand in any channel. -/
theorem EntryTidy.frame (text : Nbt) : EntryTidy L n key "frame" text where
  value h := absurd rfl (valueEntry_ne h).2.1
  returned _ _ h := absurd h (by decide)
  holds c use _ _ := by
    cases use with
    | library r target =>
      have huse : r.argUse "frame" = .foreign := by
        cases r <;> decide
      show L.uses.ArgHolds target (r.argUse "frame") text
      rw [huse]
      trivial
    | answer d s => exact ⟨by simp, by simp⟩
    | each unit => exact ⟨by simp, by simp⟩
    | _ => trivial

/-- A channel that was cleared. -/
theorem frame_tidy (key : String) : ∀ e ∈ frame key, EntryTidy L n key e.1 e.2 := by
  intro e he
  rw [List.mem_singleton.1 he]
  exact .frame _

end

/-! ### Records -/

/-- What the heap holds: values that refer to none but the first records, and functions that
    wait. -/
abbrev Limits.contents (L : Limits) (n : Nat) : Contents where
  value := Nbt.Fair L n
  listener := Nbt.Callable L n
  scalar := Scalar.fair L n

theorem RecordHolds.issue {L : Limits} {n n' : Nat} {r : Nbt} (h : RecordHolds (L.contents n) r)
    (hle : n ≤ n') : RecordHolds (L.contents n') r :=
  h.mono (fun _ hv => Nbt.Fair.mono hv hle) fun _ hv => Nbt.Callable.mono hv hle

/-! ### Machines -/

/-- The machine keeps to the limits. So many records were handed out. -/
structure Tidy (L : Limits) (n : Nat) (m : Machine) : Prop where
  program : m.program = L.program
  ns : L.uses.ns = L.program.ns
  slots : m.slots.Entries (SlotTidy L n)
  channels : m.channels.Entries fun key w => w.Entries (EntryTidy L n key)
  heap : HeapHolds (L.contents n) (Issued n) m.heap
  scheduled : ∀ t ∈ m.scheduled, t.function.Callable L n
  maxDepth : L.Quiet (.depthExceeded m.maxDepth)
  next : m.nextRecord = .ofNat n
  base : L.uses.records ≤ n
  /-- A record that was handed out by the machine is there -/
  handed : ∀ r : Record, L.uses.records ≤ r.index → r.index < n → r.index < 2 ^ 32 →
    (m.record? r.key).isSome = true
  complete : L.unfailing → ∀ name u, L.uses.unit name = some u → L.program.units.has name = true

theorem Tidy.start {L : Limits} {maxDepth : Nat} (hns : L.uses.ns = L.program.ns)
    (hbase : L.uses.records = L.program.heapBase) (hquiet : L.Quiet (.depthExceeded maxDepth))
    (hcomplete : L.unfailing → ∀ name u, L.uses.unit name = some u →
      L.program.units.has name = true) :
    Tidy L L.uses.records (.start L.program maxDepth) where
  program := rfl
  ns := hns
  slots := Nbt.entries_empty _
  channels := Nbt.entries_empty _
  heap := Nbt.entries_empty _
  scheduled := nofun
  maxDepth := hquiet
  next := congrArg UInt32.ofNat hbase.symm
  base := Nat.le_refl _
  handed _ hr hr' := absurd hr (Nat.not_le_of_lt hr')
  complete := hcomplete

theorem Tidy.startLenient {L : Limits} (h : L.Lenient) (hns : L.uses.ns = L.program.ns)
    (hbase : L.uses.records = L.program.heapBase) (maxDepth : Nat) :
    Tidy L L.uses.records (.start L.program maxDepth) :=
  .start hns hbase (h.quiet _) fun hunfailing => absurd hunfailing h.fault

/-- What runs lead to. -/
structure Proceeds (L : Limits) (n : Nat) (m : Machine) (n' : Nat) (m' : Machine) : Prop where
  le : n ≤ n'
  tidy : Tidy L n' m'
  spared : ∀ a, L.spared = some a → m'.slots.get? a.key = m.slots.get? a.key
  /-- No further return address leads to the slot that is not to be written -/
  addresses : ∀ a d, L.spared = some a → L.uses.slot d = some .address →
    m.slots.get? d.key ≠ some (.string a.key) → m'.slots.get? d.key ≠ some (.string a.key)
  /-- Slots that were written stay written -/
  written : ∀ key, (m.slots.get? key).isSome = true → (m'.slots.get? key).isSome = true

section

variable {L : Limits} {n n' n'' : Nat} {m m' m'' : Machine}

theorem Proceeds.ofSlots (hle : n ≤ n') (htidy : Tidy L n' m') (hslots : m'.slots = m.slots) :
    Proceeds L n m n' m' :=
  ⟨hle, htidy, fun _ _ => by rw [hslots], fun _ _ _ _ h => by rwa [hslots],
    fun _ h => by rwa [hslots]⟩

theorem Proceeds.refl (h : Tidy L n m) : Proceeds L n m n m :=
  .ofSlots (Nat.le_refl n) h rfl

theorem Proceeds.trans (h : Proceeds L n m n' m') (h' : Proceeds L n' m' n'' m'') :
    Proceeds L n m n'' m'' where
  le := Nat.le_trans h.le h'.le
  tidy := h'.tidy
  spared a ha := (h'.spared a ha).trans (h.spared a ha)
  addresses a d ha hd hm := h'.addresses a d ha hd (h.addresses a d ha hd hm)
  written key hkey := h'.written key (h.written key hkey)

/-! ### Written machines -/

/-- A write below a slot succeeds, if it does for what the slot holds. -/
theorem Tidy.writeSlot (path : List String) {value : Nbt} (hm : Tidy L n m)
    (hset : ((m.slots.get? key).getD .empty).setPath path value = some child) (hfree : L.Free key)
    (hholds : SlotTidy L n key child)
    (haddress : ∀ a d, L.spared = some a → L.uses.slot d = some .address → key = d.key →
      child ≠ .string a.key) :
    ∃ tree, m.slots.setPath (key :: path) value = some tree ∧
      Proceeds L n m n (m.withStorage .slots tree) ∧ tree.get? key = some child := by
  obtain ⟨tree, htree, hslots, hget⟩ := hm.slots.setPath hset hholds
  refine ⟨tree, htree, ⟨Nat.le_refl n, { hm with slots := hslots }, fun a ha => ?_,
    fun a d ha hd hother => ?_, fun name hname => ?_⟩, by simp [hget]⟩
  · show tree.get? a.key = m.slots.get? a.key
    rw [hget, if_neg (hfree a ha)]
  · show tree.get? d.key ≠ some (.string a.key)
    rw [hget]
    split
    · next hkey =>
      intro h
      exact haddress a d ha hd hkey (Option.some.inj h)
    · exact hother
  · show (tree.get? name).isSome = true
    rw [hget]
    split
    · rfl
    · exact hname

/-- A write of an entry of a channel. -/
theorem Tidy.writeEntry {name : String} {value : Nbt} (hm : Tidy L n m)
    (hvalue : EntryTidy L n key name value) :
    ∃ tree, m.channels.setPath [key, name] value = some tree ∧
      Proceeds L n m n (m.withStorage .channels tree) := by
  obtain ⟨tree, _, hset, hchannels, _⟩ :=
    hm.channels.setEntry₂ (fun _ hw => hw) hvalue (fun _ hw => hw)
  exact ⟨tree, hset, .ofSlots (Nat.le_refl n) { hm with channels := hchannels } rfl⟩

/-- A write of a whole channel. -/
theorem Tidy.writeChannel (hm : Tidy L n m) (hentries : ∀ e ∈ entries, EntryTidy L n key e.1 e.2) :
    ∃ tree, m.channels.setPath [key] (.compound entries) = some tree ∧
      Proceeds L n m n (m.withStorage .channels tree) := by
  obtain ⟨tree, hset, hchannels, _⟩ := hm.channels.setEntry (Nbt.entries_compound hentries)
  exact ⟨tree, hset, .ofSlots (Nat.le_refl n) { hm with channels := hchannels } rfl⟩

/-- A write below a record that was handed out. -/
theorem Tidy.writeHeap (hm : Tidy L n m)
    (hgrown : HeapGrown (L.contents n) (Issued n) m.heap tree) :
    Proceeds L n m n (m.withStorage .heap tree) :=
  .ofSlots (Nat.le_refl n) { hm with
    heap := hgrown.holds
    handed := fun r hr hr' hr'' => hgrown.records _ (hm.handed r hr hr' hr'') } rfl

end

end PackScript
