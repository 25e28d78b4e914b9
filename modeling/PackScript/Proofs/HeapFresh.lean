import PackScript.Proofs.HeldValues
import PackScript.Proofs.Machine.Straight

namespace PackScript

/-!
# New records are fresh

The compiler numbers the records of functions, classes and prototypes, and the machine goes on from
there.

* `Machine.HasRoom` — a number is left. The counter is a word, and would start again after the last
  number.
* `Tidy.nextRecord_of_room` — as long as there is room, the counter of the machine is the number of
  records that were handed out.
* `new_records_are_fresh` — so a new object never gets the address of a record that is there, or
  that some value refers to.
* `Machine.HasForgotten` — a machine that has run a script so many times, each of which creates an
  array. `first_record_is_taken_again`: without room the statement fails.
-/

/-! ### Routines that create records -/

/-- The heap has one more record, and is otherwise as it was. -/
def Machine.AddsRecord (m : Machine) (key : String) (m' : Machine) : Prop :=
  m.heap.get? key = none ∧
    ∃ record, ∀ key', m'.heap.get? key' = if key = key' then some record else m.heap.get? key'

namespace Run

variable {m m' : Machine} {a : Args}

/-- The key of the record that is created next. -/
abbrev nextKey (m : Machine) : String :=
  (Record.mk m.nextRecord.toNat).key

/-- A record is created under the next key, and a reference to it is the result. -/
theorem creates_ok {record : Nbt} {value : String → Nbt} (hfree : m.heap.get? (nextKey m) = none)
    (h : (freshRecord >>= fun address => write .heap [address] record >>= fun _ =>
      answer a (value address)) m = .ok () m') :
    m.AddsRecord (nextKey m) m' ∧
      ∃ target, a.text? "result" = some target ∧ m'.slot target = value (nextKey m) := by
  have hfresh : freshRecord m = .ok (nextKey m) { m with nextRecord := m.nextRecord + 1 } := rfl
  rw [bind_of_ok hfresh] at h
  obtain ⟨_, m₁, hwrite, hanswer⟩ := bind_eq_ok h
  obtain ⟨tree, hset, rfl⟩ := write_ok hwrite
  obtain ⟨_, hrecord, _, hget⟩ := Nbt.setPath_cons hset
  cases hrecord
  -- the result is written to a slot, which leaves the heap alone
  obtain ⟨target, m₂, hargument, hslot⟩ := bind_eq_ok hanswer
  obtain ⟨rfl, htarget⟩ := argument_looks.of_ok hargument
  obtain ⟨slots, hset', rfl⟩ := write_ok hslot
  obtain ⟨_, hvalue, _, hget'⟩ := Nbt.setPath_cons hset'
  cases hvalue
  refine ⟨⟨hfree, record, hget⟩, target, htarget, ?_⟩
  show (slots.get? target).getD .undefinedSlot = value (nextKey m)
  simp [hget']

/-- What the two routines do that create records. -/
theorem creating_routine_ok {call : Executor} {r : Routine} {code : Int32}
    (hr : r = .allocate ∨ r = .bindFunction) (hfree : m.heap.get? (nextKey m) = none)
    (h : routine call a r m = .ok code m') :
    m.AddsRecord (nextKey m) m' ∧ ∃ target kind id, a.text? "result" = some target ∧
      m'.slot target = .slot kind (.string (nextKey m)) id := by
  rcases hr with rfl | rfl
  · obtain ⟨_, m₁, hrun, hcode⟩ := bind_eq_ok h
    cases hcode
    obtain ⟨hadds, target, htarget, hslot⟩ := creates_ok hfree hrun
    exact ⟨hadds, target, _, _, htarget, hslot⟩
  · obtain ⟨_, m₁, hrun, hcode⟩ := bind_eq_ok h
    cases hcode
    obtain ⟨callee, m₂, hcallee, hrest⟩ := bind_eq_ok hrun
    obtain ⟨rfl, _⟩ := slotArgument_looks.of_ok hcallee
    obtain ⟨that, m₃, hthat, hcreates⟩ := bind_eq_ok hrest
    obtain ⟨rfl, _⟩ := slotArgument_looks.of_ok hthat
    obtain ⟨hadds, target, htarget, hslot⟩ := creates_ok hfree hcreates
    exact ⟨hadds, target, _, _, htarget, hslot⟩

end Run

/-! ### The counter -/

/-- A record that the machine may hand out is not there yet. -/
def Machine.HasRoom (m : Machine) : Prop :=
  ∃ r : Record, m.program.heapBase ≤ r.index ∧ r.index < 2 ^ 32 ∧ m.record? r.key = none

section

variable {L : Limits} {n : Nat} {m : Machine}

/-- As long as there is room, the counter has not started again. -/
theorem Tidy.nextRecord_of_room (hm : Tidy L n m) (hbase : L.uses.records = L.program.heapBase)
    (hroom : m.HasRoom) : m.nextRecord.toNat = n := by
  obtain ⟨r, hr, hword, hmissing⟩ := hroom
  rw [hm.program, ← hbase] at hr
  have hbound : n ≤ r.index := by
    by_contra hlt
    have hpresent := hm.handed r hr (Nat.lt_of_not_le hlt) hword
    rw [hmissing] at hpresent
    cases hpresent
  rw [hm.next, UInt32.toNat_ofNat']
  exact Nat.mod_eq_of_lt (Nat.lt_of_le_of_lt hbound hword)

theorem not_issued (n : Nat) : ¬ Issued n (Record.mk n).key := by
  rintro ⟨r, hr, hkey⟩
  have heq := Record.key_injective hkey
  subst heq
  exact Nat.lt_irrefl _ hr

theorem not_known (n : Nat) : ¬ Known n (Record.mk n).key := by
  rintro (hempty | hissued)
  · have hlist := congrArg String.toList hempty
    simp [Record.key] at hlist
  · exact not_issued n hissued

end

/-- Whatever is done with the machine of a compiled program, all its records have numbers below its
    counter, as long as there is room. So a routine that creates a record takes an address that is
    none of the records of the program and none of those in the heap, and to which nothing refers:
    the routine adds the record and answers a reference to it. -/
theorem new_records_are_fresh (ns : String) (texts : List String) (maxDepth : Nat) {m : Machine}
    (hm : m.Reached (compileSources ns texts).program maxDepth) (hroom : m.HasRoom) :
    m.program.heapBase ≤ m.nextRecord.toNat ∧
      (∀ key record, m.heap.get? key = some record →
        ∃ r : Record, key = r.key ∧ r.index < m.nextRecord.toNat) ∧
      ∀ call a r code m', r = .allocate ∨ r = .bindFunction →
        Run.routine call a r m = .ok code m' →
        ∃ fresh : Record, m.program.heapBase ≤ fresh.index ∧ m.AddsRecord fresh.key m' ∧
          (∀ v kind address, m.Holds (fun _ => True) v →
            Value.ofSlot v = .reference kind address → address ≠ fresh.key) ∧
          ∃ target kind id, a.text? "result" = some target ∧
            m'.slot target = .slot kind (.string fresh.key) id := by
  obtain ⟨G, hp, _⟩ := compileSources_orderly ns texts
  obtain ⟨n, htidy⟩ := hm.tidy hp
  have hnext : m.nextRecord.toNat = n := htidy.nextRecord_of_room hp.records hroom
  have hbase : m.program.heapBase ≤ n := by
    rw [htidy.program]
    exact hp.records ▸ htidy.base
  have hkeys : ∀ key record, m.heap.get? key = some record → Issued n key :=
    fun key record h => (htidy.heap.2 key record h).1
  rw [hnext]
  refine ⟨hbase, fun key record h => ?_, fun call a r code m' hr hrun => ⟨⟨n⟩, hbase, ?_⟩⟩
  · obtain ⟨r, hr, hkey⟩ := hkeys key record h
    exact ⟨r, hkey, hr⟩
  · have hfree : m.heap.get? (Run.nextKey m) = none := by
      rw [Run.nextKey, hnext]
      refine Option.eq_none_iff_forall_ne_some.2 fun record h => ?_
      exact not_issued n (hkeys _ record h)
    obtain ⟨hadds, htarget⟩ := Run.creating_routine_ok hr hfree hrun
    rw [Run.nextKey, hnext] at hadds htarget
    refine ⟨hadds, fun v kind address hv href => ?_, htarget⟩
    rintro rfl
    exact not_known n (htidy.refers_of_holds hv kind _ href)

/-- In the function that an object is passed to, the routine that created the object creates
    another one. -/
theorem new_records_are_fresh_passing :
    ∃ m : Machine, m.Reached (compileSources "pack" [passingText]).program 512 ∧ m.HasRoom ∧
      ∃ code m', Run.routine Run.fromHost ⟨"c1", m.filled "c1"⟩ .allocate m = .ok code m' ∧
        ∃ fresh : Record, m.program.heapBase ≤ fresh.index ∧ m.AddsRecord fresh.key m' := by
  let m := (Machine.start (compileSources "pack" [passingText]).program 512).afterBy
    (Check.never.or (.entering "f")) .entry
  have hm : m.Reached (compileSources "pack" [passingText]).program 512 :=
    ⟨[], .entry, .entering "f", rfl⟩
  have hfacts : m.program.heapBase ≤ 3 ∧ (m.record? (Record.mk 3).key).isNone = true ∧
      Run.error? (Run.routine Run.fromHost ⟨"c1", m.filled "c1"⟩ .allocate m) = none := by
    decide +kernel
  obtain ⟨hbase, hmissing, hok⟩ := hfacts
  have hroom : m.HasRoom := ⟨⟨3⟩, hbase, by decide, Option.isNone_iff_eq_none.1 hmissing⟩
  cases hrun : Run.routine Run.fromHost ⟨"c1", m.filled "c1"⟩ .allocate m with
  | error e m' =>
    rw [hrun] at hok
    cases hok
  | ok code m' =>
    obtain ⟨_, _, hfresh⟩ := new_records_are_fresh "pack" _ 512 hm hroom
    obtain ⟨fresh, hbase, hadds, _⟩ := hfresh _ _ _ _ _ (.inl rfl) hrun
    exact ⟨m, hm, hroom, code, m', hrun, fresh, hbase, hadds⟩

/-! ### After the last number -/

/-- The machine with a new array, which a slot refers to. -/
def Machine.withArray (m : Machine) (s : Slot) : Machine :=
  { m with
    heap := m.heap.put (Run.nextKey m) (Run.newRecord .array none)
    nextRecord := m.nextRecord + 1 }.putSlot s (.slot .array (.string (Run.nextKey m)) none)

/-- An array is created under the next number. -/
theorem Run.allocate_array {m : Machine} {a : Args} {s : Slot} (hm : m.Stored)
    (hheap : m.heap.IsCompound) (hkind : a.text? "kind" = some "array")
    (hproto : a.text? "prototype" = none) (hresult : a.text? "result" = some s.key)
    (call : Executor) : routine call a .allocate m = .ok Instr.normal (m.withArray s) := by
  have htag : Kind.ofTag? "array" = some .array := by decide
  have hfresh : freshRecord m = .ok (nextKey m) { m with nextRecord := m.nextRecord + 1 } := rfl
  have hwrite : write .heap [nextKey m] (newRecord .array none)
      { m with nextRecord := m.nextRecord + 1 } = .ok () { m with
        heap := m.heap.put (nextKey m) (newRecord .array none)
        nextRecord := m.nextRecord + 1 } := by
    refine (bind_of_ok rfl).trans ?_
    simp only [Machine.storage, Nbt.setPath_single hheap]
    rfl
  have hstored : { m with
      heap := m.heap.put (nextKey m) (newRecord .array none)
      nextRecord := m.nextRecord + 1 }.Stored := ⟨hm.slots, hm.channels⟩
  have hargument : ∀ m, argument a "result" m = .ok s.key m := fun m => by
    rw [argument, hresult]
    rfl
  have hallocate : allocateRoutine a m = .ok () (m.withArray s) := by
    simp only [allocateRoutine, hkind, hproto, Option.bind_some, htag, Option.getD_some]
    refine (bind_of_ok hfresh).trans ((bind_of_ok hwrite).trans ?_)
    exact (bind_of_ok (hargument _)).trans (write_slot hstored s _)
  exact bind_of_ok hallocate

/-- A script that creates an array and forgets it. -/
def forgettingText : String :=
  "[];"

/-- The code of the script. -/
def forgettingCode : List Instr :=
  Run.libraryCode ⟨0⟩ .allocate
    (Run.literalEntries [("result", .string "s0"), ("kind", .string "array")])

/-- The instructions are the code of the script. -/
def isForgettingCode : List Instr → Bool
  | [.set [] ⟨.channel ⟨0⟩, []⟩ (.literal (.compound [("frame", .string "c0")])),
      .set [] ⟨.channel ⟨0⟩, ["result"]⟩ (.literal (.string "s0")),
      .set [] ⟨.channel ⟨0⟩, ["kind"]⟩ (.literal (.string "array")),
      .invoke [] (.library .allocate) (some ⟨0⟩) none] => true
  | _ => false

theorem forgettingText_code : ∃ u,
    (compileSources "pack" [forgettingText]).program.units.find?
      (compileSources "pack" [forgettingText]).program.entry = some u ∧
    u.instrs = forgettingCode := by
  have hcode : ((compileSources "pack" [forgettingText]).program.units.find?
      (compileSources "pack" [forgettingText]).program.entry).any
        (fun u => isForgettingCode u.instrs) = true := by decide +kernel
  obtain ⟨u, hu, hcode⟩ := (Option.any_eq_true _ _).1 hcode
  refine ⟨u, hu, ?_⟩
  unfold isForgettingCode at hcode
  split at hcode
  · next hinstrs =>
    have hkey : (Channel.mk 0).key = "c0" := by decide
    simp [hinstrs, forgettingCode, Run.libraryCode, Run.literalEntries, fillCode, hkey,
      Place.channel, Place.entry, Guard.always]
  · cases hcode

/-- The machine has run the script so many times: the number of the next record is the number of
    runs, and the first record is there. -/
structure Machine.HasForgotten (n : Nat) (m : Machine) : Prop where
  program : m.program = (compileSources "pack" [forgettingText]).program
  maxDepth : m.maxDepth = 512
  stored : m.Stored
  heap : m.heap.IsCompound
  next : m.nextRecord = .ofNat n
  first : 0 < n → (m.heap.get? (Record.mk 0).key).isSome = true

/-- What the code of the script does. -/
theorem straight_forgettingCode {m : Machine} (hm : m.Stored) (hheap : m.heap.IsCompound) :
    ∃ tree, Run.Straight forgettingCode m ((m.putChannel ⟨0⟩ tree).withArray ⟨0⟩) := by
  have hchannel : (m.putChannel ⟨0⟩ (Run.filledTree ⟨0⟩
      [("result", .string "s0"), ("kind", .string "array")])).Stored :=
    ⟨hm.slots, Nbt.isCompound_put _ _ _⟩
  refine ⟨Run.filledTree ⟨0⟩ [("result", .string "s0"), ("kind", .string "array")],
    Run.straight_library hm fun k call => ?_⟩
  exact Run.allocate_array (hchannel.cap k) hheap (by decide +kernel) (by decide +kernel)
    (by decide +kernel) call

/-- One more run. -/
theorem Machine.HasForgotten.entry {n : Nat} {m : Machine} (h : m.HasForgotten n) :
    (m.after .entry).HasForgotten (n + 1) := by
  obtain ⟨u, hu, hcode⟩ := forgettingText_code
  rw [← h.program] at hu
  obtain ⟨tree, hstraight⟩ := straight_forgettingCode (m := { m with depth := m.depth + 1 })
    ⟨h.stored.slots, h.stored.channels⟩ h.heap
  have hexecute : Run.fromHost m.program.entry none m =
      .ok Instr.normal ((m.putChannel ⟨0⟩ tree).withArray ⟨0⟩) := by
    refine (Run.bind_of_ok rfl).trans ?_
    rw [h.maxDepth, Run.execute_succ hu, hcode, Run.deeper, hstraight.steps_eq]
    rfl
  have hrun : HostStep.entry.run m = .ok () ((m.putChannel ⟨0⟩ tree).withArray ⟨0⟩) :=
    (Run.bind_of_ok rfl).trans (Run.bind_of_ok hexecute)
  rw [Machine.after, hrun]
  exact
    { program := h.program
      maxDepth := h.maxDepth
      stored := ⟨Nbt.isCompound_put _ _ _, Nbt.isCompound_put _ _ _⟩
      heap := Nbt.isCompound_put _ _ _
      next := (congrArg (· + 1) h.next).trans (UInt32.ofNat_add n 1).symm
      first := fun _ => by
        show ((m.heap.put (Run.nextKey m) _).get? _).isSome = true
        rw [Nbt.get?_put]
        split
        · rfl
        · next hne =>
          refine h.first (Nat.pos_of_ne_zero fun hn => hne ?_)
          rw [Run.nextKey, h.next, hn]
          rfl }

/-- **After the last number comes the first.** When a script that creates one array was run as often
    as the counter has numbers, the counter is back at zero, and the address that is taken next is
    that of a record in the heap. -/
theorem first_record_is_taken_again :
    ∃ m : Machine,
      m = (List.replicate (2 ^ 32) HostStep.entry).foldl Machine.after
        (.start (compileSources "pack" [forgettingText]).program 512) ∧
      m.nextRecord = 0 ∧ (m.heap.get? (Run.nextKey m)).isSome = true := by
  have hruns : ∀ n, ((List.replicate n HostStep.entry).foldl Machine.after
      (.start (compileSources "pack" [forgettingText]).program 512)).HasForgotten n := by
    intro n
    induction n with
    | zero =>
      exact ⟨rfl, rfl, ⟨⟨_, rfl⟩, ⟨_, rfl⟩⟩, ⟨_, rfl⟩, by decide +kernel,
        fun h => (Nat.lt_irrefl 0 h).elim⟩
    | succ n ih =>
      rw [List.replicate_succ', List.foldl_append]
      exact ih.entry
  have h := hruns (2 ^ 32)
  have hzero : UInt32.ofNat (2 ^ 32) = 0 := by decide
  refine ⟨_, rfl, h.next.trans hzero, ?_⟩
  rw [Run.nextKey, h.next.trans hzero]
  exact h.first (by decide)

end PackScript
