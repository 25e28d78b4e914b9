import PackScript.Proofs.Uses.Machine

namespace PackScript

/-!
# Library routines keep to the uses

* `Run.Looks` — a run that only looks at the machine.
* `Run.Keeps` — a run leads to a machine that keeps to the limits, also one that fails.
* `Keeps.allocate` — a new record gets an address that nothing refers to yet.
* `Executor.Keeps` — so do calls of functions.
* `Run.routine_keeps` — then so do routines with the arguments that their channels have.
-/

variable {entries : List (String × Nbt)} {items : List Nbt} {path : List String} {m' : Machine}
  {listener state v value : Nbt} {s : Slot} {st : Storage} {address key : String}

/-! ### What is read -/

section

variable {L : Limits} {n : Nat} {m : Machine}

theorem Tidy.slot_fair (hm : Tidy L n m) (hs : L.uses.IsValue s) : (m.slot s.key).Fair L n := by
  unfold Machine.slot
  cases hget : m.slots.get? s.key with
  | none => exact Nbt.fair_undefined _ _
  | some v =>
    obtain ⟨use, huse, hvalue⟩ := hs
    exact ((hm.slots.2 _ _ hget).holds s use rfl huse).fair hvalue

theorem Tidy.slot_callable (hm : Tidy L n m)
    (hs : L.uses.IsValue s ∨ L.uses.slot s = some .listener) : (m.slot s.key).Callable L n := by
  rcases hs with hs | hs
  · exact (hm.slot_fair hs).callable
  · unfold Machine.slot
    cases hget : m.slots.get? s.key with
    | none => exact (Nbt.fair_undefined L n).callable
    | some v => exact (hm.slots.2 _ _ hget).holds s _ rfl hs

end

/-- The unit of a function is found by its id. -/
theorem Tidy.unitOf_run {L : Limits} {n : Nat} {m : Machine} (hm : Tidy L n m) (name : String) :
    Run.unitOf (functionId L.uses.ns name) m = .ok name m := by
  rw [hm.ns, ← hm.program]
  exact Run.unitOf_run m name

namespace Run

/-! ### Runs that look -/

section

variable {α β : Type} {m : Machine}

/-- Only looks at the machine, and answers what it should if it succeeds. -/
def Looks (m : Machine) (c : Run α) (P : α → Prop) : Prop :=
  match c m with
  | .ok a m' => m' = m ∧ P a
  | .error e m' => m' = m ∧ e.IsFault

theorem Looks.pure {a : α} {P : α → Prop} (h : P a) : Looks m (Pure.pure a) P :=
  ⟨rfl, h⟩

theorem Looks.bind {c : Run α} {f : α → Run β} {P : α → Prop} {Q : β → Prop} (h : Looks m c P)
    (hf : ∀ a, P a → Looks m (f a) Q) : Looks m (c >>= f) Q := by
  unfold Looks at h
  cases hc : c m with
  | error e m' =>
    rw [hc] at h
    unfold Looks
    rw [bind_of_error hc]
    exact h
  | ok a m' =>
    rw [hc] at h
    obtain ⟨rfl, hP⟩ := h
    have hrest := hf a hP
    unfold Looks at hrest ⊢
    rwa [bind_of_ok hc]

theorem Looks.of_ok {c : Run α} {P : α → Prop} (h : Looks m c P) {answer : α}
    (hc : c m = .ok answer m') : m' = m ∧ P answer := by
  unfold Looks at h
  rw [hc] at h
  exact h

variable {a : Args} {key : String}

theorem argument_looks : Looks m (argument a key) fun t => a.text? key = some t := by
  unfold argument
  cases h : a.text? key with
  | none => exact ⟨rfl, trivial⟩
  | some t => exact ⟨rfl, rfl⟩

theorem slotArgument_looks :
    Looks m (slotArgument a key) fun v => ∃ t, a.text? key = some t ∧ v = m.slot t :=
  argument_looks.bind fun t ht => ⟨rfl, t, ht, rfl⟩

theorem valueArgument_looks : Looks m (valueArgument a key) fun v =>
    ∃ t, a.text? key = some t ∧ v = .ofSlot (m.slot t) := by
  refine slotArgument_looks.bind fun v ⟨t, ht, hv⟩ => ?_
  exact ⟨rfl, t, ht, congrArg Value.ofSlot hv⟩

theorem scalarArgument_looks : Looks m (scalarArgument a key) fun v =>
    ∃ t, a.text? key = some t ∧ v = m.scalar (.ofSlot (m.slot t)) := by
  refine valueArgument_looks.bind fun v ⟨t, ht, hv⟩ => ?_
  exact ⟨rfl, t, ht, congrArg m.scalar hv⟩

theorem operatorArgument_looks : Looks m (operatorArgument a) fun _ => True := by
  refine argument_looks.bind fun t _ => ?_
  cases BinaryOp.ofText? t with
  | none => exact ⟨rfl, trivial⟩
  | some op => exact ⟨rfl, trivial⟩

theorem writtenProperty_looks : Looks m (writtenProperty a) fun _ => True := by
  unfold writtenProperty
  cases a.text? "property" with
  | none => exact scalarArgument_looks.bind fun _ _ => ⟨rfl, trivial⟩
  | some property => exact ⟨rfl, trivial⟩

/-- The id of a function is that of the unit that is found. -/
theorem unitOf_looks {function : String} : Looks m (unitOf function) fun name =>
    function = functionId m.program.ns name := by
  unfold Looks unitOf
  rw [bind_of_ok (show (get : Run Machine) m = .ok m m from rfl)]
  cases hstart : afterStart? (m.program.ns ++ ":") function with
  | none => exact ⟨rfl, trivial⟩
  | some unit =>
    rw [afterStart?, List.isPrefixOf?_eq_some_iff_append_eq] at hstart
    refine ⟨rfl, ?_⟩
    show function = functionId m.program.ns (String.ofList unit)
    rw [← String.toList_inj, functionId]
    simpa using hstart.symm

theorem boundThis_looks {callee : Nbt} : Looks m (boundThis callee) fun bound => ∀ v,
    bound = some v → ∃ address, (m.record? address).bind (·.get? "bound") = some v := by
  unfold boundThis
  split
  · exact ⟨rfl, fun v hv => ⟨_, hv⟩⟩
  · exact ⟨rfl, nofun⟩

theorem boundThis_sees (callee : Nbt) : Sees m (boundThis callee) := by
  unfold boundThis
  split
  · exact ⟨_, rfl⟩
  · exact ⟨_, rfl⟩

theorem promise?_looks : Looks m (promise? address) fun state =>
    state = (m.record? address).bind (·.get? "promise") :=
  ⟨rfl, rfl⟩

theorem awaitedPromise_looks {awaited : Nbt} : Looks m (awaitedPromise awaited) fun found =>
    ∀ address state, found = some (address, state) →
      Value.ofSlot awaited = .reference .object address ∧
      (m.record? address).bind (·.get? "promise") = some state := by
  unfold awaitedPromise
  split
  · next address hvalue =>
    refine ⟨rfl, fun address' state h => ?_⟩
    obtain ⟨state', hstate, hpair⟩ := Option.map_eq_some_iff.1 h
    cases hpair
    exact ⟨hvalue, hstate⟩
  · exact ⟨rfl, nofun⟩

theorem awaitedPromise_sees (awaited : Nbt) : Sees m (awaitedPromise awaited) := by
  unfold awaitedPromise
  split
  · exact ⟨_, rfl⟩
  · exact ⟨_, rfl⟩

end

/-! ### Runs that keep to the limits -/

variable {α β : Type} {L : Limits} {n : Nat} {m : Machine}

/-- The run leads to a machine that keeps to the limits. -/
def Keeps (L : Limits) (n : Nat) (m : Machine) (c : Run α) (Q : Nat → α → Machine → Prop) : Prop :=
  match c m with
  | .ok a m' => ∃ n', Proceeds L n m n' m' ∧ Q n' a m'
  | .error e m' => ∃ n', Proceeds L n m n' m' ∧ L.Quiet e

/-- The same, whatever it answers. -/
abbrev GoesOn (L : Limits) (n : Nat) (m : Machine) (c : Run α) : Prop :=
  Keeps L n m c fun _ _ _ => True

theorem Keeps.pure {a : α} {Q : Nat → α → Machine → Prop} (hm : Tidy L n m) (hQ : Q n a m) :
    Keeps L n m (Pure.pure a) Q :=
  ⟨n, .refl hm, hQ⟩

theorem Keeps.throw {e : MachineError} {Q : Nat → α → Machine → Prop} (hm : Tidy L n m)
    (he : L.Quiet e) : Keeps L n m (throw e) Q :=
  ⟨n, .refl hm, he⟩

/-- The run goes on like another one from a machine that follows. -/
theorem Keeps.onward {c c' : Run α} {n' : Nat} {Q : Nat → α → Machine → Prop} (hrun : c m = c' m')
    (h : Proceeds L n m n' m') (h' : Keeps L n' m' c' Q) : Keeps L n m c Q := by
  unfold Keeps at h' ⊢
  rw [hrun]
  cases hc : c' m' with
  | ok a m1 =>
    rw [hc] at h'
    obtain ⟨n1, h1, hQ⟩ := h'
    exact ⟨n1, h.trans h1, hQ⟩
  | error e m1 =>
    rw [hc] at h'
    obtain ⟨n1, h1, he⟩ := h'
    exact ⟨n1, h.trans h1, he⟩

theorem Keeps.bind {c : Run α} {f : α → Run β} {Q : Nat → α → Machine → Prop}
    {R : Nat → β → Machine → Prop} (h : Keeps L n m c Q)
    (hf : ∀ n' a m', Proceeds L n m n' m' → Q n' a m' → Keeps L n' m' (f a) R) :
    Keeps L n m (c >>= f) R := by
  unfold Keeps at h
  cases hc : c m with
  | error e m1 =>
    rw [hc] at h
    unfold Keeps
    rw [bind_of_error hc]
    exact h
  | ok a m1 =>
    rw [hc] at h
    obtain ⟨n1, h1, hQ⟩ := h
    exact .onward (bind_of_ok hc) h1 (hf n1 a m1 h1 hQ)

theorem Keeps.imp {c : Run α} {Q R : Nat → α → Machine → Prop} (h : Keeps L n m c Q)
    (hQR : ∀ n' a m', Proceeds L n m n' m' → Q n' a m' → R n' a m') : Keeps L n m c R := by
  unfold Keeps at h ⊢
  cases hc : c m with
  | ok a m' =>
    rw [hc] at h
    obtain ⟨n', h', hQ⟩ := h
    exact ⟨n', h', hQR n' a m' h' hQ⟩
  | error e m' =>
    rw [hc] at h
    exact h

/-- First looks at the machine. Where steps do not fail, it sees something. -/
theorem Keeps.look {c : Run α} {f : α → Run β} {P : α → Prop} {R : Nat → β → Machine → Prop}
    (hm : Tidy L n m) (h : Looks m c P) (hok : L.unfailing → Sees m c)
    (hf : ∀ a, P a → Keeps L n m (f a) R) : Keeps L n m (c >>= f) R := by
  unfold Looks at h
  unfold Keeps
  cases hc : c m with
  | error e m' =>
    rw [hc] at h
    obtain ⟨rfl, he⟩ := h
    rw [bind_of_error hc]
    refine ⟨n, .refl hm, fun limit _ hlimit => ?_, fun hunfailing => ?_⟩
    · rw [hlimit] at he
      exact he
    · obtain ⟨a, ha⟩ := hok hunfailing
      cases hc.symm.trans ha
  | ok a m' =>
    rw [hc] at h
    obtain ⟨rfl, hP⟩ := h
    rw [bind_of_ok hc]
    exact hf a hP

/-- First sees something that is known. -/
theorem Keeps.read {c : Run α} {f : α → Run β} {a : α} {R : Nat → β → Machine → Prop}
    (hm : Tidy L n m) (hc : c m = .ok a m) (h : Keeps L n m (f a) R) : Keeps L n m (c >>= f) R :=
  .onward (bind_of_ok hc) (.refl hm) h

theorem Keeps.get {f : Machine → Run β} {R : Nat → β → Machine → Prop} (hm : Tidy L n m)
    (h : Keeps L n m (f m) R) : Keeps L n m (MonadState.get >>= f) R :=
  .read hm rfl h

theorem Keeps.goesOn {c : Run α} {Q : Nat → α → Machine → Prop} (h : Keeps L n m c Q) :
    GoesOn L n m c :=
  h.imp fun _ _ _ _ _ => trivial

/-- One run for each item of a list, all from machines that keep to the limits. -/
theorem Keeps.forM {items : List β} {f : β → Run PUnit} (hm : Tidy L n m)
    (hf : ∀ b ∈ items, ∀ n' m', Proceeds L n m n' m' →
      GoesOn L n' m' (f b)) :
    GoesOn L n m (items.forM f) := by
  induction items generalizing n m with
  | nil => exact .pure hm trivial
  | cons b rest ih =>
    refine (hf b List.mem_cons_self n m (.refl hm)).bind fun n1 _ m1 h1 _ => ?_
    exact ih h1.tidy fun b' hb' n' m' h' => hf b' (List.mem_cons_of_mem b hb') n' m' (h1.trans h')

/-! ### Writes -/

theorem write_run (st : Storage) (path : List String) (value : Nbt) (m : Machine) :
    write st path value m = match (m.storage st).setPath path value with
      | some tree => .ok () (m.withStorage st tree)
      | none => .error (.storage (".".intercalate path) .notCompound) m := by
  refine (bind_of_ok rfl).trans ?_
  cases (m.storage st).setPath path value <;> rfl

theorem append_run (st : Storage) (path : List String) (value : Nbt) (m : Machine) :
    append st path value m = match (m.storage st).appendPath path value with
      | some tree => .ok () (m.withStorage st tree)
      | none => .error (.storage (".".intercalate path) .notList) m := by
  refine (bind_of_ok rfl).trans ?_
  cases (m.storage st).appendPath path value <;> rfl

theorem write_ok {u : Unit} (h : write st path value m = .ok u m') :
    ∃ tree, (m.storage st).setPath path value = some tree ∧ m' = m.withStorage st tree := by
  rw [write_run] at h
  cases hset : (m.storage st).setPath path value with
  | none =>
    rw [hset] at h
    cases h
  | some tree =>
    rw [hset] at h
    cases h
    exact ⟨tree, rfl, rfl⟩

/-- A write that succeeds. -/
theorem write_keeps {Q : Nat → Unit → Machine → Prop} {tree : Nbt}
    (hset : (m.storage st).setPath path value = some tree)
    (h : Proceeds L n m n (m.withStorage st tree)) (hQ : Q n () (m.withStorage st tree)) :
    Keeps L n m (write st path value) Q := by
  unfold Keeps
  rw [write_run, hset]
  exact ⟨n, h, hQ⟩

section

variable (hm : Tidy L n m)

include hm

theorem setSlot_keeps (hfree : L.Free key) (hvalue : SlotTidy L n key value)
    (haddress : ∀ a d, L.spared = some a → L.uses.slot d = some .address → key = d.key →
      value ≠ .string a.key) :
    Keeps L n m (setSlot key value) fun _ _ m' =>
      m'.slots.get? key = some value ∧ m'.channels = m.channels := by
  obtain ⟨tree, hset, hproceeds, hget⟩ := hm.writeSlot [] rfl hfree hvalue haddress
  exact write_keeps hset hproceeds ⟨hget, rfl⟩

/-- A script value is no return address. -/
theorem setValue_keeps (hfree : L.Free key) (hvalue : SlotTidy L n key value)
    (hkey : ∀ d, L.uses.slot d = some .address → key ≠ d.key) : GoesOn L n m (setSlot key value) :=
  (setSlot_keeps hm hfree hvalue fun _ d _ hd h => absurd h (hkey d hd)).goesOn

/-- A write below a heap record. -/
theorem writeHeap_keeps (h : ∃ tree, m.heap.setPath path value = some tree ∧
      HeapGrown (L.contents n) (Issued n) m.heap tree) : GoesOn L n m (write .heap path value) := by
  obtain ⟨tree, hset, hgrown⟩ := h
  exact write_keeps hset (hm.writeHeap hgrown) trivial

theorem setElement_keeps (haddress : Issued n address) (property : String)
    (hvalue : value.Fair L n) : GoesOn L n m (setElement address property value) := by
  unfold setElement
  cases elementIndex? property with
  | none => exact .pure hm trivial
  | some index =>
    refine .get hm (writeHeap_keeps hm (hm.heap.setEntry haddress (.ofElements ?_)))
    exact putElement_holds (hm.heap.elements address) index hvalue

/-- One more function waits for a promise. -/
theorem addListener_keeps (haddress : Issued n address) (hlistener : listener.Callable L n) :
    GoesOn L n m (append .heap [address, "promise", "listeners"] listener) := by
  obtain ⟨tree, happend, hgrown⟩ := hm.heap.addListener haddress hlistener
  have happend' : (m.storage .heap).appendPath [address, "promise", "listeners"] listener =
      some tree := happend
  unfold GoesOn Keeps
  rw [append_run, happend']
  exact ⟨n, hm.writeHeap hgrown, trivial⟩

theorem setChannel_keeps (hentries : ∀ e ∈ entries, EntryTidy L n key e.1 e.2) :
    GoesOn L n m (write .channels [key] (.compound entries)) := by
  obtain ⟨tree, hset, hproceeds⟩ := hm.writeChannel hentries
  exact write_keeps hset hproceeds trivial

theorem setEntry_keeps {name : String} (hvalue : EntryTidy L n key name value) :
    GoesOn L n m (write .channels [key, name] value) := by
  obtain ⟨tree, hset, hproceeds⟩ := hm.writeEntry hvalue
  exact write_keeps hset hproceeds trivial

/-- A channel that passes values only. -/
theorem setFrame_keeps {result : Option String} (hpasses : L.uses.Passes key result)
    (hentries : ∀ e ∈ entries, e.2.Fair L n ∧ e.1 ≠ "return") :
    GoesOn L n m (write .channels [key] (.compound (frame key ++ entries))) := by
  refine setChannel_keeps hm fun e he => ?_
  rcases List.mem_append.1 he with he | he
  · exact frame_tidy key e he
  · obtain ⟨hvalue, hname⟩ := hentries e he
    exact .ofPassed hpasses (fun _ => hvalue) fun h => absurd h hname

/-! ### New records -/

/-- The key of the next record. -/
theorem Tidy.issued_next : Issued (n + 1) (Record.mk m.nextRecord.toNat).key := by
  refine ⟨⟨m.nextRecord.toNat⟩, ?_, rfl⟩
  rw [hm.next, UInt32.toNat_ofNat']
  exact Nat.lt_succ_of_le (Nat.mod_le _ _)

/-- A new record is written right after it was handed out. -/
theorem Keeps.allocate {record : Nbt} {f : String → Run β} {R : Nat → β → Machine → Prop}
    (hrecord : RecordHolds (L.contents n) record)
    (hf : ∀ address n' m', Proceeds L n m n' m' → Issued n' address → Keeps L n' m' (f address) R) :
    Keeps L n m (freshRecord >>= fun address => write .heap [address] record >>= fun _ => f address)
      R := by
  have hle : n ≤ n + 1 := Nat.le_succ n
  have hissued : Issued (n + 1) (Record.mk m.nextRecord.toNat).key := Tidy.issued_next hm
  have hgrown : HeapHolds (L.contents (n + 1)) (Issued (n + 1)) m.heap :=
    hm.heap.mono fun _ _ h => ⟨h.1.mono hle, h.2.issue hle⟩
  -- the heap is a compound, so the write succeeds
  obtain ⟨tree, hset, hheap, hget⟩ := Nbt.Entries.setEntry hgrown ⟨hissued, hrecord.issue hle⟩
  have htidy : Tidy L (n + 1) { m with nextRecord := m.nextRecord + 1, heap := tree } :=
    { program := hm.program
      ns := hm.ns
      slots := hm.slots.mono fun _ _ h => h.mono hle
      channels := hm.channels.mono fun _ _ h => h.mono fun _ _ h => h.mono hle
      heap := hheap
      scheduled := fun t ht => (hm.scheduled t ht).mono hle
      maxDepth := hm.maxDepth
      next := by
        show m.nextRecord + 1 = .ofNat (n + 1)
        rw [hm.next, UInt32.ofNat_add]
        rfl
      base := Nat.le_succ_of_le hm.base
      handed := fun r hr hr' hr'' => by
        show (tree.get? r.key).isSome = true
        rw [hget]
        split
        · rfl
        · next hother =>
          refine hm.handed r hr ?_ hr''
          refine Nat.lt_of_le_of_ne (Nat.le_of_lt_succ hr') fun hlast => hother ?_
          have hnext : m.nextRecord.toNat = r.index := by
            rw [hm.next, UInt32.toNat_ofNat', ← hlast]
            exact Nat.mod_eq_of_lt hr''
          rw [hnext]
      complete := hm.complete }
  have hwrite : write .heap [(Record.mk m.nextRecord.toNat).key] record
      { m with nextRecord := m.nextRecord + 1 } =
      .ok () { m with nextRecord := m.nextRecord + 1, heap := tree } := by
    have hset' : (Machine.storage { m with nextRecord := m.nextRecord + 1 } .heap).setPath
        [(Record.mk m.nextRecord.toNat).key] record = some tree := hset
    rw [write_run, hset']
    rfl
  have hrest := hf _ _ _ (.ofSlots hle htidy rfl) hissued
  exact .onward ((bind_of_ok rfl).trans (bind_of_ok hwrite)) (.ofSlots hle htidy rfl) hrest

end

end Run

/-! ### Arguments -/

/-- The arguments of a routine are what its channel is for. Where steps do not fail, all of them are
    there. -/
structure ArgsTidy (L : Limits) (r : Routine) (target : Option Slot) (a : Args) : Prop where
  uses : ∀ name v, a.entries.get? name = some v → L.uses.ArgHolds target (r.argUse name) v
  found : L.unfailing → r.Finds a

/-- The result may be written. -/
def Limits.Target (L : Limits) (target : Option Slot) : Prop :=
  ∀ s, target = some s → (∃ root, L.uses.slot s = some (.result root) ∨
    L.uses.slot s = some (.promise root)) ∧ L.Free s.key

/-- The unit is called as a function. -/
def Uses.IsCalled (G : Uses) (name : String) : Prop :=
  ∃ u, G.unit name = some u ∧ u.isPart = false ∧ u.home = none

/-- Functions may be called with the channel: it passes values, and the result may be written. -/
def Limits.Opens (L : Limits) (key : String) : Prop :=
  ∃ result, L.uses.Passes key result ∧ ∀ t, result = some t → L.uses.Returns t ∧ L.Free t

theorem Limits.Opens.passes {L : Limits} (h : L.Opens key) :
    ∃ result, L.uses.Passes key result := by
  obtain ⟨result, hpasses, _⟩ := h
  exact ⟨result, hpasses⟩

/-- Calls of functions keep to the limits. -/
def Executor.Keeps (L : Limits) (call : Executor) : Prop :=
  ∀ name key n m, Tidy L n m → L.Opens key → L.uses.IsCalled name →
    Run.Keeps L n m (call name (some key)) fun _ _ _ => True

section

variable {L : Limits} {r : Routine} {target : Option Slot} {a : Args} {key t : String}

variable (ha : ArgsTidy L r target a)
include ha

theorem ArgsTidy.holds (ht : a.text? key = some t) :
    L.uses.ArgHolds target (r.argUse key) (.string t) := by
  obtain ⟨v, hv, htext⟩ := Option.bind_eq_some_iff.1 ht
  cases v with
  | string t' =>
    cases htext
    exact ha.uses _ _ hv
  | _ => cases htext

theorem ArgsTidy.gives {α : Type} {c : Run α} {m : Machine}
    (h : r.Finds a → Run.Sees m c) (hunfailing : L.unfailing) : Run.Sees m c :=
  h (ha.found hunfailing)

theorem ArgsTidy.reads (huse : r.argUse key = .reads)
    (ht : a.text? key = some t) : ∃ s, L.uses.IsValue s ∧ t = s.key := by
  have hholds := ha.holds ht
  rw [huse] at hholds
  obtain ⟨s, hs, hkey⟩ := hholds
  exact ⟨s, hs, Nbt.string.inj hkey⟩

theorem ArgsTidy.waits (ht : a.text? "listener" = some t) :
    ∃ s, (L.uses.IsValue s ∨ L.uses.slot s = some .listener) ∧ t = s.key := by
  have huse : r.argUse "listener" = .waits := by
    cases r <;> decide
  have hholds := ha.holds ht
  rw [huse] at hholds
  obtain ⟨s, hs, hkey⟩ := hholds
  exact ⟨s, hs, Nbt.string.inj hkey⟩

/-- The channel that a routine calls functions with. -/
theorem ArgsTidy.opens (htarget : L.Target target) (ht : a.text? "channel" = some t) :
    L.Opens t := by
  have huse : r.argUse "channel" = .calls := by
    cases r <;> decide
  have hholds := ha.holds ht
  rw [huse] at hholds
  obtain ⟨c, hc, hkey⟩ := hholds
  obtain rfl := Nbt.string.inj hkey
  rcases hc with ⟨s, root, hs, hresult, hc⟩ | hc
  · refine ⟨_, .call hc, fun t ht => ?_⟩
    cases ht
    exact ⟨.inr (.inr ⟨s, root, hresult, rfl⟩), (htarget s hs).2⟩
  · exact ⟨_, .filled hc, nofun⟩

end

namespace Run

variable {β : Type} {L : Limits} {n : Nat} {m : Machine} {r : Routine} {target : Option Slot}
  {a : Args} {key : String} {R : Nat → β → Machine → Prop}

/-- First reads the slot of an argument. -/
theorem Keeps.slotArgument {f : Nbt → Run β} (hm : Tidy L n m) (ha : ArgsTidy L r target a)
    (huse : r.argUse key = .reads ∧ r.Needs key) (hf : ∀ v, v.Fair L n → Keeps L n m (f v) R) :
    Keeps L n m (slotArgument a key >>= f) R := by
  refine .look hm slotArgument_looks (ha.gives (·.slot huse.2)) ?_
  rintro _ ⟨t, ht, rfl⟩
  obtain ⟨s, hs, rfl⟩ := ha.reads huse.1 ht
  exact hf _ (hm.slot_fair hs)

/-- First reads the value of an argument. -/
theorem Keeps.valueArgument {f : Value → Run β} (hm : Tidy L n m) (ha : ArgsTidy L r target a)
    (huse : r.argUse key = .reads ∧ r.Needs key)
    (hf : ∀ v : Value, (∀ kind address, v = .reference kind address → Issued n address) →
      Keeps L n m (f v) R) :
    Keeps L n m (valueArgument a key >>= f) R := by
  refine .look hm valueArgument_looks (ha.gives (·.value huse.2)) ?_
  rintro _ ⟨t, ht, rfl⟩
  obtain ⟨s, hs, rfl⟩ := ha.reads huse.1 ht
  exact hf _ (hm.slot_fair hs).refers

theorem Keeps.normally {c : Run Unit} (h : GoesOn L n m c) :
    GoesOn L n m (normally c) :=
  h.bind fun _ _ _ h' _ => .pure h'.tidy trivial

/-- A result is written to the slot for it. -/
theorem answer_keeps (hm : Tidy L n m) (ha : ArgsTidy L r target a) (htarget : L.Target target)
    (hr : r.Needs "result") (hvalue : value.Fair L n) : GoesOn L n m (answer a value) := by
  refine .look hm argument_looks (ha.gives (·.argument hr)) fun t ht => ?_
  have huse : r.argUse "result" = .writes := by
    cases r <;> decide
  have hholds := ha.holds ht
  rw [huse] at hholds
  obtain ⟨s, hs, hkey⟩ := hholds
  obtain rfl := Nbt.string.inj hkey
  obtain ⟨⟨root, hroot⟩, hfree⟩ := htarget s hs
  have hslot : ∀ {use}, L.uses.slot s = some use → use.Holds L n s value → use ≠ .address →
      GoesOn L n m (setSlot s.key value) := by
    intro use hs hholds huse
    refine setValue_keeps hm hfree (hholds.slotTidy hs) fun d hd hkey => ?_
    obtain rfl := Slot.key_injective hkey
    exact huse (Option.some.inj (hs.symm.trans hd))
  rcases hroot with hroot | hroot
  · exact hslot hroot hvalue nofun
  · exact hslot hroot hvalue nofun

/-! ### Operators and members -/

section

variable (hm : Tidy L n m) (ha : ArgsTidy L r target a) (htarget : L.Target target)

include hm ha htarget

theorem binaryRoutine_keeps (hr : r.Needs "left" ∧ r.Needs "right" ∧ r.Needs "result")
    (f : Scalar → Scalar → Scalar) : GoesOn L n m (binaryRoutine a f) := by
  refine .look hm valueArgument_looks (ha.gives (·.value hr.1)) fun left _ => ?_
  refine .look hm valueArgument_looks (ha.gives (·.value hr.2.1)) fun right _ => ?_
  exact .get hm (answer_keeps hm ha htarget hr.2.2 (Scalar.fair _ _ _))

theorem operatorRoutine_keeps (hr : r.Needs "left" ∧ r.Needs "right" ∧ r.Needs "result")
    (hoperator : ("operation", .operator) ∈ r.args) : GoesOn L n m (operatorRoutine a) :=
  .look hm operatorArgument_looks (ha.gives (·.operator hoperator)) fun _ _ =>
    binaryRoutine_keeps hm ha htarget hr _

theorem equalsRoutine_keeps (hr : r = .equals) : GoesOn L n m (equalsRoutine a) := by
  subst hr
  refine .look hm operatorArgument_looks (ha.gives (·.operator (by decide))) fun op _ => ?_
  refine .look hm valueArgument_looks (ha.gives (·.value (by decide))) fun left _ => ?_
  refine .look hm valueArgument_looks (ha.gives (·.value (by decide))) fun right _ => ?_
  exact .get hm (answer_keeps hm ha htarget (by decide) (Scalar.fair _ _ _))

theorem toNumberRoutine_keeps (hr : r = .toNumber) : GoesOn L n m (toNumberRoutine a) := by
  subst hr
  refine .look hm scalarArgument_looks (ha.gives (·.scalar (by decide))) fun _ _ => ?_
  exact answer_keeps hm ha htarget (by decide) (Scalar.fair _ _ _)

theorem getMemberRoutine_keeps (hr : r = .getMember) : GoesOn L n m (getMemberRoutine a) := by
  subst hr
  refine .look hm valueArgument_looks (ha.gives (·.value (by decide))) fun object _ => ?_
  refine .look hm argument_looks (ha.gives (·.argument (by decide))) fun property _ => ?_
  exact .get hm (answer_keeps hm ha htarget (by decide) (hm.heap.member object property))

theorem computedMemberRoutine_keeps (hr : r = .computedMember) :
    GoesOn L n m (computedMemberRoutine a) := by
  subst hr
  refine .look hm valueArgument_looks (ha.gives (·.value (by decide))) fun object _ => ?_
  refine .look hm scalarArgument_looks (ha.gives (·.scalar (by decide))) fun property _ => ?_
  exact .get hm (answer_keeps hm ha htarget (by decide) (hm.heap.member object property.toText))

theorem prototypeMemberRoutine_keeps (hr : r = .prototypeMember) :
    GoesOn L n m (prototypeMemberRoutine a) := by
  subst hr
  unfold prototypeMemberRoutine
  cases a.text? "prototype" with
  | none => exact answer_keeps hm ha htarget (by decide) (Nbt.fair_undefined _ _)
  | some prototype =>
    refine .look hm argument_looks (ha.gives (·.argument (by decide))) fun property _ => .get hm ?_
    exact answer_keeps hm ha htarget (by decide) (hm.heap.lookupWithin property maxChain prototype)

/-! ### Records -/

theorem allocateRoutine_keeps (hr : r = .allocate) : GoesOn L n m (allocateRoutine a) := by
  subst hr
  refine .allocate hm (newRecord_holds _ _) fun address n' m' h' hissued => ?_
  have hkind : (((a.text? "kind").bind Kind.ofTag?).getD .object).isReference = true := by
    cases ht : a.text? "kind" with
    | none => rfl
    | some t =>
      obtain ⟨kind, hkind, htag⟩ := ha.holds ht
      obtain rfl := Nbt.string.inj htag
      have htag : Kind.ofTag? kind.tag = some kind := by
        cases kind <;> decide
      simpa [htag] using hkind
  exact answer_keeps h'.tidy ha htarget (by decide) ⟨Nbt.wellFormed_reference hkind address,
    Nbt.refers_slot _ _ hissued, Nbt.calls_slot _ _ nofun⟩

theorem bindFunctionRoutine_keeps (hr : r = .bindFunction) :
    GoesOn L n m (bindFunctionRoutine a) := by
  subst hr
  refine .slotArgument hm ha (by decide) fun callee hcallee => ?_
  refine .slotArgument hm ha (by decide) fun that hthat => ?_
  refine .allocate hm (boundRecord_holds hthat) fun address n' m' h' hissued => ?_
  exact answer_keeps h'.tidy ha htarget (by decide) ⟨Nbt.wellFormed_function address _,
    Nbt.refers_slot _ _ hissued, Nbt.calls_slot _ _ hcallee.calls⟩

omit htarget

theorem setMemberRoutine_keeps (hr : r = .setMember) :
    GoesOn L n m (setMemberRoutine a) := by
  subst hr
  refine .valueArgument hm ha (by decide) fun object hobject => ?_
  refine .look hm writtenProperty_looks (ha.gives (·.property rfl)) fun property _ => ?_
  refine .slotArgument hm ha (by decide) fun value hvalue => ?_
  split
  · exact setElement_keeps hm (hobject _ _ rfl) property hvalue
  · split
    · exact writeHeap_keeps hm (hm.heap.setProperty (hobject _ _ rfl) hvalue)
    · exact .pure hm trivial
  · exact .pure hm trivial

theorem setClassPrototypeRoutine_keeps (hr : r = .setClassPrototype) :
    GoesOn L n m (setClassPrototypeRoutine a) := by
  subst hr
  refine .look hm argument_looks (ha.gives (·.argument (by decide))) fun prototype hprototype => ?_
  obtain ⟨record, hrecord, hkey⟩ := ha.holds hprototype
  obtain rfl := Nbt.string.inj hkey
  have hissued : Issued n record.key := ⟨record, Nat.lt_of_lt_of_le hrecord hm.base, rfl⟩
  refine .look hm valueArgument_looks (ha.gives (·.value (by decide))) fun parent _ => ?_
  split
  · exact .pure hm trivial
  · refine .get hm ?_
    dsimp only
    split
    · exact writeHeap_keeps hm (hm.heap.setEntry hissued (.ofPrototype _))
    · exact .pure hm trivial

end

/-! ### Functions -/

section

variable {call : Executor} (hm : Tidy L n m) (hcall : call.Keeps L)

include hm hcall

/-- A function value is called with a channel that passes values. -/
theorem invokeFunction_keeps {callee : Nbt} (hcallee : callee.Callable L n) (hopens : L.Opens key) :
    GoesOn L n m (invokeFunction call callee key) := by
  unfold invokeFunction
  cases hid : ((callee.get? "function").bind Nbt.text?).filter (!·.isEmpty) with
  | none => exact .pure hm trivial
  | some id =>
    obtain ⟨name, u, rfl, hu, hbody⟩ := hcallee.calls id (Option.filter_eq_some_iff.1 hid).1
    have hcalled : L.uses.IsCalled name := ⟨u, hu, hbody.part, hbody.home⟩
    refine .read hm (hm.unitOf_run name) ?_
    refine .look hm boundThis_looks (fun _ => boundThis_sees callee) fun bound hbound => ?_
    cases bound with
    | none => exact hcall name key n m hm hopens hcalled
    | some v =>
      obtain ⟨address, hv⟩ := hbound v rfl
      obtain ⟨result, hpasses⟩ := hopens.passes
      have hentry : EntryTidy L n key "this" v :=
        .ofPassed hpasses (fun _ => hm.heap.bound hv) (by simp)
      refine (setEntry_keeps hm hentry).bind fun n1 _ m1 h1 _ => ?_
      exact hcall name key n1 m1 h1.tidy hopens hcalled

theorem callListener_keeps (hvalue : value.Fair L n) (hlistener : listener.Callable L n)
    (hopens : L.Opens key) :
    GoesOn L n m (callListener call key value listener) := by
  obtain ⟨result, hpasses⟩ := hopens.passes
  refine (setFrame_keeps hm hpasses ?_).bind fun n1 _ m1 h1 _ => ?_
  · intro e he
    rw [List.mem_singleton.1 he]
    exact ⟨hvalue, by simp⟩
  · refine (invokeFunction_keeps h1.tidy hcall (hlistener.mono h1.le) hopens).bind
      fun n2 _ m2 h2 _ => ?_
    exact .pure h2.tidy trivial

omit hcall

/-- A loop over the elements of an array, whose unit keeps to the limits each time. -/
theorem eachElement_keeps {unit : String} (hpasses : ∃ result, L.uses.Passes key result)
    (hunit : ∀ n' m', Proceeds L n m n' m' → GoesOn L n' m' (call unit (some key)))
    (rounds index : Nat) :
    GoesOn L n m (eachElement call address unit key rounds index) := by
  induction rounds generalizing n m index with
  | zero => exact .throw hm ⟨nofun, fun _ => id⟩
  | succ rounds ih =>
    refine .get hm ?_
    cases helement : (m.elements address)[index]? with
    | none => exact .pure hm trivial
    | some element =>
      obtain ⟨result, hpasses⟩ := hpasses
      have hvalue := hm.heap.elements address element (List.mem_of_getElem? helement)
      refine (setFrame_keeps hm hpasses ?_).bind fun n1 _ m1 h1 _ => ?_
      · intro e he
        simp only [List.mem_cons, List.not_mem_nil, or_false] at he
        rcases he with rfl | rfl
        · exact ⟨hvalue, by simp⟩
        · exact ⟨Scalar.fair _ _ _, by simp⟩
      · refine (hunit n1 m1 h1).bind fun n2 code m2 h2 _ => ?_
        split
        · exact .pure h2.tidy trivial
        · split
          · exact .pure h2.tidy trivial
          · exact ih h2.tidy (fun n' m' h' => hunit n' m' ((h1.trans h2).trans h')) (index + 1)

variable (ha : ArgsTidy L r target a) (htarget : L.Target target)

include ha

theorem runRoutine_keeps (hr : r = .run) : GoesOn L n m (runRoutine a) := by
  subst hr
  refine .look hm scalarArgument_looks (ha.gives (·.scalar (by decide))) fun _ _ => ?_
  exact ⟨n, .ofSlots (Nat.le_refl n) { hm with } rfl, trivial⟩

theorem initPromiseRoutine_keeps (hr : r = .initPromise) :
    GoesOn L n m (initPromiseRoutine a) := by
  subst hr
  refine .valueArgument hm ha (by decide) fun promise hpromise => ?_
  split
  · exact writeHeap_keeps hm
      (hm.heap.setEntry (hpromise _ _ rfl) (.ofPromise pendingPromise_holds))
  · exact .pure hm trivial

theorem scheduleRoutine_keeps (hr : r = .schedule) :
    GoesOn L n m (scheduleRoutine a) := by
  subst hr
  refine .slotArgument hm ha (by decide) fun function hfunction => ?_
  refine .look hm scalarArgument_looks (ha.gives (·.scalar (by decide))) fun ticks _ => ?_
  cases hid : (function.get? "function").bind Nbt.text? with
  | none => exact .pure hm trivial
  | some id =>
    obtain ⟨name, _, rfl, _⟩ := hfunction.calls id hid
    refine .read hm (hm.unitOf_run name) (.get hm ?_)
    refine ⟨n, .ofSlots (Nat.le_refl n) { hm with scheduled := fun t ht => ?_ } rfl, trivial⟩
    rcases List.mem_append.1 ht with hold | hnew
    · exact hm.scheduled t hold
    · rw [List.mem_singleton.1 hnew]
      exact hfunction.callable

include hcall htarget

theorem callFunctionRoutine_keeps (hr : r = .callFunction) :
    GoesOn L n m (callFunctionRoutine call a) := by
  subst hr
  refine .slotArgument hm ha (by decide) fun callee hcallee => ?_
  refine .look hm argument_looks (ha.gives (·.argument (by decide))) fun channel hchannel => ?_
  exact invokeFunction_keeps hm hcall hcallee.callable (ha.opens htarget hchannel)

theorem resolvePromiseRoutine_keeps (hr : r = .resolvePromise) :
    GoesOn L n m (resolvePromiseRoutine call a) := by
  subst hr
  refine .valueArgument hm ha (by decide) fun promise hpromise => ?_
  split
  · exact .pure hm trivial
  · next address =>
    refine .look hm promise?_looks (fun _ => ⟨_, rfl⟩) fun state hstate => ?_
    dsimp only
    split
    · have hholds : PromiseHolds (L.contents n) (state.getD pendingPromise) := by
        cases state with
        | none => exact pendingPromise_holds
        | some state => exact hm.heap.promise hstate.symm
      refine .slotArgument hm ha (by decide) fun value hvalue => ?_
      have hresolved : PromiseHolds (L.contents n) (promiseState [] true value) :=
        promiseState_holds true nofun hvalue
      refine (writeHeap_keeps hm (hm.heap.setEntry (hpromise _ _ rfl) (.ofPromise hresolved))).bind
        fun n1 _ m1 h1 _ => ?_
      refine .look h1.tidy argument_looks (ha.gives (·.argument (by decide)))
        fun channel hchannel => ?_
      refine .forM h1.tidy fun listener hlistener n2 m2 h2 => ?_
      have hle := Nat.le_trans h1.le h2.le
      exact callListener_keeps h2.tidy hcall (hvalue.mono hle)
        ((hholds.listeners listener hlistener).mono hle) (ha.opens htarget hchannel)
    · exact .pure hm trivial

theorem awaitPromiseRoutine_keeps (hr : r = .awaitPromise) :
    GoesOn L n m (awaitPromiseRoutine call a) := by
  subst hr
  refine .slotArgument hm ha (by decide) fun awaited hawaited => ?_
  refine .look hm slotArgument_looks (ha.gives (·.slot (by decide))) ?_
  rintro _ ⟨t, ht, rfl⟩
  obtain ⟨s, hs, rfl⟩ := ha.waits ht
  have hlistener := hm.slot_callable hs
  refine .look hm argument_looks (ha.gives (·.argument (by decide))) fun channel hchannel => ?_
  have hopens := ha.opens htarget hchannel
  refine .look hm awaitedPromise_looks (fun _ => awaitedPromise_sees awaited) fun found hfound => ?_
  cases found with
  | none => exact callListener_keeps hm hcall hawaited hlistener hopens
  | some pair =>
    obtain ⟨address, state⟩ := pair
    obtain ⟨hvalue, hstate⟩ := hfound _ _ rfl
    dsimp only
    split
    · exact callListener_keeps hm hcall (hm.heap.promise hstate).value hlistener hopens
    · exact addListener_keeps hm (hawaited.refers _ _ hvalue) hlistener

/-- A routine keeps to the limits if calls of functions do. Two routines are called with channels of
    their own, see `Run.setVariable_keeps` and `Run.each_keeps`. -/
theorem routine_keeps (hr : r ≠ .setVariable ∧ r ≠ .loopArray) :
    GoesOn L n m (routine call a r) := by
  cases r with
  | add | subtract | singleQuoteConcat =>
    exact .normally (binaryRoutine_keeps hm ha htarget (by decide) _)
  | mathOperation | numberCompare =>
    exact .normally (operatorRoutine_keeps hm ha htarget (by decide) (by decide))
  | equals => exact .normally (equalsRoutine_keeps hm ha htarget rfl)
  | toNumber => exact .normally (toNumberRoutine_keeps hm ha htarget rfl)
  | getMember => exact .normally (getMemberRoutine_keeps hm ha htarget rfl)
  | computedMember => exact .normally (computedMemberRoutine_keeps hm ha htarget rfl)
  | prototypeMember => exact .normally (prototypeMemberRoutine_keeps hm ha htarget rfl)
  | setMember => exact .normally (setMemberRoutine_keeps hm ha rfl)
  | allocate => exact .normally (allocateRoutine_keeps hm ha htarget rfl)
  | setClassPrototype => exact .normally (setClassPrototypeRoutine_keeps hm ha rfl)
  | loopArray => exact absurd rfl hr.2
  | callFunction => exact callFunctionRoutine_keeps hm hcall ha htarget rfl
  | bindFunction => exact .normally (bindFunctionRoutine_keeps hm ha htarget rfl)
  | setVariable => exact absurd rfl hr.1
  | initPromise => exact .normally (initPromiseRoutine_keeps hm ha rfl)
  | resolvePromise => exact .normally (resolvePromiseRoutine_keeps hm hcall ha htarget rfl)
  | awaitPromise => exact .normally (awaitPromiseRoutine_keeps hm hcall ha htarget rfl)
  | run => exact .normally (runRoutine_keeps hm ha rfl)
  | schedule => exact .normally (scheduleRoutine_keeps hm ha rfl)

end

end Run

end PackScript
