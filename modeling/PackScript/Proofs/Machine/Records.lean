import PackScript.Machine.Library
import PackScript.Proofs.Machine.Tree

namespace PackScript

/-!
# What heap records hold

The properties of an object, the elements of an array, the `this` of a function and the value of a
promise are script values, and functions wait for promises. What counts as such a value is left
open.

* `Contents` — what values are, and what may wait for a promise.
* `RecordHolds`, `HeapHolds` — a record and a heap hold such contents, in entries of the right
  shape.
* `HeapHolds.member`, `HeapHolds.bound`, `HeapHolds.promise` — so what is read from the heap is a
  value.
* `HeapHolds.setEntry`, `HeapHolds.setProperty`, `HeapHolds.addListener` — and writes of such
  contents succeed.
-/

/-- What is held in a heap. -/
structure Contents where
  /-- The script values -/
  value : Nbt → Prop
  /-- What may wait for a promise -/
  listener : Nbt → Prop
  scalar : ∀ a : Scalar, value a.slot

/-! ### Entries -/

/-- What may be in an entry of the state of a promise. -/
structure PromiseEntry (H : Contents) (name : String) (w : Nbt) : Prop where
  listeners : name = "listeners" → ∃ items, w = .list items ∧ ∀ v ∈ items, H.listener v
  value : name = "value" → H.value w

/-- The state of a promise. -/
def PromiseHolds (H : Contents) (state : Nbt) : Prop :=
  state.Entries (PromiseEntry H)

/-- What may be in an entry of a heap record. -/
structure RecordEntry (H : Contents) (name : String) (w : Nbt) : Prop where
  props : name = "props" → w.Entries fun _ v => H.value v
  elements : name = "elements" → ∀ items, w = .list items → ∀ v ∈ items, H.value v
  bound : name = "bound" → H.value w
  promise : name = "promise" → PromiseHolds H w

/-- What may be in a heap record. -/
def RecordHolds (H : Contents) (r : Nbt) : Prop :=
  r.Entries (RecordEntry H)

section

variable {H H' : Contents} {w state v : Nbt} {items : List Nbt}

theorem Contents.undefined (H : Contents) : H.value .undefinedSlot :=
  H.scalar .undefined

namespace PromiseEntry

theorem ofListeners (h : ∀ v ∈ items, H.listener v) : PromiseEntry H "listeners" (.list items) :=
  ⟨fun _ => ⟨items, rfl, h⟩, by simp⟩

theorem mono {name : String} (h : PromiseEntry H name w) (hvalue : ∀ v, H.value v → H'.value v)
    (hlistener : ∀ v, H.listener v → H'.listener v) : PromiseEntry H' name w where
  listeners hname := by
    obtain ⟨items, hitems, hall⟩ := h.listeners hname
    exact ⟨items, hitems, fun v hv => hlistener v (hall v hv)⟩
  value hname := hvalue w (h.value hname)

end PromiseEntry

namespace RecordEntry

theorem ofProps (h : w.Entries fun _ v => H.value v) : RecordEntry H "props" w :=
  ⟨fun _ => h, by simp, by simp, by simp⟩

theorem ofElements (h : ∀ v ∈ items, H.value v) : RecordEntry H "elements" (.list items) :=
  ⟨by simp, by simpa using h, by simp, by simp⟩

theorem ofBound (h : H.value w) : RecordEntry H "bound" w :=
  ⟨by simp, by simp, fun _ => h, by simp⟩

theorem ofPromise (h : PromiseHolds H w) : RecordEntry H "promise" w :=
  ⟨by simp, by simp, by simp, fun _ => h⟩

theorem ofPrototype (w : Nbt) : RecordEntry H "prototype" w :=
  ⟨by simp, by simp, by simp, by simp⟩

end RecordEntry

theorem RecordHolds.mono {r : Nbt} (h : RecordHolds H r) (hvalue : ∀ v, H.value v → H'.value v)
    (hlistener : ∀ v, H.listener v → H'.listener v) : RecordHolds H' r :=
  Nbt.Entries.mono h fun _ w hw =>
    { props := fun hname => (hw.props hname).mono fun _ v => hvalue v
      elements := fun hname items hitems v hv => hvalue v (hw.elements hname items hitems v hv)
      bound := fun hname => hvalue w (hw.bound hname)
      promise := fun hname => (hw.promise hname).mono fun _ _ h => h.mono hvalue hlistener }

/-! ### What routines make -/

theorem newRecord_holds (kind : Kind) (prototype : Option String) :
    RecordHolds H (Run.newRecord kind prototype) := by
  unfold Run.newRecord
  split
  · refine Nbt.entries_compound fun e he => ?_
    simp only [List.mem_cons, List.not_mem_nil, or_false] at he
    rcases he with rfl | rfl
    · exact ⟨by simp, by simp, by simp, by simp⟩
    · exact .ofElements nofun
  · refine Nbt.entries_compound fun e he => ?_
    rcases List.mem_append.1 he with he | he
    · rw [List.mem_singleton.1 he]
      exact .ofProps (Nbt.entries_empty _)
    · obtain ⟨t, _, rfl⟩ := List.mem_map.1 he
      exact .ofPrototype _

/-- The record of a function that was bound. -/
theorem boundRecord_holds (h : H.value v) :
    RecordHolds H (.compound [("props", .empty), ("bound", v)]) := by
  refine Nbt.entries_compound fun e he => ?_
  simp only [List.mem_cons, List.not_mem_nil, or_false] at he
  rcases he with rfl | rfl
  · exact .ofProps (Nbt.entries_empty _)
  · exact .ofBound h

theorem promiseState_holds {listeners : List Nbt} (resolved : Bool)
    (hlisteners : ∀ v ∈ listeners, H.listener v) (hvalue : H.value v) :
    PromiseHolds H (promiseState listeners resolved v) := by
  refine Nbt.entries_compound fun e he => ?_
  simp only [List.mem_cons, List.not_mem_nil, or_false] at he
  rcases he with rfl | rfl | rfl
  · exact .ofListeners hlisteners
  · exact ⟨by simp, by simp⟩
  · exact ⟨by simp, fun _ => hvalue⟩

theorem pendingPromise_holds : PromiseHolds H pendingPromise :=
  promiseState_holds false nofun H.undefined

/-- The value of a promise, whether it is there or not. -/
theorem PromiseHolds.value (h : PromiseHolds H state) :
    H.value ((state.get? "value").getD .undefinedSlot) := by
  cases hget : state.get? "value" with
  | none => exact H.undefined
  | some w => exact (h.2 _ _ hget).value rfl

/-- Those who wait for a promise. -/
theorem PromiseHolds.listeners (h : PromiseHolds H state) :
    ∀ v ∈ ((state.get? "listeners").bind Nbt.items?).getD [], H.listener v := by
  cases hget : state.get? "listeners" with
  | none => exact nofun
  | some w =>
    obtain ⟨items, rfl, hitems⟩ := (h.2 _ _ hget).listeners rfl
    exact hitems

theorem listMember_holds (h : ∀ v ∈ items, H.value v) (property : String) :
    H.value (Machine.listMember items property) := by
  unfold Machine.listMember
  split
  · exact H.scalar _
  · cases hitem : (elementIndex? property).bind fun i => items[i]? with
    | none => exact H.undefined
    | some w =>
      obtain ⟨i, _, hi⟩ := Option.bind_eq_some_iff.1 hitem
      exact h w (List.mem_of_getElem? hi)

theorem putElement_holds (h : ∀ w ∈ items, H.value w) (index : Nat) (hv : H.value v) :
    ∀ w ∈ putElement items index v, H.value w := by
  unfold putElement
  intro w hw
  split at hw
  · rcases List.mem_or_eq_of_mem_set hw with hold | rfl
    · exact h w hold
    · exact hv
  · split at hw
    · simp only [List.mem_append, List.mem_replicate, List.mem_singleton] at hw
      rcases hw with (hold | ⟨_, rfl⟩) | rfl
      · exact h w hold
      · exact H.undefined
      · exact hv
    · cases hw

end

/-! ### Heaps -/

/-- The records of a heap, at addresses that are known. -/
def HeapHolds (H : Contents) (known : String → Prop) (heap : Nbt) : Prop :=
  heap.Entries fun address r => known address ∧ RecordHolds H r

/-- A heap that still has all records of another one. -/
structure HeapGrown (H : Contents) (known : String → Prop) (heap tree : Nbt) : Prop where
  holds : HeapHolds H known tree
  records : ∀ address, (heap.get? address).isSome = true → (tree.get? address).isSome = true

namespace HeapHolds

variable {H : Contents} {known : String → Prop} {m : Machine} {address name : String} {v : Nbt}
  (h : HeapHolds H known m.heap)

include h

theorem record {r : Nbt} (hr : m.record? address = some r) : RecordHolds H r :=
  (h.2 _ _ hr).2

theorem elements (address : String) : ∀ v ∈ m.elements address, H.value v := by
  unfold Machine.elements
  cases hr : m.record? address with
  | none => exact nofun
  | some r =>
    cases helements : r.get? "elements" with
    | none => simp [helements]
    | some w =>
      have hentry := (h.record hr).2 _ _ helements
      cases w with
      | list items => simpa [helements, Nbt.items?] using hentry.elements rfl items rfl
      | _ => simp [helements, Nbt.items?]

/-- A property is a value, however many prototypes are followed. -/
theorem lookupWithin (property : String) (levels : Nat) (address : String) :
    H.value (m.lookupWithin property levels address) := by
  induction levels generalizing address with
  | zero => exact H.undefined
  | succ levels ih =>
    rw [Machine.lookupWithin]
    cases hr : m.record? address with
    | none => exact H.undefined
    | some r =>
      simp only [Nbt.getPath_pair]
      cases hfound : (r.get? "props").bind (·.get? property) with
      | some found =>
        obtain ⟨props, hprops, hget⟩ := Option.bind_eq_some_iff.1 hfound
        exact (((h.record hr).2 _ _ hprops).props rfl).2 _ _ hget
      | none =>
        cases (r.get? "prototype").bind Nbt.text? with
        | none => exact H.undefined
        | some prototype => exact ih prototype

theorem member (object : Value) (property : String) : H.value (m.member object property) := by
  unfold Machine.member
  split
  · exact listMember_holds (h.elements _) property
  · exact h.lookupWithin property maxChain _
  · refine listMember_holds (fun w hw => ?_) property
    obtain ⟨c, _, rfl⟩ := List.mem_map.1 hw
    exact H.scalar _
  · exact H.undefined

/-- The `this` that is fixed in a function. -/
theorem bound (hv : (m.record? address).bind (·.get? "bound") = some v) : H.value v := by
  obtain ⟨r, hr, hv⟩ := Option.bind_eq_some_iff.1 hv
  exact ((h.record hr).2 _ _ hv).bound rfl

theorem promise (hv : (m.record? address).bind (·.get? "promise") = some v) :
    PromiseHolds H v := by
  obtain ⟨r, hr, hv⟩ := Option.bind_eq_some_iff.1 hv
  exact ((h.record hr).2 _ _ hv).promise rfl

/-- A write below a record succeeds, if it does for the record. -/
theorem setPath {path : List String} {child : Nbt} (hknown : known address)
    (hset : ((m.heap.get? address).getD .empty).setPath path v = some child)
    (hchild : RecordHolds H child) :
    ∃ tree, m.heap.setPath (address :: path) v = some tree ∧ HeapGrown H known m.heap tree := by
  obtain ⟨tree, htree, hheap, hget⟩ := Nbt.Entries.setPath h hset ⟨hknown, hchild⟩
  refine ⟨tree, htree, hheap, fun name hname => ?_⟩
  rw [hget]
  split
  · rfl
  · exact hname

theorem setEntry (hknown : known address) (hvalue : RecordEntry H name v) :
    ∃ tree, m.heap.setPath [address, name] v = some tree ∧ HeapGrown H known m.heap tree := by
  have hrecord : RecordHolds H ((m.heap.get? address).getD .empty) := h.getD fun _ hw => hw.2
  obtain ⟨child, hset, hchild, _⟩ := hrecord.setEntry hvalue
  exact h.setPath hknown hset hchild

theorem setProperty (hknown : known address) (hvalue : H.value v) :
    ∃ tree, m.heap.setPath [address, "props", name] v = some tree ∧
      HeapGrown H known m.heap tree := by
  have hrecord : RecordHolds H ((m.heap.get? address).getD .empty) := h.getD fun _ hw => hw.2
  obtain ⟨child, _, hset, hchild, _⟩ :=
    hrecord.setEntry₂ (fun _ hw => hw.props rfl) hvalue (fun _ hw => .ofProps hw)
  exact h.setPath hknown hset hchild

/-- One more function waits for a promise. -/
theorem addListener (hknown : known address) (hlistener : H.listener v) :
    ∃ tree, m.heap.appendPath [address, "promise", "listeners"] v = some tree ∧
      HeapGrown H known m.heap tree := by
  have hrecord : RecordHolds H ((m.heap.get? address).getD .empty) := h.getD fun _ hw => hw.2
  have hset : ∀ items, (∀ v ∈ items, H.listener v) → ∃ tree,
      m.heap.setPath [address, "promise", "listeners"] (.list items) = some tree ∧
      HeapGrown H known m.heap tree := by
    intro items hitems
    obtain ⟨child, _, hset, hchild, _⟩ := hrecord.setEntry₂ (fun _ hw => hw.promise rfl)
      (.ofListeners hitems) (fun _ hw => .ofPromise hw)
    exact h.setPath hknown hset hchild
  rw [Nbt.appendPath]
  cases hget : m.heap.getPath [address, "promise", "listeners"] with
  | none => exact hset [v] (by simpa using hlistener)
  | some w =>
    -- those who wait already are in a list
    rw [Nbt.getPath_cons] at hget
    obtain ⟨record, hr, hget⟩ := Option.bind_eq_some_iff.1 hget
    rw [Nbt.getPath_pair] at hget
    obtain ⟨state, hstate, hget⟩ := Option.bind_eq_some_iff.1 hget
    obtain ⟨items, rfl, hitems⟩ :=
      ((((h.record hr).2 _ _ hstate).promise rfl).2 _ _ hget).listeners rfl
    refine hset (items ++ [v]) fun w hw => ?_
    rcases List.mem_append.1 hw with hold | hnew
    · exact hitems w hold
    · rw [List.mem_singleton.1 hnew]
      exact hlistener

end HeapHolds

end PackScript
