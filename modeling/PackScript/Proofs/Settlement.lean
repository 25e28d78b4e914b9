import PackScript.Compile.Script
import PackScript.Proofs.Recorded.Law

namespace PackScript

/-!
# Promises are settled once

A promise waits until it is resolved for the first time, and the functions that wait for it are
called then. They may do anything with the same promise.

* `Phase` — how far a promise has come. `Phase.Fits` says what its record holds then.
* `Course` — the events of a promise from one phase to another one.
* `awaitedIn`, `toldIn` — the functions that are registered and those that are called.
* `promises_settle_once` — a promise that waits takes such a course in every run, and every function
  that was registered for it is called once.
-/

/-! ### Phases -/

/-- The state of the promise in a record. -/
def Machine.promiseAt (m : Machine) (address : String) : Option Nbt :=
  (m.record? address).bind (·.get? "promise")

/-- The functions that wait for a promise. -/
def listenersOf (state : Nbt) : List Nbt :=
  ((state.get? "listeners").bind Nbt.items?).getD []

/-- How far a promise has come. -/
inductive Phase where
  /-- Functions wait for it -/
  | pending (listeners : List Nbt)
  /-- It has its value, and some of the functions that waited are still to be called -/
  | settling (value : Nbt) (left : List Nbt)
  /-- It has its value, and all functions that waited were called -/
  | settled (value : Nbt)

namespace Phase

/-- The value that the promise has. -/
def value? : Phase → Option Nbt
  | .pending _ => none
  | .settling v _ => some v
  | .settled v => some v

/-- The functions that wait. -/
def owed : Phase → List Nbt
  | .pending listeners => listeners
  | .settling _ left => left
  | .settled _ => []

/-- The record holds the promise in this phase: as soon as it has a value, nothing else changes. -/
def Fits (address : String) : Phase → Machine → Prop
  | .pending listeners, m => ∃ state, m.promiseAt address = some state ∧
      isResolved state = false ∧ listenersOf state = listeners
  | .settling v _, m => m.promiseAt address = some (promiseState [] true v)
  | .settled v, m => m.promiseAt address = some (promiseState [] true v)

/-- What a part of a run does to the promise that does not leave off in the middle. -/
inductive Onward : Phase → Phase → Prop
  | same (phase : Phase) : Onward phase phase
  | waits (l l' : List Nbt) : Onward (.pending l) (.pending l')
  | settles (l : List Nbt) (v : Nbt) : Onward (.pending l) (.settled v)

end Phase

/-! ### Courses -/

/-- The event has nothing to do with the promise in the record. -/
def Event.isElsewhere (address : String) : Event → Bool
  | .moved _ _ => false
  | .awaits a _ | .resolves a _ | .resolved a | .tells a _ _ _ => a != address
  | .schedules _ _ _ | .runs _ _ => true

/-- The events of the promise in a record, from one phase to another one. -/
inductive Course (address : String) : Phase → List Event → Phase → Prop
  | done {ph : Phase} : Course address ph [] ph
  /-- Nothing else changes the promise -/
  | moved {ph ph' : Phase} {before after : Machine} {es : List Event} :
      ph.Fits address before → ph.Fits address after → Course address ph es ph' →
      Course address ph (.moved before after :: es) ph'
  | elsewhere {ph ph' : Phase} {e : Event} {es : List Event} :
      e.isElsewhere address = true → Course address ph es ph' → Course address ph (e :: es) ph'
  /-- A function that is registered before the promise is resolved waits behind the others -/
  | waits {ph' : Phase} {listeners : List Nbt} {listener : Nbt} {es : List Event} :
      Course address (.pending (listeners ++ [listener])) es ph' →
      Course address (.pending listeners) (.awaits address listener :: es) ph'
  /-- The promise gets its value when it is resolved for the first time -/
  | settles {ph' : Phase} {listeners : List Nbt} {v : Nbt} {es : List Event} :
      Course address (.settling v listeners) es ph' →
      Course address (.pending listeners) (.resolves address (some v) :: es) ph'
  /-- Those who waited are called one after the other -/
  | tells {ph' : Phase} {listener : Nbt} {left : List Nbt} {v : Nbt} {es : List Event} :
      Course address (.settling v left) es ph' →
      Course address (.settling v (listener :: left)) (.tells address true listener v :: es) ph'
  /-- What resolves the promise does not end before all were called -/
  | finishes {ph' : Phase} {v : Nbt} {es : List Event} : Course address (.settled v) es ph' →
      Course address (.settling v []) (.resolved address :: es) ph'
  /-- To resolve it again does nothing -/
  | again {ph ph' : Phase} {v : Nbt} {es : List Event} : ph.value? = some v →
      Course address ph es ph' → Course address ph (.resolves address none :: es) ph'
  /-- A function that is registered later is called at once -/
  | late {ph ph' : Phase} {listener : Nbt} {v : Nbt} {es : List Event} : ph.value? = some v →
      Course address ph es ph' →
      Course address ph (.awaits address listener :: .tells address false listener v :: es) ph'

namespace Course

variable {address : String} {ph ph' ph'' : Phase} {es es' : List Event} {v : Nbt}

theorem append (h : Course address ph es ph') (h' : Course address ph' es' ph'') :
    Course address ph (es ++ es') ph'' := by
  induction h with
  | done => exact h'
  | moved hb ha _ ih => exact .moved hb ha (ih h')
  | elsewhere he _ ih => exact .elsewhere he (ih h')
  | waits _ ih => exact .waits (ih h')
  | settles _ ih => exact .settles (ih h')
  | tells _ ih => exact .tells (ih h')
  | finishes _ ih => exact .finishes (ih h')
  | again hv _ ih => exact .again hv (ih h')
  | late hv _ ih => exact .late hv (ih h')

/-- The value never changes. -/
theorem value (h : Course address ph es ph') (hv : ph.value? = some v) : ph'.value? = some v := by
  induction h with
  | done => exact hv
  | moved _ _ _ ih | elsewhere _ _ ih | tells _ ih | finishes _ ih | again _ _ ih | late _ _ ih =>
    exact ih hv
  | waits _ _ | settles _ _ => cases hv

end Course

/-! ### Registered and called -/

/-- The function that is registered for the promise in the record. -/
def Event.awaited? (address : String) : Event → Option Nbt
  | .awaits a listener => if a = address then some listener else none
  | _ => none

/-- The function that is called with the value of the promise in the record, and the value. -/
def Event.told? (address : String) : Event → Option (Nbt × Nbt)
  | .tells a _ listener v => if a = address then some (listener, v) else none
  | _ => none

/-- The functions that are registered for the promise in a record. -/
def awaitedIn (address : String) (es : List Event) : List Nbt :=
  es.filterMap (Event.awaited? address)

/-- The functions that are called with the value of the promise in a record, and the values. -/
def toldIn (address : String) (es : List Event) : List (Nbt × Nbt) :=
  es.filterMap (Event.told? address)

section

variable {address : String} {e : Event} {es : List Event} {listener v : Nbt}

theorem awaitedIn_elsewhere (h : e.isElsewhere address = true) :
    awaitedIn address (e :: es) = awaitedIn address es := by
  refine List.filterMap_cons_none ?_
  cases e with
  | awaits a listener => exact if_neg (by simpa [Event.isElsewhere] using h)
  | _ => rfl

theorem toldIn_elsewhere (h : e.isElsewhere address = true) :
    toldIn address (e :: es) = toldIn address es := by
  refine List.filterMap_cons_none ?_
  cases e with
  | tells a settling listener v => exact if_neg (by simpa [Event.isElsewhere] using h)
  | _ => rfl

theorem awaitedIn_awaits :
    awaitedIn address (.awaits address listener :: es) = listener :: awaitedIn address es :=
  List.filterMap_cons_some (if_pos rfl)

theorem toldIn_tells (settling : Bool) :
    toldIn address (.tells address settling listener v :: es) =
      (listener, v) :: toldIn address es :=
  List.filterMap_cons_some (if_pos rfl)

theorem toldIn_awaits : toldIn address (.awaits address listener :: es) = toldIn address es :=
  rfl

theorem awaitedIn_tells (settling : Bool) :
    awaitedIn address (.tells address settling listener v :: es) = awaitedIn address es :=
  rfl

end

namespace Course

variable {address : String} {ph ph' : Phase} {es : List Event} {v : Nbt}

/-- As long as the promise waits, nobody is called, and those who are registered wait. -/
theorem waiting (h : Course address ph es ph') (hnone : ph'.value? = none) :
    toldIn address es = [] ∧ ph'.owed = ph.owed ++ awaitedIn address es := by
  induction h with
  | done => exact ⟨rfl, (List.append_nil _).symm⟩
  | moved _ _ _ ih => exact ih hnone
  | elsewhere he _ ih =>
    rw [awaitedIn_elsewhere he, toldIn_elsewhere he]
    exact ih hnone
  | waits _ ih =>
    obtain ⟨htold, howed⟩ := ih hnone
    refine ⟨htold, howed.trans ?_⟩
    rw [awaitedIn_awaits, Phase.owed, Phase.owed, List.append_assoc, List.singleton_append]
  | settles h _ | tells h _ | finishes h _ => cases hnone.symm.trans (h.value rfl)
  | again hv h _ | late hv h _ => cases hnone.symm.trans (h.value hv)

/-- When the promise has its value, all who waited and all who are registered are called with it, or
    are still to be called. -/
theorem accounts (h : Course address ph es ph') (hv : ph'.value? = some v) :
    (toldIn address es ++ ph'.owed.map fun l => (l, v)).Perm
      ((ph.owed ++ awaitedIn address es).map fun l => (l, v)) := by
  induction h with
  | done =>
    rw [awaitedIn, List.filterMap_nil, List.append_nil]
    exact .refl _
  | moved _ _ _ ih | settles _ ih | finishes _ ih | again _ _ ih => exact ih hv
  | elsewhere he _ ih =>
    rw [awaitedIn_elsewhere he, toldIn_elsewhere he]
    exact ih hv
  | waits _ ih =>
    have hperm := ih hv
    rw [Phase.owed, List.append_assoc, List.singleton_append] at hperm
    rw [awaitedIn_awaits]
    exact hperm
  | tells h ih =>
    cases hv.symm.trans (h.value rfl)
    rw [toldIn_tells]
    exact (ih hv).cons _
  | late hvalue h ih =>
    cases hv.symm.trans (h.value hvalue)
    rw [toldIn_awaits, toldIn_tells, awaitedIn_awaits, awaitedIn_tells, List.map_append,
      List.map_cons]
    refine .trans ?_ List.perm_middle.symm
    rw [← List.map_append]
    exact (ih hv).cons _

end Course

/-! ### Writes to the record -/

section

variable {m m' : Machine} {address q : String}

/-- A write below another record leaves the promise alone. -/
theorem promiseAt_setPath_of_ne {tree value : Nbt} {path : List String} (hq : q ≠ address)
    (h : m.heap.setPath (q :: path) value = some tree) :
    (m.withStorage .heap tree).promiseAt address = m.promiseAt address := by
  obtain ⟨_, _, _, hget⟩ := Nbt.setPath_cons h
  show (tree.get? address).bind (·.get? "promise") = _
  rw [hget, if_neg hq]
  rfl

theorem write_leaves_promise (hq : q ≠ address) (path : List String) (value : Nbt) :
    Run.Leaves (·.promiseAt address) (Run.write .heap (q :: path) value) := by
  intro m
  rw [Run.write_run]
  cases hset : (m.storage .heap).setPath (q :: path) value with
  | none => rfl
  | some tree => exact promiseAt_setPath_of_ne hq hset

theorem append_leaves_promise (hq : q ≠ address) (path : List String) (value : Nbt) :
    Run.Leaves (·.promiseAt address) (Run.append .heap (q :: path) value) := by
  intro m
  rw [Run.append_run]
  cases happend : (m.storage .heap).appendPath (q :: path) value with
  | none => rfl
  | some tree =>
    unfold Nbt.appendPath at happend
    split at happend
    · exact promiseAt_setPath_of_ne hq happend
    · cases happend
    · exact promiseAt_setPath_of_ne hq happend

/-- What a write to the promise of a record does. -/
theorem promiseAt_write {value : Nbt} {a : Unit}
    (h : Run.write .heap [address, "promise"] value m = .ok a m') :
    m'.promiseAt address = some value := by
  obtain ⟨tree, hset, rfl⟩ := Run.write_ok h
  obtain ⟨record, hrecord, _, hget⟩ := Nbt.setPath_cons hset
  obtain ⟨child, hchild, _, hget'⟩ := Nbt.setPath_cons hrecord
  cases hchild
  show (tree.get? address).bind (·.get? "promise") = _
  rw [hget, if_pos rfl, Option.bind_some, hget', if_pos rfl]

/-- A function that is added to those who wait for a promise. -/
theorem promiseAt_append {listener state : Nbt} {a : Unit}
    (hstate : m.promiseAt address = some state)
    (h : Run.append .heap [address, "promise", "listeners"] listener m = .ok a m') :
    ∃ state', m'.promiseAt address = some state' ∧ isResolved state' = isResolved state ∧
      listenersOf state' = listenersOf state ++ [listener] := by
  rw [Run.append_run] at h
  cases happend : (m.storage .heap).appendPath [address, "promise", "listeners"] listener with
  | none =>
    rw [happend] at h
    cases h
  | some tree =>
    rw [happend] at h
    cases h
    obtain ⟨record, hrecord, hpromise⟩ := Option.bind_eq_some_iff.1 hstate
    have hpath : m.heap.getPath [address, "promise", "listeners"] = state.get? "listeners" := by
      have hget : m.heap.get? address = some record := hrecord
      rw [Nbt.getPath_cons, hget, Option.bind_some, Nbt.getPath_pair, hpromise, Option.bind_some]
    have hset : m.heap.setPath [address, "promise", "listeners"]
        (.list (listenersOf state ++ [listener])) = some tree := by
      have hset : m.heap.appendPath [address, "promise", "listeners"] listener =
        some tree := happend
      rw [Nbt.appendPath, hpath] at hset
      unfold listenersOf
      cases hlisteners : state.get? "listeners" with
      | none =>
        rw [hlisteners] at hset
        exact hset
      | some listeners =>
        rw [hlisteners] at hset
        cases listeners with
        | list items => exact hset
        | _ => cases hset
    obtain ⟨record', hset, _, hget⟩ := Nbt.setPath_cons hset
    rw [show m.heap.get? address = some record from hrecord, Option.getD_some] at hset
    obtain ⟨state', hset, _, hget'⟩ := Nbt.setPath_cons hset
    rw [hpromise, Option.getD_some] at hset
    obtain ⟨items, hitems, _, hget''⟩ := Nbt.setPath_cons hset
    cases hitems
    refine ⟨state', ?_, ?_, ?_⟩
    · show (tree.get? address).bind (·.get? "promise") = _
      rw [hget, if_pos rfl, Option.bind_some, hget', if_pos rfl]
    · rw [isResolved, hget'', if_neg (by decide), isResolved]
    · rw [listenersOf, hget'', if_pos rfl]
      rfl

end

/-! ### Runs -/

/-- Nothing that has no event of its own changes the promise in the record. -/
def Unmoved (address : String) (es : List Event) : Prop :=
  ∀ before after, .moved before after ∈ es → after.promiseAt address = before.promiseAt address

section

variable {address : String} {m m' : Machine} {ph : Phase} {state : Nbt}

theorem Phase.Fits.of_eq (h : ph.Fits address m)
    (heq : m'.promiseAt address = m.promiseAt address) : ph.Fits address m' := by
  cases ph with
  | pending listeners =>
    obtain ⟨state, hstate, hrest⟩ := h
    exact ⟨state, heq.trans hstate, hrest⟩
  | settling v left | settled v => exact heq.trans h

/-- A promise that is resolved has a value. -/
theorem Phase.Fits.value (h : ph.Fits address m) (hstate : m.promiseAt address = some state)
    (hresolved : isResolved state = true) :
    ∃ v, ph.value? = some v ∧ state = promiseState [] true v := by
  cases ph with
  | pending listeners =>
    obtain ⟨state', hstate', hnot, _⟩ := h
    cases hstate.symm.trans hstate'
    cases hnot.symm.trans hresolved
  | settling v left | settled v => exact ⟨v, rfl, Option.some.inj (hstate.symm.trans h)⟩

theorem Phase.Fits.isSome (h : ph.Fits address m) : (m.promiseAt address).isSome = true := by
  cases ph with
  | pending listeners =>
    obtain ⟨state, hstate, _⟩ := h
    rw [hstate]
    rfl
  | settling v left | settled v =>
    rw [show m.promiseAt address = _ from h]
    rfl

/-- A promise that is not resolved waits. -/
theorem Phase.Fits.pending (h : ph.Fits address m) (hstate : m.promiseAt address = some state)
    (hnot : isResolved state = false) : ph = .pending (listenersOf state) := by
  have hresolved (v : Nbt) (h : m.promiseAt address = some (promiseState [] true v)) : False := by
    cases hstate.symm.trans h
    cases hnot
  cases ph with
  | pending listeners =>
    obtain ⟨state', hstate', _, hlisteners⟩ := h
    cases hstate.symm.trans hstate'
    rw [hlisteners]
  | settling v left | settled v => exact (hresolved v h).elim

theorem Phase.Onward.trans {ph₁ ph₂ ph₃ : Phase} (h : ph₁.Onward ph₂) (h' : ph₂.Onward ph₃) :
    ph₁.Onward ph₃ := by
  cases h with
  | same => exact h'
  | waits l l' =>
    cases h' with
    | same => exact .waits _ _
    | waits => exact .waits _ _
    | settles => exact .settles _ _
  | settles l v =>
    cases h'
    exact .settles _ _

end

open Recorded

/-- The promise in the record takes its course. -/
def settlement (address : String) : Law where
  Holds m es m' ok := ok = true → Unmoved address es → ∀ ph : Phase, ph.Fits address m →
    ∃ ph', Course address ph es ph' ∧ ph'.Fits address m' ∧ ph.Onward ph'
  nothing m _ _ ph hfits := ⟨ph, .done, hfits, .same ph⟩
  trans h h' hok hunmoved ph hfits := by
    obtain ⟨ph₁, hcourse, hfits, hon⟩ :=
      h rfl (fun b a hmem => hunmoved b a (List.mem_append_left _ hmem)) ph hfits
    obtain ⟨ph₂, hcourse', hfits', hon'⟩ :=
      h' hok (fun b a hmem => hunmoved b a (List.mem_append_right _ hmem)) ph₁ hfits
    exact ⟨ph₂, hcourse.append hcourse', hfits', hon.trans hon'⟩
  moved _ _ _ hunmoved ph hfits := by
    have hafter := hfits.of_eq (hunmoved _ _ List.mem_cons_self)
    exact ⟨ph, .moved hfits hafter .done, hafter, .same ph⟩
  deeper h hok hunmoved ph hfits := by
    obtain ⟨ph', hcourse, hfits', hon⟩ := h hok hunmoved ph (hfits.of_eq rfl)
    exact ⟨ph', hcourse, hfits'.of_eq rfl, hon⟩

section

variable {α : Type} {address : String} {m m' : Machine} {a : α}

theorem settlement_at {c : Recorded α} (h : ∀ a m', c.run m = .ok a m' →
    Unmoved address (c.events m) →
      ∀ ph : Phase, ph.Fits address m →
        ∃ ph', Course address ph (c.events m) ph' ∧ ph'.Fits address m' ∧ ph.Onward ph') :
    (settlement address).At m c := by
  intro hok
  cases hrun : c.run m with
  | ok a m' => exact h a m' hrun
  | error e m' =>
    rw [hrun] at hok
    cases hok

theorem course_of_at {c : Recorded α} (h : (settlement address).At m c) (hrun : c.run m = .ok a m')
    (hunmoved : Unmoved address (c.events m)) {ph : Phase} (hfits : ph.Fits address m) :
    ∃ ph', Course address ph (c.events m) ph' ∧ ph'.Fits address m' ∧ ph.Onward ph' := by
  have hcourse := h (by rw [hrun]; rfl) hunmoved ph hfits
  rw [hrun] at hcourse
  exact hcourse

theorem settlement_note {e : Event} (he : e.isElsewhere address = true) :
    (settlement address).Obeyed (note e) :=
  fun _ _ _ ph hfits => ⟨ph, .elsewhere he .done, hfits, .same ph⟩

theorem settlement_lift {c : Run α} (h : Run.Leaves (·.promiseAt address) c) :
    (settlement address).Obeyed (lift c) :=
  fun m _ _ ph hfits => ⟨ph, .done, hfits.of_eq (h m), .same ph⟩

/-- A function that is registered for a promise that waits. -/
theorem settlement_waits {state : Nbt} (hstate : m.promiseAt address = some state)
    (hnot : isResolved state = false) (listener : Nbt) : (settlement address).At m (do
      note (.awaits address listener)
      lift (Run.append .heap [address, "promise", "listeners"] listener)) := by
  refine settlement_at fun _ m' hrun _ ph hfits => ?_
  obtain rfl := hfits.pending hstate hnot
  obtain ⟨state', hstate', hsame, hlisteners⟩ := promiseAt_append hstate hrun
  exact ⟨_, .waits .done, ⟨state', hstate', hsame.trans hnot, hlisteners⟩, .waits _ _⟩

section

variable {call : Caller} (hcall : ∀ name channel, (settlement address).Obeyed (call name channel))

include hcall

/-- A function that is registered for a promise that is resolved. -/
theorem settlement_late {state : Nbt} (hstate : m.promiseAt address = some state)
    (hresolved : isResolved state = true) (channel : String) (listener : Nbt) :
    (settlement address).At m (do
      note (.awaits address listener)
      note (.tells address false listener ((state.get? "value").getD .undefinedSlot))
      callListener call channel ((state.get? "value").getD .undefinedSlot) listener) := by
  refine settlement_at fun _ m' hrun hunmoved ph hfits => ?_
  obtain ⟨v, hv, rfl⟩ := hfits.value hstate hresolved
  obtain ⟨ph', hcourse, hfits', hon⟩ :=
    course_of_at (Law.Obeyed.callListener hcall channel v listener m) hrun
      (fun b a hmem => hunmoved b a (.tail _ (.tail _ hmem))) hfits
  exact ⟨ph', .late hv hcourse, hfits', hon⟩

theorem settlement_awaitPromise (a : Args) : (settlement address).Obeyed (awaitPromise call a) := by
  intro m
  refine .look Run.slotArgument_looks fun awaited _ => ?_
  refine .look Run.slotArgument_looks fun listener _ => ?_
  refine .look Run.argument_looks fun channel _ => ?_
  refine .look Run.awaitedPromise_looks fun found hfound => ?_
  cases found with
  | none => exact Law.Obeyed.callListener hcall _ _ _ m
  | some pair =>
    obtain ⟨q, state⟩ := pair
    obtain ⟨_, hstate⟩ := hfound q state rfl
    by_cases hq : q = address
    · subst hq
      dsimp only
      cases hresolved : isResolved state with
      | true => exact settlement_late hcall hstate hresolved channel listener
      | false => exact settlement_waits hstate hresolved listener
    · refine (Law.Obeyed.bind (settlement_note (by simpa [Event.isElsewhere] using hq)) fun _ =>
        ?_) m
      split
      · refine .bind (settlement_note (by simpa [Event.isElsewhere] using hq)) fun _ => ?_
        exact .callListener hcall _ _ _
      · exact settlement_lift (append_leaves_promise hq _ _)

/-- Those who waited are called one after the other. -/
theorem tells_course (channel : String) (v : Nbt) (left : List Nbt)
    (hrun : (left.forM (tell call address channel v)).run m = .ok () m')
    (hunmoved : Unmoved address ((left.forM (tell call address channel v)).events m))
    (hm : m.promiseAt address = some (promiseState [] true v)) :
    Course address (.settling v left) ((left.forM (tell call address channel v)).events m)
        (.settling v []) ∧
      m'.promiseAt address = some (promiseState [] true v) := by
  induction left generalizing m with
  | nil =>
    cases hrun
    exact ⟨.done, hm⟩
  | cons listener left ih =>
    have hcons : (listener :: left).forM (tell call address channel v) =
      tell call address channel v listener >>= fun _ =>
        left.forM (tell call address channel v) := rfl
    rw [hcons, run_bind] at hrun
    obtain ⟨_, m₁, hfirst, hrest⟩ := Run.bind_eq_ok hrun
    rw [hcons, events_bind_of_ok hfirst] at hunmoved ⊢
    obtain ⟨ph', hcourse, hfits, hon⟩ := course_of_at
      (Law.Obeyed.callListener hcall channel v listener m) hfirst
      (fun b a hmem => hunmoved b a (List.mem_append_left _ (.tail _ hmem)))
      (show (Phase.settling v left).Fits address m from hm)
    cases hon
    obtain ⟨hcourse', hm'⟩ :=
      ih hrest (fun b a hmem => hunmoved b a (List.mem_append_right _ hmem)) hfits
    exact ⟨.tells (hcourse.append hcourse'), hm'⟩

/-- A promise that is resolved for the first time. -/
theorem settlement_settles {state : Nbt} (hstate : m.promiseAt address = some state)
    (hnot : isResolved state = false) (a : Args) (value : Nbt) : (settlement address).At m (do
      note (.resolves address (some value))
      lift (Run.write .heap [address, "promise"] (promiseState [] true value))
      let channel ← act (Run.argument a "channel")
      (listenersOf state).forM (tell call address channel value)
      note (.resolved address)) := by
  refine settlement_at fun _ m' hrun hunmoved ph hfits => ?_
  obtain rfl := hfits.pending hstate hnot
  rw [events_note_bind] at hunmoved ⊢
  simp only [run_bind, run_note, run_lift, run_act, pure_bind] at hrun
  obtain ⟨_, m₁, hwrite, hrun⟩ := Run.bind_eq_ok hrun
  obtain ⟨channel, m₂, hchannel, hrun⟩ := Run.bind_eq_ok hrun
  obtain ⟨_, m₃, htells, hend⟩ := Run.bind_eq_ok hrun
  cases hend
  obtain ⟨rfl, _⟩ := Run.argument_looks.of_ok hchannel
  rw [events_lift_bind hwrite, events_act_bind hchannel, events_bind_of_ok htells] at hunmoved ⊢
  have hvalue := promiseAt_write hwrite
  obtain ⟨hcourse, hfits'⟩ := tells_course hcall channel value (listenersOf state) htells
    (fun b a hmem => hunmoved b a (.tail _ (.tail _ (List.mem_append_left _ hmem)))) hvalue
  have hend := hcourse.append (.finishes .done)
  exact ⟨.settled value, .settles (.moved hvalue hvalue hend), hfits', .settles _ _⟩

theorem settlement_resolvePromise (a : Args) :
    (settlement address).Obeyed (resolvePromise call a) := by
  intro m
  refine .look Run.valueArgument_looks fun promise _ => ?_
  cases promise with
  | scalar value => exact Law.Obeyed.pure _ m
  | reference kind q =>
    refine .look Run.promise?_looks fun found hfound => ?_
    by_cases hq : q = address
    · subst hq
      cases found with
      | none =>
        refine settlement_at fun _ m' _ _ ph hfits => ?_
        cases (congrArg Option.isSome hfound).trans hfits.isSome
      | some state =>
        dsimp only [Option.getD_some]
        cases hresolved : isResolved state with
        | true =>
          refine settlement_at fun _ m' hrun _ ph hfits => ?_
          cases hrun
          obtain ⟨v, hv, _⟩ := hfits.value hfound.symm hresolved
          exact ⟨ph, .again hv .done, hfits, .same ph⟩
        | false =>
          refine .look Run.slotArgument_looks fun value _ => ?_
          exact settlement_settles hcall hfound.symm hresolved a value
    · dsimp only
      split
      · refine .look Run.slotArgument_looks fun value _ => ?_
        refine (Law.Obeyed.bind (settlement_note (by simpa [Event.isElsewhere] using hq))
          fun _ => ?_) m
        refine .bind (settlement_lift (write_leaves_promise hq _ _)) fun _ => ?_
        refine .bind (.act Run.argument_leaves) fun channel => ?_
        refine .bind (.forM (fun listener => ?_) _) fun _ =>
          settlement_note (by simpa [Event.isElsewhere] using hq)
        refine .bind (settlement_note (by simpa [Event.isElsewhere] using hq)) fun _ => ?_
        exact .callListener hcall _ _ _
      · exact settlement_note (by simpa [Event.isElsewhere] using hq) m

end

theorem settlement_basic : (settlement address).Basic where
  resolvePromise := fun hcall a => settlement_resolvePromise hcall a
  awaitPromise := fun hcall a => settlement_awaitPromise hcall a
  schedule := by
    intro a
    refine .bind (.act Run.slotArgument_leaves) fun function => ?_
    refine .bind (.act Run.scalarArgument_leaves) fun ticks => ?_
    split
    · exact .pure _
    · refine .bind (.look fun _ => Run.unitOf_looks) fun _ => .bind .get fun _ => ?_
      exact .bind (settlement_note rfl) fun _ => settlement_lift fun _ => rfl

theorem settlement_passTick : (settlement address).Obeyed passTick := by
  intro m
  refine .look (P := (· = m)) ⟨rfl, rfl⟩ ?_
  rintro _ rfl
  refine .bind (fun _ _ ph hfits => ⟨ph, .done, hfits.of_eq rfl, .same ph⟩) fun _ m' _ => ?_
  refine Law.Obeyed.forM (fun t => ?_) _ m'
  refine .bind .get fun _ => .bind (settlement_note rfl) fun _ => ?_
  refine .bind (.act (Run.write_leaves_clock _ _ _)) fun _ => ?_
  exact .bind (.invokeFunction settlement_basic.fromHost _ _) fun _ => .pure _

end

/-- A promise that waits takes its course in every run in which nothing else changes its record and
    nothing fails. The first time that it is resolved it gets its value, which never changes, and no
    function waits in its record any more. Those who waited are called in the order in which they
    were registered, before what resolves the promise ends, and those who are registered later are
    called at once. So every function is called once with the value for each time that it was
    registered, and nobody is called as long as the promise waits. -/
theorem promises_settle_once {m m' : Machine} {address : String} {state : Nbt}
    (steps : List HostStep) (hstate : m.promiseAt address = some state)
    (hpending : isResolved state = false) (hrun : steps.forM HostStep.run m = .ok () m')
    {es : List Event} (hes : es = (steps.forM HostStep.recorded).events m)
    (hunmoved : Unmoved address es) :
    ∃ phase : Phase, Course address (.pending (listenersOf state)) es phase ∧
      phase.Fits address m' ∧
      (phase = .pending (listenersOf state ++ awaitedIn address es) ∧ toldIn address es = [] ∨
        ∃ v, phase = .settled v ∧ (toldIn address es).Perm
          ((listenersOf state ++ awaitedIn address es).map fun listener => (listener, v))) := by
  have hobeyed : (settlement address).Obeyed (steps.forM HostStep.recorded) :=
    .forM (fun step => Law.recorded settlement_basic.entry settlement_basic.callGlobal
      settlement_passTick step) steps
  have hrun' : (steps.forM HostStep.recorded).run m = .ok () m' := by
    rw [run_forM]
    simpa only [HostStep.run_recorded] using hrun
  have hfits : (Phase.pending (listenersOf state)).Fits address m := ⟨state, hstate, hpending, rfl⟩
  rw [hes] at hunmoved ⊢
  obtain ⟨phase, hcourse, hfits', hon⟩ := course_of_at (hobeyed m) hrun' hunmoved hfits
  refine ⟨phase, hcourse, hfits', ?_⟩
  cases hon with
  | same =>
    obtain ⟨htold, howed⟩ := hcourse.waiting rfl
    exact .inl ⟨congrArg _ howed, htold⟩
  | waits =>
    obtain ⟨htold, howed⟩ := hcourse.waiting rfl
    exact .inl ⟨congrArg _ howed, htold⟩
  | settles _ v =>
    have hperm : (toldIn address _ ++ []).Perm _ := hcourse.accounts rfl
    rw [List.append_nil] at hperm
    exact .inr ⟨v, rfl, hperm⟩

/-! ### A promise that its listener resolves again -/

mutual

/-- The trees are the same, and have no fractional numbers in them. -/
def Nbt.identical : Nbt → Nbt → Bool
  | .bool a, .bool b => a == b
  | .int a, .int b => a == b
  | .string a, .string b => a == b
  | .list a, .list b => identicalItems a b
  | .compound a, .compound b => identicalEntries a b
  | _, _ => false

/-- The same for lists of trees. -/
def Nbt.identicalItems : List Nbt → List Nbt → Bool
  | [], [] => true
  | a :: as, b :: bs => a.identical b && identicalItems as bs
  | _, _ => false

/-- The same for the entries of compounds. -/
def Nbt.identicalEntries : List (String × Nbt) → List (String × Nbt) → Bool
  | [], [] => true
  | (key, a) :: as, (key', b) :: bs => key == key' && a.identical b && identicalEntries as bs
  | _, _ => false

end

mutual

theorem Nbt.eq_of_identical {a b : Nbt} (h : a.identical b = true) : a = b := by
  cases a <;> cases b <;> simp only [identical, Bool.false_eq_true] at h
  · rw [eq_of_beq h]
  · rw [eq_of_beq h]
  · rw [eq_of_beq h]
  · rw [eq_of_identicalItems h]
  · rw [eq_of_identicalEntries h]

theorem Nbt.eq_of_identicalItems {as bs : List Nbt} (h : identicalItems as bs = true) :
    as = bs := by
  cases as <;> cases bs <;> simp only [identicalItems, Bool.false_eq_true, Bool.and_eq_true] at h
  · rfl
  · rw [eq_of_identical h.1, eq_of_identicalItems h.2]

theorem Nbt.eq_of_identicalEntries {as bs : List (String × Nbt)}
    (h : identicalEntries as bs = true) : as = bs := by
  cases as with
  | nil => cases bs <;> simp_all [identicalEntries]
  | cons a as =>
    cases bs with
    | nil => simp [identicalEntries] at h
    | cons b bs =>
      simp only [identicalEntries, Bool.and_eq_true] at h
      rw [Prod.ext (eq_of_beq h.1.1) (eq_of_identical h.1.2), eq_of_identicalEntries h.2]

end

/-- What has no event of its own keeps the promise in the record. -/
def Event.keepsPromise (address : String) : Event → Bool
  | .moved before after => match after.promiseAt address, before.promiseAt address with
    | some a, some b => a.identical b
    | _, _ => false
  | _ => true

theorem unmoved_of_keepsPromise {address : String} {es : List Event}
    (h : es.all (Event.keepsPromise address) = true) : Unmoved address es := by
  intro before after hmem
  have hkeeps := List.all_eq_true.1 h _ hmem
  unfold Event.keepsPromise at hkeeps
  dsimp only at hkeeps
  split at hkeeps
  · next ha hb => rw [ha, hb, Nbt.eq_of_identical hkeeps]
  · cases hkeeps

/-- A function that waits for a promise resolves it again, and has another function wait for it. -/
def relayingProgram : Program :=
  (compileSources "pack" ["let p = \x7b\x7d;\n__initPromise(p);\nfunction g() \x7b\x7d\n" ++
    "function f() \x7b __resolvePromise(p, \"b\"); __thenPromise(p, g); \x7d\n" ++
    "__thenPromise(p, f);\n" ++
    "function settle() \x7b __thenPromise(p, g); __resolvePromise(p, \"a\"); \x7d\n"]).program

/-- One function waits before the call, one is registered by the call, and one by a listener. -/
theorem promises_settle_once_relaying :
    ∃ m m' state es, m = (Machine.start relayingProgram 512).after .entry ∧
      m.promiseAt "h6" = some state ∧ isResolved state = false ∧
      [HostStep.call "settle" []].forM HostStep.run m = .ok () m' ∧
      es = ([HostStep.call "settle" []].forM HostStep.recorded).events m ∧ Unmoved "h6" es ∧
      ∃ v, Course "h6" (.pending (listenersOf state)) es (.settled v) ∧
        (toldIn "h6" es).Perm ((listenersOf state ++ awaitedIn "h6" es).map fun l => (l, v)) ∧
        (toldIn "h6" es).length = 3 := by
  have hfacts : ∃ m es, m = (Machine.start relayingProgram 512).after .entry ∧
      es = ([HostStep.call "settle" []].forM HostStep.recorded).events m ∧
      (m.promiseAt "h6").map isResolved = some false ∧
      Run.error? ([HostStep.call "settle" []].forM HostStep.run m) = none ∧
      es.all (Event.keepsPromise "h6") = true ∧ (toldIn "h6" es).length = 3 :=
    ⟨_, _, rfl, rfl, by decide +kernel⟩
  obtain ⟨m, es, hm, hes, hpromise, hok, hkeeps, hlength⟩ := hfacts
  obtain ⟨state, hstate, hpending⟩ := Option.map_eq_some_iff.1 hpromise
  have hunmoved := unmoved_of_keepsPromise hkeeps
  cases hrun : [HostStep.call "settle" []].forM HostStep.run m with
  | error e m' =>
    rw [hrun] at hok
    cases hok
  | ok _ m' =>
    obtain ⟨phase, hcourse, _, ⟨_, htold⟩ | ⟨v, rfl, hperm⟩⟩ :=
      promises_settle_once [.call "settle" []] hstate hpending hrun hes hunmoved
    · rw [htold] at hlength
      cases hlength
    · exact ⟨m, m', state, es, hm, hstate, hpending, hrun, hes, hunmoved, v, hcourse,
        hperm, hlength⟩

end PackScript
