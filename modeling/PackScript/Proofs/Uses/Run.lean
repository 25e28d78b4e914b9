import PackScript.Proofs.Machine.Checked
import PackScript.Proofs.Uses.Library
import PackScript.Proofs.Uses.Program

namespace PackScript

/-!
# Code that keeps to the uses, when it runs

* `Limits.Away` — a return address does not lead to the slot that is not to be written. Code that
  answers its caller has such an address, see `Limits.Kept`.
* `Uses.Piece.steps_keep`, `Uses.Pieces.steps_keep` — code that is made of pieces keeps a machine to
  the limits.
-/

variable {c : Channel} {use : ChannelUse} {guard : Guard} {i : Instr} {kind : Kind}
  {is : List Instr} {Q : Machine → Prop} {v : Nbt} {args : Option Channel} {d s : Slot}
  {source : Source} {name t : String}

/-! ### Limits of code -/

/-- What an instruction writes to a variable is what the variable may hold. -/
def Limits.Assigns (L : Limits) (i : Instr) : Prop :=
  ∀ guard s source, i = .set guard (.slot s) source →
    (∀ v, L.variables_ s v) ∨ ∃ v, source = .literal v ∧ L.variables_ s v

/-- The instruction keeps to the limits, or the check ends the run before it. -/
def Limits.Permits (L : Limits) (check : List Instr → Machine → Option MachineError) (i : Instr) :
    Prop :=
  (L.Leaves i ∧ L.Assigns i) ∨ ∀ rest m, check (i :: rest) m ≠ none

/-- The return address in the slot does not lead to the slot that is not to be written. Where steps
    do not fail, it is there. -/
structure Limits.Away (L : Limits) (m : Machine) (d : Slot) : Prop where
  away : ∀ a, L.spared = some a → L.uses.slot d = some .address →
    m.slots.get? d.key ≠ some (.string a.key)
  there : L.unfailing → (m.slots.get? d.key).isSome = true

/-- The return address that code may use does not lead to the slot that is not to be written. -/
def Limits.Kept (L : Limits) (address : Option Slot) (m : Machine) : Prop :=
  ∀ d, address = some d → L.Away m d

section

variable {L : Limits} {n n' : Nat} {m m' : Machine} {d : Slot}

theorem Proceeds.away (h : Proceeds L n m n' m') (hd : L.Away m d) : L.Away m' d :=
  ⟨fun a ha huse => h.addresses a d ha huse (hd.away a ha huse),
    fun hu => h.written _ (hd.there hu)⟩

theorem Limits.Kept.proceeds {a : Option Slot} (h : L.Kept a m) (hp : Proceeds L n m n' m') :
    L.Kept a m' :=
  fun d hd => hp.away (h d hd)

end

/-! ### What is taken -/

theorem Machine.read_slot (m : Machine) (s : Slot) : m.read (.slot s) = m.slots.get? s.key :=
  Nbt.getPath_single _ _

theorem emptyRecord_holds {H : Contents} {prototype : Option Record}
    (h : ∀ r, prototype = some r → H.value (objectSlot r)) :
    RecordHolds H (emptyRecord (prototype.map objectSlot)) := by
  refine Nbt.entries_compound fun e he => ?_
  rw [List.mem_singleton.1 he]
  refine .ofProps (Nbt.entries_compound fun e he => ?_)
  obtain ⟨v, hv, rfl⟩ := List.mem_map.1 he
  obtain ⟨r, hr, rfl⟩ := Option.map_eq_some_iff.1 (Option.mem_toList.1 hv)
  exact h r hr

section

variable {L : Limits} {n : Nat} {m : Machine} {channel : Option String} {source : Source} {v : Nbt}

/-- What is in the channel that a unit was called with. -/
theorem Tidy.take_param (hm : Tidy L n m) (h : m.take channel (.param name) = some v) :
    ∃ key, channel = some key ∧ EntryTidy L n key name v := by
  obtain ⟨key, hkey, hv⟩ := Option.bind_eq_some_iff.1 h
  rw [Nbt.getPath_pair] at hv
  obtain ⟨tree, htree, hget⟩ := Option.bind_eq_some_iff.1 hv
  exact ⟨key, hkey, (hm.channels.2 _ _ htree).2 _ _ hget⟩

/-- What is in a channel. -/
theorem Tidy.filled (hm : Tidy L n m) {key : String} (h : (m.filled key).get? name = some v) :
    EntryTidy L n key name v := by
  unfold Machine.filled at h
  cases hget : m.channels.get? key with
  | none =>
    rw [hget] at h
    cases h
  | some w =>
    rw [hget] at h
    exact (hm.channels.2 _ _ hget).2 name v h

theorem Tidy.take_fair (hm : Tidy L n m) (hsource : L.uses.Gives source)
    (h : m.take channel source = some v) : v.Fair L n := by
  cases source with
  | literal w =>
    cases h
    exact Nbt.Proper.mono hsource (fun _ ha => ha.issued hm.base) fun _ hid => hid
  | copy place =>
    obtain ⟨s, rfl, hs⟩ := hsource
    have hget : m.slots.get? s.key = some v := (m.read_slot s).symm.trans h
    have hslot : m.slot s.key = v := by
      simp [Machine.slot, hget]
    exact hslot ▸ hm.slot_fair hs
  | param name =>
    obtain ⟨key, _, hentry⟩ := hm.take_param h
    exact hentry.value hsource

/-- What is written as the payload of a value. -/
theorem Tidy.take_payload (hm : Tidy L n m) (hsource : L.uses.Payload kind source)
    (h : m.take channel source = some v) : kind.HasPayload v := by
  cases hsource with
  | literal hv =>
    cases h
    exact hv
  | @function s hkind hs =>
    have hget : m.slots.getPath [s.key, "function"] = some v := h
    rw [Nbt.getPath_pair] at hget
    obtain ⟨w, hw, hf⟩ := Option.bind_eq_some_iff.1 hget
    have hslot : m.slot s.key = w := by
      simp [Machine.slot, hw]
    have hfair : w.Fair L n := hslot ▸ hm.slot_fair hs
    obtain ⟨id, rfl⟩ := hfair.wellFormed.function_text hf
    rw [hkind]
    exact ⟨id, rfl⟩

/-- What is written as an argument of a routine. -/
theorem Uses.ArgFits.holds {G : Uses} {target : Option Slot} {use : ArgUse}
    (hfits : G.ArgFits target use source) (h : m.take channel source = some v) :
    G.ArgHolds target use v := by
  cases use with
  | reads | writes | waits | record | calls | kind =>
    obtain ⟨x, hx, rfl⟩ := hfits
    cases h
    exact ⟨x, hx, rfl⟩
  | other | foreign => trivial

/-- What is written to an entry of a channel. -/
theorem Tidy.take_entry (hm : Tidy L n m) (hc : L.uses.channel c = some use)
    (hentry : L.uses.EntryFits name source use) (h : m.take channel source = some v) :
    EntryTidy L n c.key name v := by
  cases use with
  | library r target =>
    have hfits : L.uses.ArgFits target (r.argUse name) source := hentry
    refine .ofUse hc (hfits.holds h) (fun hname => ?_) ?_
    · rw [r.argUse_valueEntry hname] at hfits
      exact hfits
    · rintro rfl
      have huse : r.argUse "return" = .foreign := by
        cases r <;> decide
      rw [huse] at hfits
      exact hfits
  | answer d s => exact hentry.elim
  | call result =>
    rcases hentry with ⟨hname, hgives⟩ | ⟨rfl, rfl⟩
    · exact .ofPassed (.call hc) (fun _ => hm.take_fair hgives h)
        fun hreturn => absurd hreturn (valueEntry_ne hname).1
    · cases h
      exact .ofPassed (.call hc) (fun hname => absurd rfl (valueEntry_ne hname).1)
        fun _ => ⟨result.key, rfl, rfl⟩
  | each unit =>
    rcases hentry with ⟨rfl, s, _, rfl⟩ | ⟨rfl, rfl⟩ | ⟨rfl, c', hc', rfl⟩
    · exact .ofUse hc ⟨by simp, by simp⟩ (fun h => (valueEntry_ne h).2.2.2.2.1 rfl) (by simp)
    · cases h
      exact .ofUse hc ⟨fun _ => rfl, by simp⟩ (fun h => (valueEntry_ne h).2.2.2.2.2.1 rfl) (by simp)
    · cases h
      exact .ofUse hc ⟨by simp, fun _ => ⟨c', hc', rfl⟩⟩
        (fun h => (valueEntry_ne h).2.2.2.2.2.2 rfl) (by simp)
  | filled => exact hentry.elim

end

/-! ### Writes and calls -/

namespace Run

variable {L : Limits} {n : Nat} {m : Machine} {call : Executor} {channel : Option String}

section

variable (hm : Tidy L n m)

include hm

/-- A write keeps to the limits if it does for whatever is written. -/
theorem set_keeps {target : Place}
    (hwrite : ∀ v, m.take channel source = some v →
      Keeps L n m (write target.address.storage target.fullPath v) fun _ _ => Q)
    (hskip : (m.holds guard = true → m.take channel source = none) → Q m) :
    Keeps L n m (step call channel (.set guard target source)) fun _ _ => Q := by
  unfold Keeps
  rw [step_set]
  cases hholds : m.holds guard with
  | false => exact ⟨n, .refl hm, hskip (by simp [hholds])⟩
  | true =>
    cases htake : m.take channel source with
    | none => exact ⟨n, .refl hm, hskip fun _ => htake⟩
    | some v => exact (hwrite v htake).bind fun _ _ _ h' hQ => .pure h'.tidy hQ

/-- A value is written to a slot with a use. -/
theorem setUsed_keeps {use : SlotUse} (hs : L.uses.slot s = some use) (huse : use ≠ .address)
    (hholds : use.Holds L n s v) (hfree : L.Free s.key) :
    Keeps L n m (write .slots [s.key] v) fun _ _ m' =>
      m'.slots.get? s.key = some v ∧ m'.channels = m.channels := by
  refine setSlot_keeps hm hfree (hholds.slotTidy hs) fun a d _ hd hkey => ?_
  obtain rfl := Slot.key_injective hkey
  exact absurd (Option.some.inj (hs.symm.trans hd)) huse

/-- A return address is written. -/
theorem setAddress_keeps (hd : L.uses.slot d = some .address) (ht : L.uses.Returns t)
    (haway : L.Free t) (hfree : L.Free d.key) :
    Keeps L n m (write .slots [d.key] (.string t)) fun _ _ m' => L.Away m' d := by
  have hholds : SlotUse.address.Holds L n d (.string t) := ⟨t, rfl, ht⟩
  refine (setSlot_keeps hm hfree (hholds.slotTidy hd) fun a _ ha _ _ h => ?_).imp
    fun _ _ m' _ hget => ⟨fun a ha _ h => ?_, fun _ => ?_⟩
  · exact haway a ha (Nbt.string.inj h)
  · exact haway a ha (Nbt.string.inj (Option.some.inj (hget.1.symm.trans h)))
  · rw [hget.1]
    rfl

/-- A return code is stored in a slot for one. -/
theorem storeCode_keeps {store : Option Place}
    (hstore : ∀ p, store = some p → ∃ s, p = .slot s ∧ L.uses.slot s = some .code ∧ L.Free s.key)
    (code : Int32) : GoesOn L n m (storeCode store code) := by
  cases store with
  | none => exact .pure hm trivial
  | some place =>
    obtain ⟨s, rfl, hs, hfree⟩ := hstore place rfl
    exact (setUsed_keeps hm hs nofun ⟨code, rfl⟩ hfree).goesOn

theorem invoke_keeps {target : Callee} {store : Option Place}
    (hstore : ∀ p, store = some p → ∃ s, p = .slot s ∧ L.uses.slot s = some .code ∧ L.Free s.key)
    (hcallee : GoesOn L n m (callee call (args.map (·.key)) target)) :
    GoesOn L n m (step call channel (.invoke guard target args store)) := by
  unfold GoesOn Keeps
  rw [step_invoke]
  cases m.holds guard with
  | false => exact ⟨n, .refl hm, trivial⟩
  | true =>
    refine hcallee.bind fun n1 code m1 h1 _ => ?_
    refine (storeCode_keeps h1.tidy hstore code).bind fun n2 _ m2 h2 _ => ?_
    exact .pure h2.tidy trivial

/-- An argument with the use of its channel. -/
theorem Tidy.argument (hc : L.uses.channel c = some use)
    (ht : Args.text? ⟨c.key, m.filled c.key⟩ name = some t) :
    L.uses.EntryHolds name (.string t) use := by
  obtain ⟨v, hv, htext⟩ := Option.bind_eq_some_iff.1 ht
  have hholds := (hm.filled hv).holds c use rfl hc
  cases v with
  | string t' =>
    cases htext
    exact hholds
  | _ => cases htext

/-- A loop over an array calls the unit that its channel is for. -/
theorem each_keeps {unit : String} (hc : L.uses.channel c = some (.each unit))
    (hfound : L.unfailing → Routine.loopArray.Finds ⟨c.key, m.filled c.key⟩)
    (hunit : ∀ key, L.Opens key → ∀ n' m', Proceeds L n m n' m' →
      GoesOn L n' m' (call unit (some key))) :
    GoesOn L n m (callee call (some c.key) (.library .loopArray)) := by
  refine .get hm ?_
  refine .look hm valueArgument_looks (fun h => (hfound h).value (by decide)) fun array _ => ?_
  split
  · refine .look hm argument_looks (fun h => (hfound h).argument (by decide))
      fun function hfunction => ?_
    have hholds : L.uses.EachHolds unit "function" (.string function) :=
      Tidy.argument hm hc hfunction
    obtain rfl := Nbt.string.inj (hholds.function rfl)
    refine .read hm (hm.unitOf_run unit) ?_
    refine .look hm argument_looks (fun h => (hfound h).argument (by decide)) fun key hkey => ?_
    have hholds : L.uses.EachHolds unit "channel" (.string key) := Tidy.argument hm hc hkey
    obtain ⟨c', hc', hkey'⟩ := hholds.channel rfl
    obtain rfl := Nbt.string.inj hkey'
    have hopens : L.Opens c'.key := ⟨_, .filled hc', nofun⟩
    exact eachElement_keeps hm hopens.passes (hunit _ hopens) _ _
  · exact .pure hm trivial

/-- A value is handed to the caller, if the return address does not lead to the slot that is not to
    be written. -/
theorem setVariable_keeps (hc : L.uses.channel c = some (.answer d s)) (hs : L.uses.IsValue s)
    (hfound : L.unfailing → Routine.setVariable.Finds ⟨c.key, m.filled c.key⟩)
    (hfree : ∀ t, Args.text? ⟨c.key, m.filled c.key⟩ "target" = some t → L.Free t) :
    GoesOn L n m (callee call (some c.key) (.library .setVariable)) := by
  refine .get hm (.normally ?_)
  refine .look hm argument_looks (fun h => (hfound h).argument (by decide)) fun t ht => ?_
  have htarget : L.uses.AnswerHolds s "target" (.string t) := Tidy.argument hm hc ht
  obtain ⟨_, ⟨⟩, hreturns⟩ := htarget.target rfl
  split
  · next hempty =>
    have hnonempty : t ≠ "" := by
      rintro rfl
      simp at hempty
    refine .look hm slotArgument_looks (fun h => (hfound h).slot (by decide)) ?_
    rintro _ ⟨source, hsource, rfl⟩
    have hvalue : L.uses.AnswerHolds s "source" (.string source) := Tidy.argument hm hc hsource
    obtain rfl := Nbt.string.inj (hvalue.source rfl)
    refine setValue_keeps hm (hfree t ht) (hreturns.slotTidy hnonempty (hm.slot_fair hs))
      fun d hd hkey => ?_
    rcases hreturns with h | rfl | ⟨s, root, hs, rfl⟩
    · exact hnonempty h
    · obtain ⟨digits, hlist, _⟩ := d.toList_key
      rw [← hkey] at hlist
      simp [hostResult] at hlist
    · obtain rfl := Slot.key_injective hkey
      cases hs.symm.trans hd
  · exact .pure hm trivial

end

end Run

/-! ### Calls from code -/

/-- A unit of the first role can enter one of the second as its part. -/
structure UnitRole.HasPart (u r : UnitRole) : Prop where
  ofFunction : r.ofFunction = u.ofFunction
  breakable : r.breakable = true → r.kind.takesBreak = true ∨ u.breakable = true

/-- The unit is a part of the present function, and the return address that it relies on does not
    lead to the slot that is not to be written. -/
structure Limits.Enters (L : Limits) (site : Site) (m : Machine) (unit : String) (u : UnitUse) :
    Prop where
  unit : L.uses.unit unit = some u
  part : u.isPart = true
  root : u.root = site.root
  owner : u.owner = some site.owner
  role : site.role.HasPart u.role
  away : ∀ d, u.home = some d → L.Away m d

/-- Units that are called from code keep to the limits: function values, functions that are called
    by their names, and parts of the present function. -/
structure Executors (L : Limits) (site : Site) (call : Bool → Executor) : Prop where
  value : (call false).Keeps L
  direct : ∀ unit key n m, Tidy L n m → L.uses.IsCalled unit → L.uses.MayCall site.owner unit →
    L.Opens key → Run.Keeps L n m (call true unit (some key)) fun _ _ _ => True
  part : ∀ unit u channel n m, Tidy L n m → L.Enters site m unit u →
    (∀ key, channel = some key → L.Opens key) →
    Run.Keeps L n m (call true unit channel) fun _ _ _ => True

section

variable {L : Limits} {n : Nat} {m : Machine} {call : Bool → Executor} {channel : Option String}
  {site : Site}

theorem Limits.Leaves.set {target : Place} (h : L.Leaves (.set guard target source))
    (hs : target.address = .slot s) : L.Free s.key := by
  intro a ha hkey
  exact h a ha s hs (Slot.key_injective hkey)

theorem Limits.Leaves.target {callee : Callee} {store : Option Place}
    (h : L.Leaves (.invoke guard callee (some c) store)) (hc : L.uses.channel c = some use)
    (hs : use.target? = some s) : L.Free s.key := by
  intro a ha hkey
  obtain ⟨use', huse', htarget⟩ := (h a ha).1 c rfl
  obtain rfl := Option.some.inj (hc.symm.trans huse')
  exact htarget s hs (Slot.key_injective hkey)

theorem Limits.Leaves.store {callee : Callee}
    (h : L.Leaves (.invoke guard callee args (some (.slot s)))) : L.Free s.key := by
  intro a ha hkey
  exact (h a ha).2 _ s rfl rfl (Slot.key_injective hkey)

end

/-! ### Instructions one after the other -/

namespace Run

variable {L : Limits} {n : Nat} {m : Machine} {call : Bool → Executor} {channel : Option String}
  {check : List Instr → Machine → Option MachineError}

/-- An argument after an entry of the channel was written. -/
theorem text?_setPath {tree : Nbt} (hset : m.channels.setPath [c.key, name] v = some tree)
    (name' : String) :
    Args.text? ⟨c.key, (m.withStorage .channels tree).filled c.key⟩ name' =
      if name = name' then v.text? else Args.text? ⟨c.key, m.filled c.key⟩ name' := by
  obtain ⟨child, hchild, _, hget⟩ := Nbt.setPath_cons hset
  obtain ⟨_, hv, _, hentries⟩ := Nbt.setPath_cons hchild
  cases hv
  have hfilled : (m.withStorage .channels tree).filled c.key = child := by
    show (tree.get? c.key).getD .empty = child
    simp [hget]
  rw [hfilled, Args.text?, hentries]
  split
  · rfl
  · rfl

/-- An entry of a channel is written, and the other arguments in it stay. -/
theorem argument_keeps (hm : Tidy L n m) (hentry : EntryTidy L n c.key name v) :
    Keeps L n m (write .channels [c.key, name] v) fun _ _ m' => ∀ name',
      Args.text? ⟨c.key, m'.filled c.key⟩ name' =
        if name = name' then v.text? else Args.text? ⟨c.key, m.filled c.key⟩ name' := by
  obtain ⟨tree, hset, hproceeds⟩ := hm.writeEntry hentry
  exact write_keeps hset hproceeds (text?_setPath hset)

variable (hcheck : ∀ is m e, check is m = some e → L.Quiet e)

include hcheck

/-- The check may end the run, with an error that may come up. -/
theorem Keeps.stopIf {α : Type} {f : Unit → Run α} {Q : Nat → α → Machine → Prop} (hm : Tidy L n m)
    (hf : check is m = none → Keeps L n m (f ()) Q) : Keeps L n m (stopIf (check is) >>= f) Q := by
  cases hstop : check is m with
  | some e =>
    have hrun : Run.stopIf (check is) m = .error e m := by
      refine (bind_of_ok rfl).trans ?_
      rw [hstop]
      rfl
    unfold Keeps
    rw [bind_of_error hrun]
    exact ⟨n, .refl hm, hcheck is m e hstop⟩
  | none =>
    have hrun : Run.stopIf (check is) m = .ok () m := by
      refine (bind_of_ok rfl).trans ?_
      rw [hstop]
      rfl
    exact .onward (bind_of_ok hrun) (.refl hm) (hf hstop)

/-- Instructions one after the other. -/
theorem checkedSteps_cons {rest : List Instr} (hm : Tidy L n m) (hi : L.Permits check i)
    (hstep : L.Leaves i → L.Assigns i → Keeps L n m (step (call i.isDirect) channel i) fun _ _ => Q)
    (hrest : ∀ n' m', Proceeds L n m n' m' → Q m' →
      GoesOn L n' m' (checkedSteps check call channel rest)) :
    GoesOn L n m (checkedSteps check call channel (i :: rest)) := by
  refine .stopIf hcheck hm fun hnone => ?_
  obtain ⟨hleaves, hassigns⟩ := hi.resolve_right fun hends => hends rest m hnone
  refine (hstep hleaves hassigns).bind fun n1 code m1 h1 hQ => ?_
  cases code with
  | some code => exact .pure h1.tidy trivial
  | none => exact hrest n1 m1 h1 hQ

/-- The payload of a value of a known kind is written several times. -/
theorem payloads_keep {root : String} (hkind : kind.isReference = false)
    (payloads : List (Guard × Source)) (rest : List Instr) (hm : Tidy L n m)
    (hs : L.uses.slot s = some (.scalar root kind))
    (hpayloads : ∀ e ∈ payloads, L.uses.Payload kind e.2 ∧
      L.Permits check (.set e.1 (.field s "value") e.2))
    (hvalue : ∃ v, m.slots.get? s.key = some v ∧ v.ValueOf kind)
    (hrest : ∀ n' m', Proceeds L n m n' m' →
      GoesOn L n' m' (checkedSteps check call channel rest)) :
    GoesOn L n m (checkedSteps check call channel
      ((payloads.map fun e => .set e.1 (.field s "value") e.2) ++ rest)) := by
  induction payloads generalizing n m with
  | nil => exact hrest n m (.refl hm)
  | cons e payloads ih =>
    obtain ⟨old, hold, hkindold⟩ := hvalue
    obtain ⟨hsource, hpermits⟩ := hpayloads e List.mem_cons_self
    refine checkedSteps_cons (Q := fun m' => ∃ v, m'.slots.get? s.key = some v ∧
      v.ValueOf kind) hcheck
      hm hpermits (fun hleaves _ => set_keeps hm (fun v hv => ?_) fun _ => ?_) ?_
    · -- the write finds the value that was there, and changes its payload only
      have hentries : old.Entries fun _ _ => True := ⟨hkindold.compound, fun _ _ _ => trivial⟩
      obtain ⟨child, hchild, _⟩ :=
        @Nbt.Entries.setEntry (fun _ _ => True) _ "value" v hentries trivial
      have hnew := hkindold.setPayload hchild (hm.take_payload hsource hv)
      have hholds : (SlotUse.scalar root kind).Holds L n s child := ⟨hnew, hkind⟩
      have hset : ((m.slots.get? s.key).getD .empty).setPath ["value"] v = some child := by
        rw [hold]
        exact hchild
      obtain ⟨tree, htree, hproceeds, hget⟩ :=
        hm.writeSlot ["value"] hset (hleaves.set rfl) (hholds.slotTidy hs) fun a d _ hd hkey => by
          obtain rfl := Slot.key_injective hkey
          cases hs.symm.trans hd
      exact write_keeps htree hproceeds ⟨child, hget, hnew⟩
    · exact ⟨old, hold, hkindold⟩
    · intro n1 m1 h1 hvalue1
      exact ih h1.tidy (fun e' he' => hpayloads e' (List.mem_cons_of_mem e he')) hvalue1
        fun n' m' h' => hrest n' m' (h1.trans h')

/-- The return address is kept in a slot, or nothing if there is none. -/
theorem address_keeps (rest : List Instr) (hm : Tidy L n m) (hd : L.uses.slot d = some .address)
    (hpermits : L.Permits check (.set .always (.slot d) (.literal (.string ""))) ∧
      L.Permits check (.set .always (.slot d) (.param "return")))
    (hchannel : ∀ key, channel = some key → L.Opens key)
    (hrest : ∀ n' m', Proceeds L n m n' m' → L.Away m' d →
      GoesOn L n' m' (checkedSteps check call channel rest)) :
    GoesOn L n m (checkedSteps check call channel
      (.set .always (.slot d) (.literal (.string "")) ::
        .set .always (.slot d) (.param "return") :: rest)) := by
  have hempty : L.Free "" := by
    intro a _ h
    obtain ⟨digits, hkey, _⟩ := a.toList_key
    rw [← h] at hkey
    simp at hkey
  refine checkedSteps_cons hcheck hm hpermits.1 (Q := fun m' => L.Away m' d)
    (fun hleaves _ => set_keeps hm (fun v hv => ?_) fun hskip => ?_) fun n1 m1 h1 haway1 => ?_
  · cases hv
    exact setAddress_keeps hm hd (.inl rfl) hempty (hleaves.set rfl)
  · exact nomatch hskip rfl
  · refine checkedSteps_cons hcheck h1.tidy hpermits.2 (Q := fun m' => L.Away m' d)
      (fun hleaves _ => set_keeps h1.tidy (fun v hv => ?_) fun _ => haway1)
      fun n2 m2 h2 haway2 => ?_
    · obtain ⟨key, hkey, hentry⟩ := h1.tidy.take_param hv
      obtain ⟨result, hpasses, hresult⟩ := hchannel key hkey
      obtain ⟨t, ht, rfl⟩ := hentry.returned result hpasses rfl
      obtain ⟨hreturns, hother⟩ := hresult t ht
      exact setAddress_keeps h1.tidy hd hreturns hother (hleaves.set rfl)
    · exact hrest n2 m2 (h1.trans h2) haway2

/-- The entries of a channel are written one after the other. -/
theorem entries_keep {use : ChannelUse} (entries : Compile.Entries) (rest : List Instr)
    (hm : Tidy L n m)
    (hc : L.uses.channel c = some use)
    (hfits : ∀ e ∈ entries, L.uses.EntryFits e.1 e.2 use)
    (hpermits : ∀ e ∈ entries, L.Permits check (.set .always (.entry c e.1) e.2))
    (hrest : ∀ n' m', Proceeds L n m n' m' →
      ((entries.map (·.1)).Nodup → ∀ t ∈ entries, ∀ text, t.2 = .text text →
        Args.text? ⟨c.key, m'.filled c.key⟩ t.1 = some text) →
      (∀ name, name ∉ entries.map (·.1) →
        Args.text? ⟨c.key, m'.filled c.key⟩ name = Args.text? ⟨c.key, m.filled c.key⟩ name) →
      GoesOn L n' m' (checkedSteps check call channel rest)) :
    GoesOn L n m (checkedSteps check call channel
      ((entries.map fun e => .set .always (.entry c e.1) e.2) ++ rest)) := by
  induction entries generalizing n m with
  | nil => exact hrest n m (.refl hm) (fun _ => nofun) fun _ _ => rfl
  | cons e entries ih =>
    refine checkedSteps_cons hcheck hm (hpermits e List.mem_cons_self)
      (Q := fun m' => (∀ text, e.2 = .text text →
          Args.text? ⟨c.key, m'.filled c.key⟩ e.1 = some text) ∧
        ∀ name, e.1 ≠ name →
          Args.text? ⟨c.key, m'.filled c.key⟩ name = Args.text? ⟨c.key, m.filled c.key⟩ name)
      (fun _ _ => set_keeps hm (fun v hv => ?_) fun hskip => ?_) fun n1 m1 h1 hQ => ?_
    · have hentry := hm.take_entry hc (hfits e List.mem_cons_self) hv
      refine (argument_keeps hm hentry).imp fun _ _ m' _ htext =>
        ⟨fun text he => ?_, fun name hne => ?_⟩
      · rw [he] at hv
        cases hv
        rw [htext, if_pos rfl]
        rfl
      · rw [htext, if_neg hne]
    · refine ⟨fun text he => ?_, fun _ _ => rfl⟩
      rw [he] at hskip
      exact nomatch hskip rfl
    · refine ih h1.tidy (fun e' he' => hfits e' (List.mem_cons_of_mem e he'))
        (fun e' he' => hpermits e' (List.mem_cons_of_mem e he')) fun n2 m2 h2 hgiven hother => ?_
      refine hrest n2 m2 (h1.trans h2) (fun hnodup e' he' text htext => ?_) fun name hname => ?_
      · obtain ⟨hnew, hnodup⟩ := List.nodup_cons.1 hnodup
        rcases List.mem_cons.1 he' with rfl | he'
        · rw [hother _ hnew]
          exact hQ.1 text htext
        · exact hgiven hnodup e' he' text htext
      · rw [List.map_cons, List.mem_cons, not_or] at hname
        rw [hother name hname.2, hQ.2 name (Ne.symm hname.1)]

/-- A channel is filled. The texts that are written are its arguments then, if each has its name. -/
theorem fill_keeps {use : ChannelUse} (entries : Compile.Entries) (rest : List Instr)
    (hm : Tidy L n m)
    (hc : L.uses.channel c = some use)
    (hfits : ∀ e ∈ entries, L.uses.EntryFits e.1 e.2 use)
    (hpermits : ∀ i ∈ fillCode c entries, L.Permits check i)
    (hrest : ∀ n' m', Proceeds L n m n' m' →
      ((entries.map (·.1)).Nodup → ∀ name t, (name, .text t) ∈ entries →
        Args.text? ⟨c.key, m'.filled c.key⟩ name = some t) →
      GoesOn L n' m' (checkedSteps check call channel rest)) :
    GoesOn L n m (checkedSteps check call channel (fillCode c entries ++ rest)) := by
  refine checkedSteps_cons hcheck hm (hpermits _ List.mem_cons_self) (Q := fun _ => True)
    (fun _ _ => set_keeps hm (fun v hv => ?_) fun _ => trivial) fun n1 m1 h1 _ => ?_
  · cases hv
    exact setChannel_keeps hm (frame_tidy c.key)
  · refine entries_keep hcheck entries rest h1.tidy hc hfits
      (fun e he => hpermits _ (List.mem_cons_of_mem _ (List.mem_map_of_mem he)))
      fun n2 m2 h2 hgiven _ => ?_
    exact hrest n2 m2 (h1.trans h2) fun hnodup name t ht => hgiven hnodup _ ht t rfl

/-- A value is handed to the caller: the channel is cleared, and filled again. -/
theorem answerCode_keeps (rest : List Instr) (hm : Tidy L n m)
    (hpermits : ∀ i ∈ Uses.answerCode c d s, L.Permits check i)
    (hc : L.uses.channel c = some (.answer d s)) (hd : L.uses.slot d = some .address)
    (hs : L.uses.IsValue s) (haway : L.Away m d)
    (hrest : ∀ n' m', Proceeds L n m n' m' →
      GoesOn L n' m' (checkedSteps check call channel rest)) :
    GoesOn L n m (checkedSteps check call channel (Uses.answerCode c d s ++ rest)) := by
  -- the target in the channel never leads to the slot that is not to be written
  let Safe (m' : Machine) : Prop := ∀ t, Args.text? ⟨c.key, m'.filled c.key⟩ "target" = some t →
    L.Free t
  let Told (m' : Machine) : Prop := L.unfailing →
    ∃ t, Args.text? ⟨c.key, m'.filled c.key⟩ "target" = some t
  refine checkedSteps_cons hcheck hm (hpermits _ (by simp)) (Q := Safe)
    (fun _ _ => set_keeps hm (fun v hv => ?_) fun hskip => ?_) fun n1 m1 h1 hsafe1 => ?_
  · cases hv
    obtain ⟨tree, hset, hproceeds⟩ := hm.writeChannel (frame_tidy c.key)
    refine write_keeps hset hproceeds fun t ht => ?_
    obtain ⟨child, hchild, _, hget⟩ := Nbt.setPath_cons hset
    cases hchild
    have hfilled : (m.withStorage .channels tree).filled c.key =
        .compound [("frame", .string c.key)] := by
      show (tree.get? c.key).getD .empty = _
      simp [hget, frame]
    have ht : Args.text? ⟨c.key, (m.withStorage .channels tree).filled c.key⟩ "target" = some t :=
      ht
    rw [hfilled] at ht
    simp [Args.text?, Nbt.get?, Table.find?] at ht
  · cases hskip rfl
  refine checkedSteps_cons hcheck h1.tidy (hpermits _ (by simp)) (Q := fun m' => Safe m' ∧ Told m')
    (fun _ _ => set_keeps h1.tidy (fun v hv => ?_) fun hskip => ⟨hsafe1, fun hunfailing => ?_⟩)
    fun n2 m2 h2 hsafe2 => ?_
  · have hget : m1.slots.get? d.key = some v := (m1.read_slot d).symm.trans hv
    obtain ⟨t, rfl, hreturns⟩ := (h1.tidy.slots.2 _ _ hget).holds d _ rfl hd
    have hholds : L.uses.AnswerHolds s "target" (.string t) :=
      ⟨fun _ => ⟨t, rfl, hreturns⟩, by simp⟩
    have hentry : EntryTidy L n1 c.key "target" (.string t) :=
      .ofUse hc hholds (fun h => (valueEntry_ne h).2.2.1 rfl) (by simp)
    refine (argument_keeps h1.tidy hentry).imp fun _ _ m' _ htext => ⟨fun t' ht' => ?_, fun _ => ?_⟩
    · rw [htext, if_pos rfl] at ht'
      cases ht'
      intro a ha hkey
      exact (h1.away haway).away a ha hd (hkey ▸ hget)
    · exact ⟨t, (htext "target").trans (if_pos rfl)⟩
  · obtain ⟨v, hv⟩ := Option.isSome_iff_exists.1 ((h1.away haway).there hunfailing)
    cases (hskip rfl).symm.trans ((m1.read_slot d).trans hv)
  refine checkedSteps_cons hcheck h2.tidy (hpermits _ (by simp))
    (Q := fun m' => Safe m' ∧ (L.unfailing → Routine.setVariable.Finds ⟨c.key, m'.filled c.key⟩))
    (fun _ _ => set_keeps h2.tidy (fun v hv => ?_) fun hskip => ?_) fun n3 m3 h3 hsafe3 => ?_
  · cases hv
    have hholds : L.uses.AnswerHolds s "source" (.string s.key) := ⟨by simp, fun _ => rfl⟩
    have hentry : EntryTidy L n2 c.key "source" (.string s.key) :=
      .ofUse hc hholds (fun h => (valueEntry_ne h).2.2.2.1 rfl) (by simp)
    refine (argument_keeps h2.tidy hentry).imp fun _ _ m' _ htext =>
      ⟨fun t ht => hsafe2.1 t ((htext "target").symm.trans ht),
        fun hunfailing => ⟨fun x hx => ?_, by simp⟩⟩
    simp only [Routine.args, List.mem_cons, List.not_mem_nil, or_false] at hx
    rcases hx with rfl | rfl
    · obtain ⟨t, ht⟩ := hsafe2.2 hunfailing
      exact ⟨t, (htext "target").trans ht, by simp⟩
    · exact ⟨s.key, (htext "source").trans (if_pos rfl), by simp⟩
  · cases hskip rfl
  refine checkedSteps_cons hcheck h3.tidy (hpermits _ (by simp)) (Q := fun _ => True)
    (fun _ _ => ?_) fun n4 m4 h4 _ => ?_
  · exact invoke_keeps h3.tidy (by simp) (setVariable_keeps h3.tidy hc hs hsafe3.2 hsafe3.1)
  · exact hrest n4 m4 (((h1.trans h2).trans h3).trans h4)

/-- A routine is called with a channel that was filled for it. -/
theorem library_keeps {r : Routine} {target : Option Slot} {entries : Compile.Entries} {site : Site}
    (rest : List Instr) (hm : Tidy L n m)
    (hcode : ∀ i ∈ fillCode c entries ++ [.invoke .always (.library r) (some c) none],
      L.Permits check i)
    (hvalue : (call false).Keeps L) (hc : L.uses.channel c = some (.library r target))
    (hr : r ≠ .setVariable ∧ r ≠ .loopArray)
    (htarget : ∀ s, target = some s → L.uses.Target site s) (hnodup : (entries.map (·.1)).Nodup)
    (hfits : ∀ e ∈ entries, L.uses.EntryFits e.1 e.2 (.library r target))
    (hserved : r.Served fun name t => (name, .text t) ∈ entries)
    (hrest : ∀ n' m', Proceeds L n m n' m' →
      GoesOn L n' m' (checkedSteps check call channel rest)) :
    GoesOn L n m (checkedSteps check call channel
      (fillCode c entries ++ [.invoke .always (.library r) (some c) none] ++ rest)) := by
  have hdirect : Instr.isDirect (.invoke .always (.library r) (some c) none) = false := by
    simp [Instr.isDirect, Callee.isDirect, hr.2]
  rw [List.append_assoc]
  refine fill_keeps hcheck entries _ hm hc hfits
    (fun i hi => hcode i (List.mem_append_left _ hi)) fun n1 m1 h1 hgiven => ?_
  refine checkedSteps_cons hcheck h1.tidy (hcode _ (by simp)) (Q := fun _ => True)
    (fun hleaves _ => ?_) fun n' m' h' _ => hrest n' m' (h1.trans h')
  rw [hdirect]
  have hargs : ArgsTidy L r target ⟨c.key, m1.filled c.key⟩ :=
    ⟨fun name v hv => (h1.tidy.filled hv).holds c _ rfl hc, fun _ => hserved.imp (hgiven hnodup)⟩
  have hresult : L.Target target := fun s hs =>
    ⟨⟨site.root, (htarget s hs).imp_right And.left⟩, hleaves.target hc hs⟩
  exact invoke_keeps h1.tidy nofun
    (.get h1.tidy (routine_keeps h1.tidy hvalue hargs hresult hr))

end Run

/-! ### Pieces -/

section

variable {L : Limits} {n : Nat} {m : Machine} {call : Bool → Executor} {channel : Option String}
  {check : List Instr → Machine → Option MachineError} {site : Site} {writes : Slot → Prop}
  {a b : Option Slot}

/-- A part is entered where the return address that it relies on is kept. -/
theorem Uses.PartOf.enters {unit : String} {u : UnitUse} (h : L.uses.PartOf site a unit u)
    (hkept : L.Kept a m) : L.Enters site m unit u where
  unit := h.unit
  part := h.part
  root := h.root
  owner := h.owner
  role := ⟨by simp [UnitUse.role, Site.role, h.depth], h.breakable⟩
  away d hd := by
    rcases h.home with hnone | ha
    · simp [hnone] at hd
    · exact hkept d (ha ▸ hd)

/-- The payload of a slot that is only tested is written. -/
theorem Run.setFlag_keeps {root : String} (hm : Tidy L n m) (hs : L.uses.slot s = some (.flag root))
    (hfree : L.Free s.key) : GoesOn L n m (write .slots [s.key, "value"] v) := by
  have hold : (SlotUse.flag root).Holds L n s ((m.slots.get? s.key).getD .empty) := by
    cases hs' : m.slots.get? s.key with
    | none => exact ⟨⟨[], rfl⟩, Nbt.refers_of_no_type rfl⟩
    | some old => exact (hm.slots.2 _ _ hs').holds s _ rfl hs
  have hentries : ((m.slots.get? s.key).getD .empty).Entries fun _ _ => True :=
    ⟨hold.1, fun _ _ _ => trivial⟩
  obtain ⟨child, hchild, hcompound, hget⟩ :=
    @Nbt.Entries.setEntry (fun _ _ => True) _ "value" v hentries trivial
  -- the payload makes no reference of what was there
  have hholds : (SlotUse.flag root).Holds L n s child :=
    ⟨hcompound.1, hold.2.payload ((hget "type").trans (if_neg (by simp)))⟩
  obtain ⟨tree, htree, hproceeds, _⟩ :=
    hm.writeSlot ["value"] hchild hfree (hholds.slotTidy hs) fun a d _ hd hkey => by
      obtain rfl := Slot.key_injective hkey
      cases hs.symm.trans hd
  exact write_keeps htree hproceeds trivial

variable (hcheck : ∀ is m e, check is m = some e → L.Quiet e)

include hcheck

/-- A piece of code that keeps to the uses, and what comes after it. -/
theorem Uses.Piece.steps_keep (h : L.uses.Piece site writes a is) (rest : List Instr)
    (hm : Tidy L n m) (hkept : L.Kept a m) (hcode : ∀ i ∈ is, L.Permits check i)
    (hcalls : Executors L site call)
    (hrest : ∀ n' m', Proceeds L n m n' m' →
      Run.GoesOn L n' m' (Run.checkedSteps check call channel rest)) :
    Run.GoesOn L n m (Run.checkedSteps check call channel (is ++ rest)) := by
  have hone : ∀ {i}, L.Permits check i →
      (L.Leaves i → L.Assigns i → Run.GoesOn L n m (Run.step (call i.isDirect) channel i)) →
      Run.GoesOn L n m (Run.checkedSteps check call channel ([i] ++ rest)) := fun hi hstep =>
    Run.checkedSteps_cons hcheck hm hi hstep fun n' m' h' _ => hrest n' m' h'
  -- what is written never matters for the rest, so a single write has no postcondition
  have hset : ∀ {guard target source}, L.Permits check (.set guard target source) →
      (L.Leaves (.set guard target source) → L.Assigns (.set guard target source) →
        ∀ v, m.take channel source = some v →
          Run.GoesOn L n m (Run.write target.address.storage target.fullPath v)) →
      Run.GoesOn L n m (Run.checkedSteps check call channel ([.set guard target source] ++ rest)) :=
    fun hi hwrite => hone hi fun hleaves hassigns =>
      Run.set_keeps hm (hwrite hleaves hassigns) fun _ => trivial
  have hslot : ∀ {s use v}, L.uses.slot s = some use → use ≠ .address → use.Holds L n s v →
      L.Free s.key → Run.GoesOn L n m (Run.write .slots [s.key] v) :=
    fun hs huse hholds hfree => (Run.setUsed_keeps hm hs huse hholds hfree).goesOn
  have hissued : ∀ r : Record, r.index < L.uses.records → Issued n r.key :=
    fun r hr => ⟨r, Nat.lt_of_lt_of_le hr hm.base, rfl⟩
  cases h with
  | @value guard s source _ hs _ _ hsource =>
    refine hset (hcode _ List.mem_cons_self) fun hleaves hassigns v hv => ?_
    have hfair := hm.take_fair hsource.gives hv
    have hfree := hleaves.set rfl
    rcases hs with ⟨kind, loop, hs⟩ | hs
    · refine hslot hs nofun ⟨hfair, ?_⟩ hfree
      rcases hassigns guard s source rfl with hall | ⟨w, rfl, hw⟩
      · exact hall v
      · cases hv
        exact hw
    · exact hslot hs nofun hfair hfree
  | flag hs _ a =>
    refine hset (hcode _ List.mem_cons_self) fun hleaves _ v hv => ?_
    cases hv
    exact hslot hs nofun ⟨⟨_, rfl⟩, a.refers _⟩ (hleaves.set rfl)
  | raised _ hs _ _ =>
    exact hset (hcode _ List.mem_cons_self) fun hleaves _ v _ =>
      Run.setFlag_keeps hm hs (hleaves.set rfl)
  | listener hs _ hid =>
    refine hset (hcode _ List.mem_cons_self) fun hleaves _ v hv => ?_
    cases hv
    exact hslot hs nofun (Nbt.proper_function (.inl rfl) hid.isFunction) (hleaves.set rfl)
  | code hs _ code =>
    refine hset (hcode _ List.mem_cons_self) fun hleaves _ v hv => ?_
    cases hv
    exact hslot hs nofun ⟨code, rfl⟩ (hleaves.set rfl)
  | @record r prototype hr hprototype =>
    refine hset (hcode _ List.mem_cons_self) fun _ _ v hv => ?_
    cases hv
    refine Run.writeHeap_keeps hm (hm.heap.setPath (hissued r hr) rfl (emptyRecord_holds ?_))
    exact fun q hq => ⟨Nbt.wellFormed_reference rfl q.key,
      Nbt.refers_slot _ _ (hissued q (hprototype q hq)), Nbt.calls_slot _ _ nofun⟩
  | @property r name source hr hsource =>
    refine hset (hcode _ List.mem_cons_self) fun _ _ v hv => ?_
    exact Run.writeHeap_keeps hm (hm.heap.setProperty (hissued r hr)
      (hm.take_fair hsource.gives hv))
  | returnIf | returnWith =>
    exact hone (hcode _ List.mem_cons_self) fun _ _ => ⟨n, .refl hm, trivial⟩
  | raw =>
    exact hone (hcode _ List.mem_cons_self) fun _ _ =>
      ⟨n, .ofSlots (Nat.le_refl n) { hm with } rfl, trivial⟩
  | @scalar s a payloads hs _ hpayloads =>
    have hholds : (SlotUse.scalar site.root a.kind).Holds L n s a.slot :=
      ⟨a.valueOf_kind, a.kind_isReference⟩
    refine Run.checkedSteps_cons hcheck hm (hcode _ List.mem_cons_self)
      (Q := fun m' => m'.slots.get? s.key = some a.slot)
      (fun hleaves _ => Run.set_keeps hm (fun v hv => ?_) fun hskip => ?_)
      fun n1 m1 h1 hvalue => ?_
    · cases hv
      exact (Run.setUsed_keeps hm hs nofun hholds (hleaves.set rfl)).imp fun _ _ _ _ h => h.1
    · exact nomatch hskip rfl
    · have hpermitted : ∀ e ∈ payloads, L.uses.Payload a.kind e.2 ∧
          L.Permits check (.set e.1 (.field s "value") e.2) := fun e he =>
        ⟨(hpayloads e he).2.2, hcode _ (List.mem_cons_of_mem _ (List.mem_map_of_mem he))⟩
      exact Run.payloads_keep hcheck a.kind_isReference payloads rest h1.tidy hs hpermitted
        ⟨_, hvalue, a.valueOf_kind⟩ fun n' m' h' => hrest n' m' (h1.trans h')
  | library hc htarget hentries =>
    exact Run.library_keeps hcheck rest hm hcode hcalls.value hc
      ⟨hentries.routine.1, hentries.routine.2.1⟩ (fun s hs => (htarget s hs).1) hentries.nodup
      hentries.fits hentries.served hrest
  | @call c result entries unit use hc hresult _ hentries hunit hbody hmay =>
    rw [List.append_assoc]
    refine Run.fill_keeps hcheck entries _ hm hc hentries.entryFits
      (fun i hi => hcode i (List.mem_append_left _ hi)) fun n1 m1 h1 _ => ?_
    refine Run.checkedSteps_cons hcheck h1.tidy (hcode _ (by simp)) (Q := fun _ => True)
      (fun hleaves _ => Run.invoke_keeps h1.tidy nofun ?_)
      fun n' m' h' _ => hrest n' m' (h1.trans h')
    refine hcalls.direct unit c.key n1 m1 h1.tidy ⟨use, hunit, hbody.part, hbody.home⟩ hmay
      ⟨_, .call hc, fun t ht => ?_⟩
    cases ht
    exact ⟨.inr (.inr ⟨result, site.root, hresult, rfl⟩), hleaves.target hc rfl⟩
  | @through c d result callee entries hc hd hresult _ hentries hcallee =>
    rw [List.append_assoc]
    refine Run.fill_keeps hcheck entries _ hm hc hentries.entryFits
      (fun i hi => hcode i (List.mem_append_left _ hi)) fun n1 m1 h1 _ => ?_
    have htarget : ∀ s, some result = some s → L.uses.Target site s := by
      rintro s ⟨⟩
      exact .inl hresult
    exact Run.library_keeps hcheck rest h1.tidy
      (fun i hi => hcode i (List.mem_append_right _ hi)) hcalls.value hd
        (by decide) htarget (by simp)
      (throughEntries_fit hc hresult hcallee.isValue) (throughEntries_served callee c)
      fun n' m' h' => hrest n' m' (h1.trans h')
  | @part guard unit u store _ hunit _ hstore =>
    refine hone (hcode _ List.mem_cons_self) fun hleaves _ => Run.invoke_keeps hm
      (fun p hp => ?_) ?_
    · obtain ⟨s, rfl, hs, _⟩ := hstore p hp
      subst hp
      exact ⟨s, rfl, hs, hleaves.store⟩
    · exact hcalls.part unit u none n m hm (hunit.enters hkept) nofun
  | @each c d array s unit u hc hd harray hunit _ hs _ =>
    rw [List.append_assoc]
    refine Run.fill_keeps hcheck _ _ hm hc (eachEntries_fit hd harray.isValue)
      (fun i hi => hcode i (List.mem_append_left _ hi)) fun n1 m1 h1 hgiven => ?_
    refine Run.checkedSteps_cons hcheck h1.tidy (hcode _ (by simp))
      (Q := fun m' => m'.channels = m1.channels)
      (fun hleaves _ => Run.set_keeps h1.tidy (fun v hv => ?_) fun _ => rfl)
      fun n2 m2 h2 hchannels => ?_
    · cases hv
      exact (Run.setUsed_keeps h1.tidy hs nofun ⟨_, rfl⟩ (hleaves.set rfl)).imp fun _ _ _ _ h => h.2
    · have hfilled : m2.filled c.key = m1.filled c.key := by rw [Machine.filled, hchannels]; rfl
      have hfound : Routine.loopArray.Finds ⟨c.key, m2.filled c.key⟩ := by
        rw [hfilled]
        exact (eachEntries_served _ _ _ _).imp (hgiven (by simp))
      refine Run.checkedSteps_cons hcheck h2.tidy (hcode _ (by simp)) (Q := fun _ => True)
        (fun hleaves _ => Run.invoke_keeps h2.tidy (fun p hp => ?_)
          (Run.each_keeps h2.tidy hc (fun _ => hfound) fun key hkey n' m' h' => ?_))
        fun n' m' h' _ => hrest n' m' ((h1.trans h2).trans h')
      · cases hp
        exact ⟨s, rfl, hs, hleaves.store⟩
      · have hkept' := hkept.proceeds ((h1.trans h2).trans h')
        refine hcalls.part unit u (some key) n' m' h'.tidy
          (hunit.enters hkept') fun key' hkey' => ?_
        cases hkey'
        exact hkey
  | answer hc hd haddress hs _ =>
    exact Run.answerCode_keeps hcheck rest hm hcode hc hd hs.isValue (hkept _ haddress) hrest

/-- Code that is made of pieces. -/
theorem Uses.Pieces.steps_keep (h : L.uses.Pieces site writes a is b) (hm : Tidy L n m)
    (hkept : L.Kept a m) (hcode : ∀ i ∈ is, L.Permits check i) (hcalls : Executors L site call)
    (hchannel : ∀ key, channel = some key → L.Opens key) :
    Run.GoesOn L n m (Run.checkedSteps check call channel is) := by
  induction h generalizing n m with
  | nil => exact .stopIf hcheck hm fun _ => .pure hm trivial
  | @cons a _ is js his _ ih =>
    refine his.steps_keep hcheck js hm hkept (fun i hi => hcode i (List.mem_append_left js hi))
      hcalls
      fun n' m' h' => ?_
    exact ih h'.tidy (hkept.proceeds h') fun i hi => hcode i (List.mem_append_right is hi)
  | @address _ _ d js hd _ _ _ ih =>
    obtain ⟨hclear, hcode⟩ := List.forall_mem_cons.1 hcode
    obtain ⟨hset, hcode⟩ := List.forall_mem_cons.1 hcode
    refine Run.address_keeps hcheck js hm hd ⟨hclear, hset⟩ hchannel fun n' m' h' haway => ?_
    exact ih h'.tidy (fun _ heq => Option.some.inj heq ▸ haway) hcode

end

end PackScript
