import PackScript.Proofs.Uses.Piece

namespace PackScript

/-!
# What follows from the pieces of code

* `Uses.Supplies.served` — a routine gets the arguments that it cannot do without.
* `Uses.Pieces.forall_mem` — what holds for the instructions of every piece holds for all code.
* `Uses.Pieces.chunks` — it mentions nothing but what it may.
-/

variable {c : Channel} {entries : Compile.Entries} {rest : List Instr} {shape : Shape}
  {result s : Slot} {source : Source} {S : Standing} {name : String} {u : UnitUse}

/-! ### Arguments of routines -/

namespace Uses

variable {G : Uses} {site : Site} {writes : Slot → Prop} {a b : Option Slot} {r : Routine}
  {target : Option Slot} {entries : Compile.Entries}

section

variable (h : G.ShapeFits S target shape source)

include h

/-- The argument is a text if a routine of the library expects one. -/
theorem ShapeFits.text {sort : ArgSort} (hsort : sort.admits shape = true) :
    ∃ t, source = .text t ∧ (sort = .operator → ∃ op : BinaryOp, t = op.text) := by
  have hany : shape = .operator ∨ sort ≠ .operator := by
    cases sort with
    | operator => exact .inl (by simpa [ArgSort.admits] using hsort)
    | _ => exact .inr nofun
  cases shape with
  | text =>
    obtain ⟨t, hsource⟩ := h
    exact ⟨t, hsource, fun hop => absurd hop (hany.resolve_left nofun)⟩
  | operator =>
    obtain ⟨op, hsource⟩ := h
    exact ⟨_, hsource, fun _ => ⟨op, rfl⟩⟩
  | other => cases sort <;> cases hsort
  | kind | record | channel | value | slot | result | listener =>
    obtain ⟨_, _, hsource⟩ := h
    exact ⟨_, hsource, fun hop => absurd hop (hany.resolve_left nofun)⟩

/-- The routine can use the argument so. -/
theorem ShapeFits.use {use : ArgUse} (huse : use.admits shape = true) :
    G.ArgFits target use source := by
  cases use with
  | reads =>
    cases shape with
    | value =>
      obtain ⟨s, hs, hsource⟩ := h
      exact ⟨s, hs.isValue, hsource⟩
    | _ => cases huse
  | writes =>
    cases shape with
    | result => exact h
    | _ => cases huse
  | waits =>
    cases shape with
    | value =>
      obtain ⟨s, hs, hsource⟩ := h
      exact ⟨s, .inl hs.isValue, hsource⟩
    | listener =>
      obtain ⟨s, hs, hsource⟩ := h
      exact ⟨s, .inr hs, hsource⟩
    | _ => cases huse
  | record =>
    cases shape with
    | record => exact h
    | _ => cases huse
  | calls =>
    cases shape with
    | channel =>
      obtain ⟨c, hc, hsource⟩ := h
      exact ⟨c, .inr hc, hsource⟩
    | _ => cases huse
  | kind =>
    cases shape with
    | kind => exact h
    | _ => cases huse
  | other => trivial
  | foreign => cases huse

/-- The argument may be mentioned. -/
theorem ShapeFits.seen : (G.permits S).source source := by
  cases shape with
  | other => exact h
  | kind | record | channel | value | slot | result | listener =>
    obtain ⟨_, _, rfl⟩ := h
    exact nofun
  | text | operator =>
    obtain ⟨_, rfl⟩ := h
    exact nofun

/-- A slot that is handed over may be mentioned. -/
theorem ShapeFits.slot (hshape : shape.isSlot = true) (hsource : source = .addressOf s)
    (htarget : ∀ s, target = some s → G.Sees S.depth s) : G.Sees S.depth s := by
  cases shape with
  | value =>
    obtain ⟨s', hs, hsource'⟩ := h
    exact Source.addressOf_inj.1 (hsource'.symm.trans hsource) ▸ hs.sees
  | slot =>
    obtain ⟨s', hs, hsource'⟩ := h
    exact Source.addressOf_inj.1 (hsource'.symm.trans hsource) ▸ hs
  | result =>
    obtain ⟨s', hs, hsource'⟩ := h
    exact Source.addressOf_inj.1 (hsource'.symm.trans hsource) ▸ htarget s' hs
  | listener =>
    obtain ⟨s', hs, hsource'⟩ := h
    exact Source.addressOf_inj.1 (hsource'.symm.trans hsource) ▸ sees_of_slot hs rfl _
  | _ => cases hshape

end

theorem Target.sees (h : G.Target site s) (depth : Nat) : G.Sees depth s := by
  rcases h with h | ⟨h, _⟩
  · exact sees_of_slot h rfl depth
  · exact sees_of_slot h rfl depth

section

variable (h : G.Supplies S r target entries)

include h

theorem Supplies.nodup : (entries.map (·.1)).Nodup := by
  obtain ⟨layout, hsupplied, haccepts⟩ := h
  exact hsupplied.names ▸ haccepts.nodup

/-- The routine has the arguments that it cannot do without. -/
theorem Supplies.served : r.Served fun name t => (name, .text t) ∈ entries := by
  obtain ⟨layout, hsupplied, haccepts⟩ := h
  refine ⟨fun arg harg => ?_, fun hr => ?_⟩
  · obtain ⟨l, hl, hname, hadmits⟩ := haccepts.args arg harg
    obtain ⟨_, hmem, hfits⟩ := hsupplied.entry hl
    obtain ⟨t, rfl, hop⟩ := hfits.text hadmits
    exact ⟨t, hname ▸ hmem, hop⟩
  · rcases haccepts.member hr with hl | hl
    · obtain ⟨_, hmem, t, rfl⟩ := hsupplied.entry hl
      exact ⟨t, .inl hmem⟩
    · obtain ⟨_, hmem, s, _, rfl⟩ := hsupplied.entry hl
      exact ⟨s.key, .inr hmem⟩

/-- The routine can use its arguments. -/
theorem Supplies.fits : ∀ e ∈ entries, G.EntryFits e.1 e.2 (.library r target) := by
  obtain ⟨layout, hsupplied, haccepts⟩ := h
  intro e he
  obtain ⟨shape, hmem, hfits⟩ := hsupplied.shape he
  exact hfits.use (haccepts.uses _ hmem)

/-- The arguments may be mentioned. -/
theorem Supplies.seen (htarget : ∀ s, target = some s → G.Sees S.depth s) :
    ∀ e ∈ entries, (G.permits S).Entry r.TakesSlot e := by
  obtain ⟨layout, hsupplied, haccepts⟩ := h
  intro e he
  obtain ⟨shape, hmem, hfits⟩ := hsupplied.shape he
  refine ⟨hfits.seen, fun s htakes hsource => ?_, haccepts.names _ hmem⟩
  exact hfits.slot (haccepts.slots _ hmem htakes) hsource htarget

theorem Supplies.routine : r ≠ .setVariable ∧ r ≠ .loopArray ∧ r ≠ .callFunction := by
  obtain ⟨layout, _, haccepts⟩ := h
  exact haccepts.routine

end

/-! ### Entries of calls -/

theorem CallEntries.entryFits (h : G.CallEntries S result entries) :
    ∀ e ∈ entries, G.EntryFits e.1 e.2 (.call result) :=
  fun e he => (h.fits e he).imp_left (And.imp_right (·.gives))

theorem CallEntries.seen (h : G.CallEntries S result entries) (hresult : G.Sees S.depth result) :
    ∀ e ∈ entries, (G.permits S).Entry CallTakesSlot e := by
  intro e he
  rcases h.fits e he with ⟨hname, hoffers⟩ | ⟨hname, hsource⟩
  · exact ⟨hoffers.seen, fun _ htakes => absurd htakes (valueEntry_ne hname).1,
      (valueEntry_ne hname).2.1⟩
  · refine ⟨hsource ▸ nofun, fun s _ hs => ?_, by simp [hname]⟩
    exact Source.addressOf_inj.1 (hsource.symm.trans hs) ▸ hresult

/-- The arguments for the call of a function that is a value. -/
theorem throughEntries_fit {callee : Slot} {root : String} (hc : G.channel c = some (.call result))
    (hresult : G.slot result = some (.result root)) (hcallee : G.IsValue callee) :
    ∀ e ∈ [("function", Source.addressOf callee), ("channel", .text c.key)],
      G.EntryFits e.1 e.2 (.library .callFunction (some result)) := by
  intro e he
  rcases List.mem_pair.1 he with rfl | rfl
  · exact ⟨callee, hcallee, rfl⟩
  · exact ⟨c, .inl ⟨result, root, rfl, hresult, hc⟩, rfl⟩

theorem throughEntries_served (callee : Slot) (c : Channel) : Routine.callFunction.Served
    fun name t => (name, .text t) ∈ [("function", Source.addressOf callee),
      ("channel", .text c.key)]
    where
  args x hx := by
    rcases List.mem_pair.1 hx with rfl | rfl
    · exact ⟨callee.key, List.mem_cons_self, by simp⟩
    · exact ⟨c.key, List.mem_cons_of_mem _ List.mem_cons_self, by simp⟩
  member := by simp

end Uses

/-! ### All instructions -/

/-- What holds for the instructions of each piece holds for all. -/
theorem Uses.Pieces.forall_mem {G : Uses} {site : Site} {writes : Slot → Prop} {a b : Option Slot}
    {is : List Instr} {P : Instr → Prop} (h : G.Pieces site writes a is b)
    (hpiece : ∀ a is, G.Piece site writes a is → ∀ i ∈ is, P i)
    (haddress : ∀ d, G.slot d = some .address →
      P (.set .always (.slot d) (.literal (.string ""))) ∧
        P (.set .always (.slot d) (.param "return"))) : ∀ i ∈ is, P i := by
  induction h with
  | nil => exact nofun
  | cons his _ ih => exact List.forall_mem_append.2 ⟨hpiece _ _ his, ih⟩
  | address hd _ _ _ ih =>
    exact List.forall_mem_cons.2 ⟨(haddress _ hd).1, List.forall_mem_cons.2 ⟨(haddress _ hd).2, ih⟩⟩

/-! ### What is mentioned -/

namespace Uses

variable {G : Uses} {site : Site} {writes : Slot → Prop} {a b : Option Slot} {is : List Instr}

/-- A write to a slot, or below it. -/
theorem chunk_write {P : Permits} {guard : Guard} {path : List String} (hguard : P.guard guard)
    (hs : P.slot s) (hsource : P.source source) : Chunk P [.set guard ⟨.slot s, path⟩ source] :=
  .write hguard hs hsource

theorem chunks_payloads {P : Permits} {s : Slot} (hs : P.slot s) :
    ∀ payloads : List (Guard × Source), (∀ e ∈ payloads, P.guard e.1 ∧ P.source e.2) →
      Chunks P (payloads.map fun e => .set e.1 (.field s "value") e.2)
  | [], _ => .nil
  | e :: payloads, h =>
    .cons (b := [_]) (chunk_write (h e List.mem_cons_self).1 hs (h e List.mem_cons_self).2)
      (chunks_payloads hs payloads fun e' he' => h e' (List.mem_cons_of_mem e he'))

theorem Piece.chunks (h : G.Piece site writes a is) :
    Chunks (G.permits site.toStanding) is := by
  have hslot : ∀ {s use}, G.slot s = some use → use.loop = none →
      (G.permits site.toStanding).slot s := fun hs hloop => sees_of_slot hs hloop _
  cases h with
  | value hguard _ hsees _ hsource => exact Chunk.chunks (chunk_write hguard hsees hsource.seen)
  | flag hs _ v =>
    exact Chunk.chunks (chunk_write Permits.guard_always (hslot hs rfl) (v.calls _))
  | raised hguard hs _ hsource => exact Chunk.chunks (chunk_write hguard (hslot hs rfl) hsource)
  | listener hs _ hid =>
    refine Chunk.chunks (chunk_write Permits.guard_always (hslot hs rfl) (Nbt.calls_slot _ _ ?_))
    rintro _ ⟨⟩
    exact hid
  | code hs _ _ => exact Chunk.chunks (chunk_write Permits.guard_always (hslot hs rfl) nofun)
  | @record _ p _ _ =>
    refine Chunk.chunks (Chunk.write Permits.guard_always trivial ?_)
    cases p <;> exact nofun
  | property _ hsource => exact Chunk.chunks (Chunk.write Permits.guard_always trivial hsource.seen)
  | returnIf hguard _ => exact Chunk.chunks (Chunk.returnIf hguard)
  | returnWith _ => exact Chunk.returnWith.chunks
  | raw => exact Chunk.raw.chunks
  | @scalar _ v _ hs _ hpayloads =>
    exact .cons (b := [_]) (chunk_write Permits.guard_always (hslot hs rfl) (v.calls _))
      (chunks_payloads (hslot hs rfl) _ fun e he => ⟨(hpayloads e he).1, (hpayloads e he).2.1⟩)
  | library _ htarget hentries =>
    exact (Chunk.library hentries.routine.2
      (hentries.seen fun s hs => (htarget s hs).1.sees _)).chunks
  | call _ hresult _ hentries _ _ _ =>
    exact (Chunk.call (hentries.seen (sees_of_slot hresult rfl _))).chunks
  | through _ _ hresult _ hentries hcallee =>
    exact (Chunk.through hcallee.sees (hentries.seen (sees_of_slot hresult rfl _))).chunks
  | part hguard hunit hfed hstore =>
    refine (Chunk.enter hguard ⟨_, hunit.unit, hfed, hunit.depth⟩ fun p hp => ?_).chunks
    obtain ⟨s, hs, huse, _⟩ := hstore p hp
    exact ⟨s, hs, hslot huse rfl⟩
  | each _ _ harray hunit _ hcell _ =>
    exact (Chunk.each harray.sees (hslot hcell rfl) ⟨_, _, rfl, hunit.unit, hunit.depth⟩).chunks
  | @answer c d s _ hd _ hs _ =>
    have hentries : ∀ e ∈ [("target", Source.valueOf d), ("source", .addressOf s)],
        (G.permits site.toStanding).Entry Routine.setVariable.TakesSlot e := by
      intro e he
      simp only [List.mem_cons, List.not_mem_nil, or_false] at he
      rcases he with rfl | rfl
      · exact ⟨hslot hd rfl, fun _ _ hsource => (nomatch hsource), by simp⟩
      · exact ⟨nofun, fun _ _ hsource => Source.addressOf_inj.1 hsource ▸ hs.sees, by simp⟩
    exact (Chunk.library (c := c) (by decide) hentries).chunks

/-- Code that is made of pieces mentions nothing but what it may. -/
theorem Pieces.chunks (h : G.Pieces site writes a is b) :
    Chunks (G.permits site.toStanding) is := by
  induction h with
  | nil => exact .nil
  | cons his _ ih => exact his.chunks.append ih
  | address hd _ hfed _ ih =>
    have hslot := sees_of_slot hd rfl site.depth
    exact .cons (b := [_]) (chunk_write Permits.guard_always hslot nofun)
      (.cons (b := [_]) (chunk_write Permits.guard_always hslot hfed) ih)

end Uses

end PackScript
