import PackScript.Compile.Call
import PackScript.Proofs.Uses.Operator

namespace PackScript

/-!
# Calls keep to the uses

The channel of a call holds script values and the key of a slot for the result, which is an
intermediate result of the caller. `callNamed_leads` shows that a direct call between top-level
functions was recorded. An `await` finishes the present unit: `lowerAwait_leads` goes on in a unit
that can be called and has the same root.
-/

variable {s : Compiler} {entries : Entries} {op : Intrinsic} {es : List Expr} {v value : Lowered}
  {m : Member} {that : Option Slot} {a awaited promise : Slot} {span : Span} {name unit : String}
  {G : Uses} {W : Watch}

/-! ### Entries of a channel -/

/-- The entries are script values for arguments, `this` and `new.target`. -/
def ValueEntries (W : Watch) (G : Uses) (entries : Compile.Entries) : Prop :=
  ∀ e ∈ entries, ValueEntry e.1 ∧ G.Offers W.toStanding e.2

section

variable {W : Watch} {G G' : Uses} {result : Slot} {entries entries' : Compile.Entries}

theorem ValueEntries.mono (h : ValueEntries W G entries) (hle : G ≤ G') :
    ValueEntries W G' entries :=
  fun e he => ⟨(h e he).1, (h e he).2.mono hle⟩

theorem ValueEntries.nil : ValueEntries W G [] := nofun

theorem ValueEntries.cons {source : Source} (hname : ValueEntry name)
    (hsource : G.Offers W.toStanding source) (h : ValueEntries W G entries) :
    ValueEntries W G ((name, source) :: entries) :=
  List.forall_mem_cons.2 ⟨⟨hname, hsource⟩, h⟩

theorem Uses.CallEntries.append (h : G.CallEntries W.toStanding result entries)
    (h' : ValueEntries W G entries') :
    G.CallEntries W.toStanding result (entries ++ entries') :=
  ⟨List.forall_mem_append.2 ⟨h.fits, fun e he => .inl (h' e he)⟩,
    List.mem_append_left _ h.result⟩

theorem valueEntry_argumentName (i : Nat) : ValueEntry (argumentName i) :=
  .inr (.inr ⟨i, rfl⟩)

theorem valueEntry_this : ValueEntry "this" := .inl rfl

theorem valueEntry_newTarget : ValueEntry "newtarget" := .inr (.inl rfl)

theorem valueEntries_slotEntry {a : Option Slot} (hname : ValueEntry name)
    (ha : ∀ a', a = some a' → G.Reads W.depth a') :
    ValueEntries W G (Compile.slotEntry name a) := by
  cases a with
  | none => exact .nil
  | some a => exact .cons hname (ha a rfl).offers .nil

end

namespace Compile

variable {k : Lowering} {W : Watch} {G : Uses} {s : Compiler}

/-! ### Arguments -/

theorem argumentsFrom_leads (hk : k.Leads) (es : List Expr) :
    ∀ {G s} (index : Nat), Orderly W G s → Leads W G s (argumentsFrom k index es)
      (fun G' entries _ => ValueEntries W G' entries) := by
  induction es with
  | nil => exact fun index h => .pure h .nil
  | cons e rest ih =>
    intro G s index h
    unfold argumentsFrom
    split
    · next heq => cases heq
    · exact .throw h
    · next e rest _ heq =>
      cases heq
      refine (hk.expr W G s e h).bind fun G1 v s1 h1 hv => ?_
      refine (snapshotIf_leads h1.orderly hv).bind fun G2 v s2 h2 hv => ?_
      refine (ih (index + 1) h2.orderly).bind fun G3 entries s3 h3 hentries => ?_
      exact .pure h3.orderly
        (.cons (valueEntry_argumentName index) (hv.mono h3.le).offers hentries)

variable (hk : k.Leads) (h : Orderly W G s)
include h

include hk in
theorem callArguments_leads :
    Leads W G s (callArguments k es span) (fun G' entries _ => ValueEntries W G' entries) := by
  unfold callArguments
  split
  · exact .throw h
  · exact argumentsFrom_leads hk es 0 h

theorem withResult_leads (hentries : ValueEntries W G entries) :
    Leads W G s (withResult entries)
      (fun G' p _ => W.Result G' p.1 ∧ G'.CallEntries W.toStanding p.1 p.2) := by
  refine (slotOf_result_leads _ h).bind fun G1 result s1 h1 hresult => ?_
  refine .pure h1.orderly ⟨hresult, List.forall_mem_append.2
    ⟨fun e he => .inl (hentries.mono h1.le e he), fun e he => ?_⟩,
    List.mem_append_right _ List.mem_cons_self⟩
  rw [List.mem_singleton.1 he]
  exact .inr ⟨rfl, rfl⟩

/-! ### Calls -/

theorem callThrough_leads {callee result : Slot}
    (hcallee : G.Reads W.depth callee) (hresult : W.Result G result)
    (hentries : G.CallEntries W.toStanding result entries) :
    Leads W G s (callThrough callee entries) (fun G' _ _ => W.Result G' result) := by
  have h1 : Advances false W G s _ _ := .freshChannel (.call result) h
  have h2 : Advances false W _ _ _ _ :=
    .freshChannel (.library .callFunction (some result)) h1.orderly
  have h12 := h1.trans h2
  have hc : Uses.channel _ _ = some (.call result) :=
    h2.le.channel _ _ (Uses.withChannel_self (G := G) ⟨s.names.channels⟩ _)
  have hpiece : Uses.Piece _ (s.site W) W.writes s.address? _ :=
    .through hc (Uses.withChannel_self _ _) (hresult.mono h12.le).1 hresult.2
      (hentries.mono h12.le) (hcallee.mono h12.le)
  have hrun : callThrough callee entries s = .ok ()
      ({ s with names.channels := s.names.channels + 1 + 1 }.push
        (fillCode ⟨s.names.channels⟩ entries ++
        (fillCode ⟨s.names.channels + 1⟩ [("function", .addressOf callee),
            ("channel", .text (Channel.key ⟨s.names.channels⟩))] ++
          [Instr.invoke .always (.library .callFunction)
            (some ⟨s.names.channels + 1⟩) none]))) := by
    rw [Compiler.push_append]
    exact (bind_of_ok (fillChannel_run entries s)).trans (callLibrary_run _ _ _)
  exact .of_ok hrun (h12.trans (.push h2.orderly hpiece.pieces)) (fun _ hn => hn)
    (hresult.mono h12.le)

theorem callUnit_leads {use : UnitUse} (hunit : G.unit unit = some use)
    (hbody : use.IsBody) (hcall : G.MayCall s.context.declaration unit)
    (hentries : ValueEntries W G entries) :
    Leads W G s (callUnit unit entries) (fun G' a _ => G'.Reads W.depth a) := by
  refine (withResult_leads h hentries).bind fun G1 p s1 h1 ⟨hresult, hentries1⟩ => ?_
  have h2 : Advances false W G1 s1 _ _ := .freshChannel (.call p.1) h1.orderly
  have h12 := h1.trans h2
  have hpiece : Uses.Piece _ (s1.site W) W.writes s1.address? _ :=
    .call (Uses.withChannel_self ⟨s1.names.channels⟩ _) (hresult.mono h2.le).1 hresult.2
      (hentries1.mono h2.le) (h12.le.unit _ _ hunit) hbody
      (h1.declaration ▸ hcall.mono h12.le : Uses.MayCall _ s1.context.declaration unit)
  have hrun : (do
      let channel ← fillChannel p.2
      invoke .always (.unit unit) (some channel)
      return p.1 : Compile Slot) s1 = .ok p.1
      ({ s1 with names.channels := s1.names.channels + 1 }.push
        (fillCode ⟨s1.names.channels⟩ p.2 ++
          [Instr.invoke .always (.unit unit) (some ⟨s1.names.channels⟩) none])) := by
    rw [Compiler.push_append]
    exact bind_of_ok (fillChannel_run p.2 s1)
  exact .of_ok hrun (h2.trans (.push h2.orderly hpiece.pieces)) (fun _ hn => hn)
    ((hresult.mono h2.le).reads _)

theorem callFunction_leads {callee : Slot} (hcallee : G.Reads W.depth callee)
    (hthat : ∀ a, that = some a → G.Reads W.depth a) (hentries : ValueEntries W G entries) :
    Leads W G s (callFunction callee that entries) (fun G' a _ => G'.Reads W.depth a) := by
  refine (withResult_leads h hentries).bind fun G1 p s1 h1 ⟨hresult, hentries1⟩ => ?_
  have hthis : ValueEntries W G1 (slotEntry "this" that) :=
    valueEntries_slotEntry valueEntry_this fun a ha => (hthat a ha).mono h1.le
  exact (callThrough_leads h1.orderly (hcallee.mono h1.le) hresult (hentries1.append hthis)).bind
    fun G2 _ s2 h2 hresult2 => .pure h2.orderly (hresult2.reads _)

theorem callParent_leads {parent : Slot} (hparent : G.Reads W.depth parent)
    (hentries : ValueEntries W G entries) :
    GoesOn W G s (callParent parent entries) := by
  refine (withResult_leads h hentries).bind fun G1 p s1 h1 ⟨hresult, hentries1⟩ => ?_
  refine LeadsIn.read rfl ?_
  have hthis : ValueEntries W G1 (slotEntry "this" s1.context.that) :=
    valueEntries_slotEntry valueEntry_this fun a ha => h1.orderly.context.that a ha _
  have htarget : ValueEntries W G1 (slotEntry "newtarget" s1.context.newTarget) :=
    valueEntries_slotEntry valueEntry_newTarget fun a ha => h1.orderly.context.newTarget a ha _
  exact (callThrough_leads h1.orderly (hparent.mono h1.le) hresult
    ((hentries1.append hthis).append htarget)).imp fun _ _ _ _ _ => trivial

include hk in
theorem setFields_leads {fields : List Field} :
    GoesOn W G s (setFields k fields) := by
  refine LeadsIn.read rfl ?_
  split
  · exact .pure h trivial
  · next that hthat =>
    refine (LeadsIn.forM (fun G' _ => G'.Reads W.depth that) h (h.context.that that hthat _)
      fun f _ G1 s1 h1 hthat1 => ?_).imp fun _ _ _ _ _ => trivial
    refine (propertyName_leads h1.orderly).bind fun G2 name s2 h2 _ => ?_
    refine (exprOrUndefined_leads hk h2.orderly).bind fun G3 v s3 h3 hv => ?_
    refine (materialize_leads h3.orderly hv).bind fun G4 value s4 h4 hvalue => ?_
    have hthat4 := hthat1.mono ((h2.trans h3).trans h4).le
    have hname : MemberName.Readable W G4 (.known name) := trivial
    exact (setMember_leads h4.orderly hthat4 hname hvalue).imp fun _ _ _ _ hle => hthat4.mono hle

/-! ### Promises -/

theorem paramSlot_leads {entry : String} (hentry : ValueEntry entry) (hfed : W.fed = true) :
    Leads W G s (paramSlot entry) (fun G' a _ => W.Result G' a) := by
  refine (slotOf_result_leads _ h).bind fun G1 a s1 h1 ha => ?_
  have hparam : G1.Offers W.toStanding (.param entry) := ⟨hentry, hfed⟩
  exact (set_slot_leads h1.orderly ha.takes hparam).bind
    fun G2 _ s2 h2 _ => .pure h2.orderly (ha.mono h2.le)

/-- A fresh slot that holds a function of the program. -/
theorem literalSlot_leads {literal : Nbt} (hliteral : literal.Proper G.IsRecord (G.MadeAt W.depth))
    :
    Leads W G s (literalSlot literal) (fun G' a _ => W.Result G' a) := by
  refine (freshResult_leads h).bind fun G1 a s1 h1 ha => ?_
  have hoffers : G1.Offers W.toStanding (.literal literal) :=
    Uses.offers_literal (hliteral.mono (fun _ h => h.mono h1.le) fun _ h => h.mono h1.le)
  exact (set_slot_leads h1.orderly ha.takes hoffers).bind
    fun G2 _ s2 h2 _ => .pure h2.orderly (ha.mono h2.le)

/-- A value is handed to the caller. -/
theorem answerSlot_leads {address value : Slot} (haddress : G.slot address = some .address)
    (hwritten : s.address? = some address) (hvalue : G.Reads W.depth value)
    (hasync : s.context.isAsync = true → G.slot value = some (.promise W.root) ∧
      s.current.name = W.root) : GoesOn W G s (answerSlot address value) := by
  have h1 : Advances false W G s _ _ := .freshChannel (.answer address value) h
  have hpiece : Uses.Piece _ (s.site W) W.writes s.address?
      (Uses.answerCode ⟨s.names.channels⟩ address value) :=
    .answer (Uses.withChannel_self (G := G) _ _) (h1.le.slot _ _ haddress) hwritten
      (hvalue.mono h1.le) fun h => (hasync h).imp_left (h1.le.slot _ _)
  exact .of_ok (callLibrary_run _ _ _) (h1.trans (.push h1.orderly hpiece.pieces))
    (fun _ hn => hn) trivial

theorem resolvePromise_leads (hpromise : G.Reads W.depth promise) (hvalue : value.Readable W G) :
    GoesOn W G s (resolvePromise promise value) := by
  refine (materialize_leads h hvalue).bind fun G1 a s1 h1 ha => ?_
  refine (freshChannel_leads .filled h1.orderly).bind fun G2 channel s2 h2 hchannel => ?_
  have hpromise2 := hpromise.mono (h1.trans h2).le
  exact (callLibrary_effect_leads h2.orderly
    ⟨_, .value hpromise2 (.value (ha.mono h2.le) (.channel hchannel .nil)), by decide⟩).imp
    fun _ _ _ _ _ => trivial

theorem awaitPromise_leads {listener : Slot} (hpromise : G.Reads W.depth promise)
    (hlistener : G.Reads W.depth listener) : GoesOn W G s (awaitPromise promise listener) := by
  refine (freshChannel_leads .filled h).bind fun G1 channel s1 h1 hchannel => ?_
  exact (callLibrary_effect_leads h1.orderly ⟨_, .value (hpromise.mono h1.le)
    (.value (hlistener.mono h1.le) (.channel hchannel .nil)), by decide⟩).imp
    fun _ _ _ _ _ => trivial

theorem resolveResult_leads (hvalue : value.Readable W G) : GoesOn W G s (resolveResult value) := by
  refine LeadsIn.read rfl ?_
  split
  · next promise hpromise =>
    exact resolvePromise_leads h (h.context.promise promise hpromise _) hvalue
  · exact .pure h trivial

/-- A `return` ends the unit: with the usual code in the body of the function, and with the code for
    `return` in a part of it. -/
theorem returnWith_leads (hbody : InBody s) (hkind : s.context.kind ≠ .script) :
    GoesOn W G s (do emit (.returnWith (← returnCode))) :=
  LeadsIn.read rfl ((emit_leads h (.returnWith (Orderly.allows_return h hbody.kind hkind))).imp
    fun _ _ _ _ _ => trivial)

theorem emitReturn_leads (hbody : InBody s) (hkind : s.context.kind ≠ .script)
    (hvalue : value.Readable W G) : GoesOn W G s (emitReturn value) := by
  have hrest : ∀ G1 s1, Advances false W G s G1 s1 →
      GoesOn W G1 s1 (do emit (.returnWith (← returnCode))) :=
    fun G1 s1 h1 => returnWith_leads h1.orderly (hbody.step h1) (h1.kind ▸ hkind)
  refine LeadsIn.read rfl ?_
  dsimp only
  split
  · next promise hpromise =>
    exact (resolvePromise_leads h (h.context.promise promise hpromise _) hvalue).bind
      fun G1 _ s1 h1 _ => hrest G1 s1 h1
  · next address hpromise haddress =>
    -- without a promise the function is not asynchronous, so every part knows the address
    have hasync : s.context.isAsync = false := by
      cases h : s.context.isAsync with
      | false => rfl
      | true => simpa [hpromise] using hbody.promise h
    have huse := h.context.returnAddress address haddress
    refine (materialize_leads h hvalue).bind fun G1 a s1 h1 ha => ?_
    have hasync1 : s1.context.isAsync = false := h1.isAsync.trans hasync
    have hwritten : s1.address? = some address := by
      rw [Compiler.address?_of_sync hasync1, h1.context rfl, haddress]
    refine (answerSlot_leads h1.orderly (h1.le.slot _ _ huse) hwritten ha fun hyes => ?_).bind
      fun G2 _ s2 h2 _ => hrest G2 s2 (h1.trans h2)
    simp [hasync1] at hyes
  · exact hrest G s (.refl h)

end Compile

/-! ### Waiting for a promise -/

/-- The use of the unit that the present function goes on in. -/
def Watch.restUse (W : Watch) (s : Compiler) : UnitUse :=
  .body .continuation W.depth W.root (some s.context.declaration)

namespace Compiler

/-- The present unit is finished, and the code goes on in another one at the same level. -/
def continueAs (s : Compiler) (unit : String) : Compiler :=
  { s with
    units := s.units.put s.current.name s.current.finish
    current := ⟨unit, { s.current.info with
      kind := .continuation, isAsync := true, scopes := s.current.scopes }, #[], 0,
      s.current.scopes⟩ }

/-- The code that has the rest of the present function wait for a promise. -/
def waitCode (s : Compiler) (awaited : Slot) (unit : String) : List Instr :=
  .set .always (.slot ⟨s.names.slots⟩)
      (.literal (.slot .function (.string "") (some (functionId s.ns unit)))) ::
    (Run.libraryCode ⟨s.names.channels + 1⟩ .awaitPromise
        [("promise", .addressOf awaited), ("listener", .addressOf ⟨s.names.slots⟩),
          ("channel", .text (Channel.key ⟨s.names.channels⟩))] ++
      [.returnWith Instr.normal])

/-- The state in which the rest of the present function waits for a promise. -/
def waiting (s : Compiler) (awaited : Slot) : Compiler :=
  { s with
    names.units := s.names.units + 1
    names.slots := s.names.slots + 1
    names.channels := s.names.channels + 1 + 1 }.push
      (s.waitCode awaited (generatedUnit s.names.units))

end Compiler

section

variable {W : Watch} {G G' : Uses} {s s' : Compiler} {unit : String}

/-- Only a function waits, in a unit that is no part. -/
theorem Orderly.async_whole (h : Orderly W G s) (hasync : s.context.isAsync = true)
    (hdepth : s.current.depth = 0) :
    W.depth ≠ 0 ∧ s.current.info.kind ≠ .script ∧
      W.toStanding = ⟨W.root, none, false, true, W.depth⟩ := by
  have hscript : W.depth ≠ 0 := by
    intro hzero
    simp [h.context.script (h.script.1 hzero)] at hasync
  obtain ⟨hhome, hbreakable, hkind, hfed⟩ := h.current.fixed (h.part.1 hdepth)
  have hkind' : W.depth = 0 ↔ s.current.info.kind = .script := hkind
  refine ⟨hscript, fun h' => hscript (hkind'.2 h'), ?_⟩
  rw [← show W.home = none from hhome, ← show W.breakable = false from hbreakable,
    ← show W.fed = true from hfed hscript]

/-- Behind an `await` no slot is sure to hold the return address. -/
theorem Orderly.address?_continueAs (h : Orderly W G s) (hasync : s.context.isAsync = true)
    (hdepth : s.current.depth = 0) (unit : String) :
    (s.continueAs unit).address? = W.home := by
  rw [congrArg Standing.home (h.async_whole hasync hdepth).2.2]
  simp [Compiler.address?, Compiler.continueAs, hasync]

theorem Orderly.continueAs (h : Orderly W G s) (hunit : G.unit unit = some (W.restUse s))
    (hasync : s.context.isAsync = true) (hdepth : s.current.depth = 0) :
    Orderly W G (s.continueAs unit) := by
  obtain ⟨hscript, hkind, hstanding⟩ := h.async_whole hasync hdepth
  exact
    { h with
      scopes := { h.scopes with }
      isAsync := hasync.symm
      part := by simp [Compiler.continueAs, UnitKind.isPart]
      current :=
        { unit := ⟨_, hunit, hstanding.symm, rfl⟩
          owned := ⟨_, hunit, .inl rfl⟩
          fixed := fun _ => by
            obtain ⟨hhome, hbreakable, _, hfed⟩ := h.current.fixed (h.part.1 hdepth)
            exact ⟨hhome, hbreakable, ⟨fun hzero => absurd hzero hscript, nofun⟩, hfed⟩
          code := h.address?_continueAs hasync hdepth unit ▸ .nil }
      units := fun e he => by
        rcases Table.mem_put he with rfl | he
        · exact ⟨_, _, rfl, h.isAsync.symm, rfl, h.current⟩
        · exact h.units e he
      inner := fun e he => by
        rcases Table.mem_put he with rfl | he
        · exact hkind
        · exact h.inner e he }

/-- The code went on in the unit up to here, and now goes on in one that was unknown. -/
theorem Advances.continueAs (h0 : Orderly W G s) (h : Advances false W G s G' s')
    (hname : s'.current.name = s.current.name) (hunits : s'.units = s.units)
    (hnew : G.unit unit = none) (hunit : G'.unit unit = some (W.restUse s'))
    (hasync : s'.context.isAsync = true) (hdepth : s'.current.depth = 0) :
    Advances false W G s G' (s'.continueAs unit) := by
  have hscript : s.context.kind ≠ .script := by
    intro hkind
    simp [h.orderly.context.script (h.kind.trans hkind)] at hasync
  have hne : unit ≠ s.current.name := by
    rintro rfl
    obtain ⟨u, hu, _⟩ := h0.current.unit
    exact absurd (hnew.symm.trans hu) (by simp)
  have hput : ∀ n, n ≠ s.current.name → s.units.has n = false →
      (s'.continueAs unit).units.has n = false := by
    intro n hn hhas
    show (s'.units.put s'.current.name s'.current.finish).has n = false
    rw [Table.has_put, hunits, hhas, hname, decide_eq_false hn.symm]
    rfl
  exact
    { h with
      orderly := h.orderly.continueAs hunit hasync hdepth
      depth := hdepth.symm.trans h.depth
      current := by
        refine .rest (h.isAsync ▸ hasync) (h.depth ▸ hdepth) rfl ?_ hnew
          (h.orderly.address?_continueAs hasync hdepth unit ▸ .nil)
        show (s'.units.put s'.current.name s'.current.finish).has s.current.name = true
        simp [Table.has_put, hname]
      script := fun hkind => absurd hkind hscript
      unitNames := h.unitNames.trans (Table.names_prefix_put _ _ _)
      units := fun e he => by
        rcases Table.mem_put he with rfl | he
        · cases h.current with
          | same _ _ hcode => exact .inr (.inl ⟨hname, _, hcode⟩)
          | rest _ _ _ _ _ hcode => exact .inr (.inr ⟨_, _, _, hcode⟩)
        · exact h.units e he
      adds := fun hexact =>
        { free := fun hcurrent => by
            obtain ⟨hpre, hlast⟩ := (h.adds hexact).free hcurrent
            exact ⟨hpre.trans (Table.prefix_put _ hlast), hput unit hne (h0.has_eq_false hnew)⟩
          reserved := fun n u _ _ hne' hhas => hput n hne' hhas
          calls := (h.adds hexact).calls } }

/-- The uses when the rest of the present function waits for a promise. -/
def Uses.waiting (G : Uses) (W : Watch) (s : Compiler) : Uses :=
  ((((G.withUnit (generatedUnit s.names.units) (W.restUse s)).withSlot ⟨s.names.slots⟩
    .listener).withChannel ⟨s.names.channels⟩ .filled).withChannel ⟨s.names.channels + 1⟩
      (.library .awaitPromise none))

theorem Advances.waiting (h : Orderly W G s) (hawaited : G.Reads W.depth awaited)
    (hdepth : W.depth ≠ 0) : Advances false W G s (G.waiting W s) (s.waiting awaited) := by
  have h1 : Advances false W G s _ _ := .freshUnit (W.restUse s) h
  have h2 : Advances false W _ _ _ _ := .freshSlot .listener h1.orderly
  have h3 : Advances false W _ _ _ _ := .freshChannel .filled h2.orderly
  have h4 : Advances false W _ _ _ _ := .freshChannel (.library .awaitPromise none) h3.orderly
  have h14 := ((h1.trans h2).trans h3).trans h4
  have hslot : (G.waiting W s).slot ⟨s.names.slots⟩ = some .listener :=
    Uses.withSlot_self (G := G.withUnit (generatedUnit s.names.units) (W.restUse s)) _ _
  have hfilled : (G.waiting W s).channel ⟨s.names.channels⟩ = some .filled :=
    h4.le.channel _ _ (Uses.withChannel_self _ _)
  have hunit : (G.waiting W s).unit (generatedUnit s.names.units) = some (W.restUse s) :=
    Uses.withUnit_self (G := G) _ _
  have hid : (G.waiting W s).MadeAt W.depth (functionId s.ns (generatedUnit s.names.units)) :=
    ⟨_, _, congrArg (functionId · _) (h14.le.ns.trans h.ns).symm, hunit,
      UnitUse.isBody_body _ _ rfl (by decide) hdepth, rfl⟩
  have hset : (G.waiting W s).Piece (s.site W) W.writes s.address? _ :=
    .listener hslot (h.freshSlot _ (Nat.le_refl _)).2 hid
  have hwait : (G.waiting W s).Piece (s.site W) W.writes s.address? (Run.libraryCode
      ⟨s.names.channels + 1⟩ .awaitPromise [("promise", .addressOf awaited),
        ("listener", .addressOf ⟨s.names.slots⟩),
        ("channel", .text (Channel.key ⟨s.names.channels⟩))]) :=
    .library (Uses.withChannel_self _ _) nofun ⟨_, .value (hawaited.mono h14.le)
      (.listener hslot (.channel hfilled .nil)), by decide⟩
  have hreturn : (G.waiting W s).Piece (s.site W) W.writes s.address?
      [.returnWith Instr.normal] := .returnWith (.inl rfl)
  exact h14.trans (.push h4.orderly (.cons hset (.cons hwait hreturn.pieces)))

end

namespace Compile

variable {k : Lowering} {W : Watch} {G : Uses} {s : Compiler}

theorem awaitPromise_run (promise listener : Slot) (s : Compiler) :
    awaitPromise promise listener s = .ok ()
      ({ s with names.channels := s.names.channels + 1 + 1 }.push
        (Run.libraryCode ⟨s.names.channels + 1⟩ .awaitPromise
          [("promise", .addressOf promise), ("listener", .addressOf listener),
            ("channel", .text (Channel.key ⟨s.names.channels⟩))])) :=
  (bind_of_ok rfl).trans (callLibrary_run _ _ _)

theorem lowerAwait_run (awaited : Slot) (s : Compiler) :
    (do
      let continuation ← freshUnit
      let listener ← literalSlot (← functionLiteral "" continuation)
      awaitPromise awaited listener
      emit (.returnWith Instr.normal)
      continueIn continuation
      return .slot (← paramSlot "arg0") : Compile Lowered) s =
    (do return .slot (← paramSlot "arg0") : Compile Lowered)
      ((s.waiting awaited).continueAs (generatedUnit s.names.units)) := by
  refine (bind_of_ok rfl).trans ((bind_of_ok rfl).trans ((bind_of_ok rfl).trans ?_))
  refine (bind_of_ok (awaitPromise_run _ _ _)).trans ?_
  refine (bind_of_ok rfl).trans ((bind_of_ok rfl).trans ?_)
  rfl

/-- The rest of a function behind an `await`, which is measured from before its unit was named. -/
theorem continuation_leads (h : Orderly W G s) (hawaited : G.Reads W.depth awaited)
    (hasync : s.context.isAsync = true) (hdepth : s.current.depth = 0) :
    Leads W G s (do
      let continuation ← freshUnit
      let listener ← literalSlot (← functionLiteral "" continuation)
      awaitPromise awaited listener
      emit (.returnWith Instr.normal)
      continueIn continuation
      return .slot (← paramSlot "arg0")) (fun G' v _ => Lowered.Readable W G' v) := by
  obtain ⟨hfunction, _, hstanding⟩ := h.async_whole hasync hdepth
  have hnew := h.freshUnit _ (Nat.le_refl _)
  have hunit : (G.waiting W s).unit (generatedUnit s.names.units) = some (W.restUse s) :=
    Uses.withUnit_self (G := G) _ _
  have h1 : Advances false W G s (G.waiting W s)
      ((s.waiting awaited).continueAs (generatedUnit s.names.units)) :=
    .continueAs h (.waiting h hawaited hfunction) rfl rfl hnew hunit hasync hdepth
  have hsettles : Settles G s (G.waiting W s)
      ((s.waiting awaited).continueAs (generatedUnit s.names.units)) := by
    rintro n ⟨⟨u, hu⟩, hhas, hne, hparents⟩
    have hne' : n ≠ generatedUnit s.names.units := hne
    have hhas' : (s.units.put s.current.name _).has n = false := hhas
    rw [Table.has_put, Bool.or_eq_false_iff, decide_eq_false_iff_not] at hhas'
    refine ⟨⟨u, ?_⟩, hhas'.2, Ne.symm hhas'.1, hparents⟩
    have hu' : (G.withUnit (generatedUnit s.names.units) (W.restUse s)).unit n = some u := hu
    simpa [Uses.withUnit, hne'] using hu'
  have hrest : Leads W (G.waiting W s) _ (do return .slot (← paramSlot "arg0") : Compile Lowered)
      (fun G' v _ => Lowered.Readable W G' v) :=
    (paramSlot_leads h1.orderly (valueEntry_argumentName 0) (congrArg Standing.fed hstanding)).bind
      fun G2 a s2 h2 ha => .pure h2.orderly (ha.reads W.depth)
  unfold Leads LeadsIn
  rw [lowerAwait_run]
  exact hrest.after h1 fun _ _ _ _ hsettles' hQ => ⟨hsettles.trans hsettles', hQ⟩

theorem lowerAwait_leads (hk : k.Leads) {argument : Expr} (h : Orderly W G s) :
    Leads W G s (lowerAwait k argument span) (fun G' v _ => v.Readable W G') := by
  refine LeadsIn.read rfl ?_
  split
  · exact .throw h
  · next hasync =>
    split
    · exact .throw h
    · next hdepth =>
      refine (exprSlot_leads hk h).bind fun G1 awaited s1 h1 hawaited => ?_
      refine continuation_leads h1.orderly hawaited ?_ ?_
      · rw [h1.isAsync]
        simpa using hasync
      · rw [h1.depth]
        omega

end Compile

/-! ### Built-in operations -/

/-- The slot of a value that is joined to a text, if it has one. -/
def Lowered.Joinable (W : Watch) (G : Uses) : Lowered → Prop
  | .known _ => True
  | .slot s => G.Sees W.depth s

section

variable {W : Watch} {G G' : Uses} {v : Lowered}

theorem Lowered.Joinable.mono (h : v.Joinable W G) (hle : G ≤ G') : v.Joinable W G' := by
  cases v with
  | known value => trivial
  | slot s => exact Uses.Sees.mono h hle

theorem Lowered.Readable.joinable (h : v.Readable W G) : v.Joinable W G := by
  cases v with
  | known value => trivial
  | slot s => exact Uses.Reads.sees h

end

namespace Compile

variable {k : Lowering} {W : Watch} {G : Uses} {s : Compiler}

section

variable (h : Orderly W G s)

include h

theorem runtimeSlot_leads {callee : Ident} (hv : v.Readable W G) :
    Leads W G s (runtimeSlot callee v) (fun G' a _ => G'.Reads W.depth a) := by
  cases v with
  | known value => exact .throw h
  | slot a => exact .pure h hv

theorem materialize_joinable_leads (hv : v.Joinable W G) :
    Leads W G s (materialize v) (fun G' a _ => Lowered.Joinable W G' (.slot a)) := by
  cases v with
  | slot a => exact .pure h hv
  | known value =>
    exact (slotOf_result_leads value h).imp fun _ _ _ _ ha =>
      Lowered.Readable.joinable (v := .slot _) (ha.reads W.depth)

theorem concat_leads {left right : Lowered} (hleft : left.Joinable W G)
    (hright : right.Joinable W G) :
    Leads W G s (concat left right) (fun G' v _ => v.Readable W G') := by
  unfold concat
  split
  · exact .pure h trivial
  · refine (materialize_joinable_leads h hleft).bind fun G1 l s1 h1 hl => ?_
    refine (materialize_joinable_leads h1.orderly (hright.mono h1.le)).bind
      fun G2 r s2 h2 hr => ?_
    refine (freshResult_leads h2.orderly).bind fun G3 result s3 h3 hresult => ?_
    exact (callLibrary_result_leads h3.orderly hresult (by simp)
      ⟨_, .slot (hl.mono (h2.trans h3).le) (.slot (hr.mono h3.le) (.result .nil)), by decide⟩).bind
      fun G4 _ s4 h4 hresult4 => .pure h4.orderly (hresult4.reads W.depth)

/-- A field of another slot, which is joined to something only. -/
theorem fieldText_leads (ha : G.Reads W.depth a) :
    Leads W G s (fieldText a name) (fun G' a _ => W.Flag G' a) := by
  refine (slotOf_flag_leads _ h).bind fun G1 result s1 h1 hresult => ?_
  have hseen : (G1.permits W.toStanding).source (.copy (.field a name)) := (ha.mono h1.le).sees
  exact (emit_leads h1.orderly (.raised Permits.guard_always hresult.1 hresult.2 hseen)).bind
    fun G2 _ s2 h2 _ => .pure h2.orderly (hresult.mono h2.le)

/-- The id of the function in another slot. -/
theorem fieldText_function_leads (ha : G.Reads W.depth a) :
    Leads W G s (fieldText a "function") (fun G' a _ => G'.Reads W.depth a) := by
  refine (scalarSlot_leads (.string "") [(.always, .copy (.field a "function"))] (fun _ => rfl) h
    fun e he => ?_).imp fun _ _ _ _ ha => ha W.depth
  rw [List.mem_singleton.1 he]
  exact ⟨Permits.guard_always, ha.sees, .function rfl ha.isValue⟩

theorem runCommand_leads (hv : v.Readable W G) : GoesOn W G s (runCommand v) := by
  cases v with
  | known value => exact (emit_leads h .raw).imp fun _ _ _ _ _ => trivial
  | slot a =>
    have ha : G.Reads W.depth a := hv
    exact (callLibrary_effect_leads h ⟨_, .value ha .nil, by decide⟩).imp
      fun _ _ _ _ _ => trivial

theorem applyIntrinsic_leads {callee : Ident} {first second : Lowered} (hfirst : first.Readable W G)
    (hsecond : second.Readable W G) :
    Leads W G s (applyIntrinsic op callee first second) (fun G' v _ => v.Readable W G') := by
  cases op with
  | run => exact (runCommand_leads h hfirst).bind fun G1 _ s1 h1 _ => .pure h1.orderly trivial
  | singleQuoteConcat => exact concat_leads h hfirst.joinable hsecond.joinable
  | resolveObject =>
    refine (runtimeSlot_leads h hfirst).bind fun G1 a s1 h1 ha => ?_
    refine (fieldText_leads h1.orderly ha).bind fun G2 key s2 h2 hkey => LeadsIn.read rfl ?_
    exact concat_leads h2.orderly trivial (hkey.sees _)
  | resolveVariable =>
    refine (runtimeSlot_leads h hfirst).bind fun G1 a s1 h1 _ => ?_
    exact LeadsIn.read rfl (.pure h1.orderly trivial)
  | callableFunction =>
    refine (runtimeSlot_leads h hfirst).bind fun G1 a s1 h1 ha => ?_
    exact (fieldText_function_leads h1.orderly ha).bind fun G2 a s2 h2 ha => .pure h2.orderly ha
  | resolvePromise =>
    refine (runtimeSlot_leads h hfirst).bind fun G1 a s1 h1 ha => ?_
    exact (resolvePromise_leads h1.orderly ha (hsecond.mono h1.le)).bind
      fun G2 _ s2 h2 _ => .pure h2.orderly trivial
  | initPromise =>
    refine (runtimeSlot_leads h hfirst).bind fun G1 a s1 h1 ha => ?_
    exact (callLibrary_effect_leads h1.orderly ⟨_, .value ha .nil, by decide⟩).bind
      fun G2 _ s2 h2 _ => .pure h2.orderly trivial
  | thenPromise =>
    refine (runtimeSlot_leads h hfirst).bind fun G1 promise s1 h1 hpromise => ?_
    refine (materialize_leads h1.orderly (hsecond.mono h1.le)).bind
      fun G2 listener s2 h2 hlistener => ?_
    exact (awaitPromise_leads h2.orderly (hpromise.mono h2.le) hlistener).bind
      fun G3 _ s3 h3 _ => .pure h3.orderly trivial
  | schedule =>
    refine (materialize_leads h hfirst).bind fun G1 function s1 h1 hfunction => ?_
    refine (materialize_leads h1.orderly (hsecond.mono h1.le)).bind
      fun G2 ticks s2 h2 hticks => ?_
    exact (callLibrary_effect_leads h2.orderly
      ⟨_, .value (hfunction.mono h2.le) (.value hticks .nil), by decide⟩).bind
      fun G3 _ s3 h3 _ => .pure h3.orderly trivial
  | bind =>
    refine (materialize_leads h hfirst).bind fun G1 function s1 h1 hfunction => ?_
    refine (materialize_leads h1.orderly (hsecond.mono h1.le)).bind
      fun G2 that s2 h2 hthat => ?_
    refine (freshResult_leads h2.orderly).bind fun G3 result s3 h3 hresult => ?_
    have hfunction3 := hfunction.mono (h2.trans h3).le
    exact (callLibrary_result_leads h3.orderly hresult (by simp)
      ⟨_, .value hfunction3 (.value (hthat.mono h3.le) (.result .nil)), by decide⟩).bind
      fun G4 _ s4 h4 hresult4 => .pure h4.orderly (hresult4.reads W.depth)

end

theorem mapM_expr_leads (hk : k.Leads) (es : List Expr) :
    ∀ {G s}, Orderly W G s →
      Leads W G s (es.mapM k.expr) (fun G' vs _ => ∀ v ∈ vs, v.Readable W G') := by
  induction es with
  | nil => exact fun h => .pure h fun _ hv => (nomatch hv)
  | cons e rest ih =>
    intro G s h
    rw [List.mapM_cons]
    refine (hk.expr W G s e h).bind fun G1 v s1 h1 hv => ?_
    refine (ih h1.orderly).bind fun G2 vs s2 h2 hvs => .pure h2.orderly fun v' hv' => ?_
    rcases List.mem_cons.1 hv' with rfl | hv'
    · exact hv.mono h2.le
    · exact hvs v' hv'

theorem headD_readable {vs : List Lowered} (h : ∀ v ∈ vs, v.Readable W G) :
    (vs.headD .undefined).Readable W G := by
  cases vs with
  | nil => trivial
  | cons v rest => exact h v List.mem_cons_self

theorem callIntrinsic_leads (hk : k.Leads) {callee : Ident} (h : Orderly W G s) :
    Leads W G s (callIntrinsic k op callee es) (fun G' v _ => v.Readable W G') := by
  unfold callIntrinsic
  split
  · exact .throw h
  · refine (mapM_expr_leads hk es h).bind fun G1 vs s1 h1 hvs => ?_
    exact applyIntrinsic_leads h1.orderly (headD_readable hvs)
      (headD_readable fun v hv => hvs v (List.mem_of_mem_tail hv))

theorem intrinsic?_run (callee : Ident) (s : Compiler) :
    ∃ op, intrinsic? callee s = .ok op s := by
  show ∃ op, (if (s.resolve callee.name).isSome then
    (pure none : Compile (Option Intrinsic)) else pure (Intrinsic.ofName? callee.name)) s = .ok op s
  split
  · exact ⟨_, rfl⟩
  · exact ⟨_, rfl⟩

end Compile

/-! ### Recorded calls -/

/-- The uses with one more recorded call. -/
def Uses.withCall (G : Uses) (caller callee : String) : Uses :=
  { G with calls := fun f g => G.calls f g ∨ f = caller ∧ g = callee }

theorem Uses.le_withCall (G : Uses) (caller callee : String) : G ≤ G.withCall caller callee :=
  { G.le_refl with calls := fun _ _ h => .inl h }

/-- A call may be added that closes no circle. -/
theorem Advances.addCall {caller callee : String} (h : Orderly W G s)
    (hcaller : s.context.declaration = some caller)
    (hback : callsReach s.calls callee caller = false) :
    Advances false W G s (G.withCall caller callee) (s.addCall caller callee) := by
  have hle := G.le_withCall caller callee
  have hnamed : Orderly W (G.withCall caller callee) s :=
    h.withNames hle s.names ⟨Nat.le_refl _, fun n hn => (h.freshSlot n hn).1⟩ h.freshChannel
      h.freshUnit h.records h.declaredUnit
  exact
    { (Advances.refl h : Advances false W G s G s) with
      le := hle
      orderly :=
        { hnamed with
          scopes := { hnamed.scopes with }
          callers := fun e he => by
            rcases Table.mem_put he with rfl | he
            · exact h.declaration caller hcaller
            · exact h.callers e he }
      current := .same rfl rfl (.refl _ _ _ _ _)
      units := fun e he => .inl he
      grows := .single ⟨s, caller, callee, rfl, hback, rfl⟩
      tracked := fun ht => { ht with
        call := fun f g hfg => Compiler.calls_addCall_iff.2 (hfg.imp_left (ht.call f g)) }
      adds := fun _ => { Adds.refl W.toTerms G s with
        calls := fun hkeep => Table.filter_put _ (hkeep caller hcaller) } }

/-- The function of a direct call has a unit, and one that was declared as nothing but a function is
    recognized as a top-level function. -/
theorem Orderly.directUnit (h : Orderly W G s) (hunit : s.directUnit? name = some unit) :
    G.unit unit = some (.declared unit) ∧
      ∃ sig, G.function name sig ∧ sig.unit = unit ∧
        (s.isGlobalFunction name = true ∨
          ∃ kind loop, G.slot sig.binding = some (.variable_ kind loop) ∧ kind ≠ .function) := by
  unfold Compiler.directUnit? at hunit
  split at hunit
  · next b sig hb hsig =>
    split at hunit
    · next hslot =>
      cases hunit
      have hmem := Table.mem_of_find? hsig
      obtain ⟨hfunction, huse, _⟩ := h.functions _ hmem
      refine ⟨huse, sig, hfunction, rfl, ?_⟩
      have hkind := (h.resolve hb).slot
      by_cases hbkind : b.kind = .function
      · left
        -- the global binding has the same slot, hence the same kind
        obtain ⟨b', hb', hslot'⟩ := h.declared _ hmem
        have hkind' := (h.own hb').slot
        have hslots : b'.slot = b.slot := hslot'.trans hslot.symm
        have hsame : b' = b := by
          obtain ⟨slot, kind⟩ := b
          obtain ⟨slot', kind'⟩ := b'
          cases hslots
          have hkinds := hkind'.symm.trans hkind
          cases hkinds
          rfl
        rw [hsame] at hb'
        simp [Compiler.isGlobalFunction, hb, hbkind, hb']
      · exact .inr ⟨b.kind, _, hslot ▸ hkind, hbkind⟩
    · cases hunit
  · cases hunit

namespace Compile

variable {k : Lowering} {W : Watch} {G : Uses} {s : Compiler}

theorem recordCall_leads {callee : Ident} (h : Orderly W G s) :
    Leads W G s (recordCall callee) (fun G' _ s' =>
      s'.scopes = s.scopes ∧ s'.current = s.current ∧ s'.functions = s.functions ∧
        ∀ f, s.context.declaration = some f → s.isGlobalFunction callee.name = true →
          G'.calls f callee.name) := by
  refine LeadsIn.read rfl ?_
  split
  · next hnone => exact .pure h ⟨rfl, rfl, rfl, fun f hf => by simp [hnone] at hf⟩
  · next caller hcaller =>
    split
    · split
      · exact .throw h
      · next hback =>
        refine ⟨_, Advances.addCall h hcaller (by simpa using hback), fun _ hn => hn, rfl, rfl, rfl,
          fun f hf _ => ?_⟩
        rw [hcaller] at hf
        exact .inr ⟨(Option.some.inj hf).symm, rfl⟩
    · next hglobal => exact .pure h ⟨rfl, rfl, rfl, fun _ _ hyes => absurd hyes hglobal⟩

/-! ### Call expressions -/

section

variable (hk : k.Leads) (h : Orderly W G s)

include hk h

/-- A function is called with the arguments of a call expression. -/
theorem callWith_leads {callee : Slot} (hcallee : G.Reads W.depth callee)
    (hthat : ∀ a, that = some a → G.Reads W.depth a) :
    Leads W G s (do return .slot (← callFunction callee that (← callArguments k es span)))
      (fun G' v _ => Lowered.Readable W G' v) := by
  refine (callArguments_leads hk h).bind fun G1 entries s1 h1 hentries => ?_
  exact (callFunction_leads h1.orderly (hcallee.mono h1.le)
    (fun a ha => (hthat a ha).mono h1.le) hentries).bind
    fun G2 a s2 h2 ha => .pure h2.orderly ha

theorem callExpr_leads {callee : Expr} :
    Leads W G s (callExpr k callee es span) (fun G' v _ => v.Readable W G') :=
  (exprSlot_leads hk h).bind fun _ _ _ h1 hfunction => callWith_leads hk h1.orderly hfunction nofun

theorem callNamed_leads {id : Ident} :
    Leads W G s (callNamed k id es span) (fun G' v _ => v.Readable W G') := by
  obtain ⟨op?, hop⟩ := intrinsic?_run id s
  refine LeadsIn.read hop ?_
  cases op? with
  | some op => exact callIntrinsic_leads hk h
  | none =>
    refine (recordCall_leads h).bind
      fun G1 _ s1 h1 ⟨hscopes, hcurrent, hfunctions, hrecorded⟩ => LeadsIn.read rfl ?_
    split
    · next unit hunit =>
      have hunit0 : s.directUnit? id.name = some unit := by
        rw [← hunit]
        simp only [Compiler.directUnit?, Compiler.resolve, hscopes, hcurrent, hfunctions]
      obtain ⟨huse, sig, hfunction, hsig, hkind⟩ := h.directUnit hunit0
      have hcall : G1.MayCall s1.context.declaration unit := by
        refine ⟨id.name, sig, h1.le.function _ _ hfunction, hsig, fun f hf => ?_⟩
        rw [h1.declaration] at hf
        refine hkind.imp (hrecorded f hf) ?_
        rintro ⟨kind, loop, hslot, hne⟩
        exact ⟨kind, loop, h1.le.slot _ _ hslot, hne⟩
      refine (callArguments_leads hk h1.orderly).bind fun G2 entries s2 h2 hentries => ?_
      have hcall2 : G2.MayCall s2.context.declaration unit := by
        rw [h2.declaration]
        exact hcall.mono h2.le
      exact (callUnit_leads h2.orderly ((h1.trans h2).le.unit _ _ huse)
        (UnitUse.isBody_declared unit) hcall2 hentries).bind
        fun G3 a s3 h3 ha => .pure h3.orderly ha
    · refine (lowerIdent_leads h1.orderly).bind fun G2 v s2 h2 hv => ?_
      refine (materialize_leads h2.orderly hv).bind fun G3 function s3 h3 hfunction => ?_
      exact callWith_leads hk h3.orderly hfunction nofun

theorem callSuper_leads : Leads W G s (callSuper k es span) (fun G' v _ => v.Readable W G') := by
  refine LeadsIn.read rfl ?_
  dsimp only
  split
  · next parent hparent _ =>
    refine (callArguments_leads hk h).bind fun G1 entries s1 h1 hentries => ?_
    have hvalue := (h.context.parentClass parent hparent W.depth).mono h1.le
    refine (callParent_leads h1.orderly hvalue hentries).bind fun G2 _ s2 h2 _ => ?_
    refine LeadsIn.read rfl ((setFields_leads hk h2.orderly).bind fun G3 _ s3 h3 _ => ?_)
    exact .pure h3.orderly trivial
  · exact .throw h

theorem callParentMethod_leads {key : MemberKey} {superSpan : Span} :
    Leads W G s (callParentMethod k key es superSpan span) (fun G' v _ => v.Readable W G') := by
  refine LeadsIn.read rfl ?_
  split
  · exact .throw h
  · exact .throw h
  · next that id hthat =>
    refine (parentMember_leads h).bind fun G1 method s1 h1 hmethod => ?_
    refine callWith_leads hk h1.orderly hmethod fun a ha => ?_
    cases ha
    exact (h.context.that that hthat W.depth).mono h1.le

theorem callMethod_leads :
    Leads W G s (callMethod k m es span) (fun G' v _ => v.Readable W G') := by
  refine (memberParts_leads hk h).bind fun G1 p s1 h1 ⟨hobject, hname⟩ => ?_
  refine (getMember_leads h1.orderly hobject hname).bind fun G2 method s2 h2 hmethod => ?_
  refine callWith_leads hk h2.orderly (hmethod.reads _) fun a ha => ?_
  cases ha
  exact hobject.mono h2.le

theorem callMember_leads :
    Leads W G s (callMember k m es span) (fun G' v _ => v.Readable W G') := by
  unfold callMember
  split
  · exact callParentMethod_leads hk h
  · refine LeadsIn.read rfl ?_
    split
    · refine (globalSlot_leads h).bind fun G1 function s1 h1 hfunction => ?_
      exact callWith_leads hk h1.orderly hfunction.takes.reads nofun
    · exact callMethod_leads hk h

theorem lowerCall_leads {callee : Expr} {optional : Bool} :
    Leads W G s (lowerCall k callee es optional span) (fun G' v _ => v.Readable W G') := by
  unfold lowerCall
  split
  · exact .throw h
  · split
    · exact callNamed_leads hk h
    · exact callSuper_leads hk h
    · split
      · exact callExpr_leads hk h
      · exact callMember_leads hk h
    · exact callExpr_leads hk h

theorem lowerNew_leads {callee : Expr} :
    Leads W G s (lowerNew k callee es span) (fun G' v _ => v.Readable W G') := by
  refine (exprSlot_leads hk h).bind fun G1 cls s1 h1 hcls => ?_
  refine (callArguments_leads hk h1.orderly).bind fun G2 entries s2 h2 hentries => ?_
  have hcls2 := hcls.mono h2.le
  have hname : MemberName.Readable W G2 (.known "prototype") := trivial
  refine (getMember_leads h2.orderly hcls2 hname).bind fun G3 prototype s3 h3 hprototype => ?_
  have hseen : ∀ source, some (Source.copy (.field prototype "value")) = some source →
      (G3.permits W.toStanding).source source := by
    intro source hsource
    cases hsource
    exact (hprototype.reads _).sees
  refine (allocate_leads h3.orderly rfl hseen).bind fun G4 object s4 h4 hobject => ?_
  have hentries4 := hentries.mono (h3.trans h4).le
  refine (withResult_leads h4.orderly hentries4).bind fun G5 p s5 h5 ⟨hresult, hentries5⟩ => ?_
  have hcls5 := hcls2.mono ((h3.trans h4).trans h5).le
  have hobject5 := hobject.mono h5.le
  have hthis : ValueEntries W G5 [("this", .valueOf object), ("newtarget", .valueOf cls)] :=
    .cons valueEntry_this (hobject5.reads _).offers
      (.cons valueEntry_newTarget hcls5.offers .nil)
  refine (callThrough_leads h5.orderly hcls5 hresult (hentries5.append hthis)).bind
    fun G6 _ s6 h6 hresult6 => ?_
  refine (LeadsIn.forM (fun G' _ => W.Result G' object ∧ W.Result G' p.1) h6.orderly
    ⟨hobject5.mono h6.le, hresult6⟩ fun kind _ G7 s7 h7 ⟨hobject7, hresult7⟩ => ?_).bind
    fun G8 _ s8 h8 ⟨hobject8, _⟩ => .pure h8.orderly (hobject8.reads _)
  have hreads := hresult7.reads W.depth
  exact (setIf_slot_leads h7.orderly (Permits.guard_kindIs hreads.sees kind) hobject7.takes
    hreads.offers).imp fun _ _ _ h8 _ => ⟨hobject7.mono h8.le, hresult7.mono h8.le⟩

end

end Compile

end PackScript
