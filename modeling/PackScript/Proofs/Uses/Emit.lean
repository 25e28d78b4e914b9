import PackScript.Proofs.Folding
import PackScript.Proofs.Uses.State

namespace PackScript

/-!
# Fresh names and emitted code keep to the uses

The steps that all lowering rules are made of.

* `Uses.withSlot`, `Uses.withChannel`, `Uses.withUnit` — the uses with one more name.
* `Orderly.withNames` — names are handed out, each with its use.
* `emit_leads`, `callLibrary_leads` — code is emitted.
* `materialize_leads`, `assign_leads`, `truth_leads` — what the rules for values and tests emit.
-/

variable {entries : Entries} {guard : Guard} {is : List Instr} {v : Lowered} {r : Routine}
  {target : Slot} {source : Source}

/-! ### Uses of fresh names -/

namespace Uses

/-- The uses with one for a further slot. -/
def withSlot (G : Uses) (s : Slot) (use : SlotUse) : Uses :=
  { G with slot := fun x => if x = s then some use else G.slot x }

/-- The uses with one for a further channel. -/
def withChannel (G : Uses) (c : Channel) (use : ChannelUse) : Uses :=
  { G with channel := fun x => if x = c then some use else G.channel x }

/-- The uses with one for a further unit. -/
def withUnit (G : Uses) (name : String) (use : UnitUse) : Uses :=
  { G with unit := fun n => if n = name then some use else G.unit n }

variable {G : Uses}

@[simp] theorem withSlot_self (s : Slot) (use : SlotUse) :
    (G.withSlot s use).slot s = some use := by
  simp [withSlot]

@[simp] theorem withChannel_self (c : Channel) (use : ChannelUse) :
    (G.withChannel c use).channel c = some use := by
  simp [withChannel]

@[simp] theorem withUnit_self (name : String) (use : UnitUse) :
    (G.withUnit name use).unit name = some use := by
  simp [withUnit]

theorem le_withSlot {s : Slot} (use : SlotUse) (h : G.slot s = none) : G ≤ G.withSlot s use := by
  refine { G.le_refl with slot := fun x u hx => ?_ }
  have hne : x ≠ s := by rintro rfl; simp [h] at hx
  simpa [withSlot, hne] using hx

theorem le_withChannel {c : Channel} (use : ChannelUse) (h : G.channel c = none) :
    G ≤ G.withChannel c use := by
  refine { G.le_refl with channel := fun x u hx => ?_ }
  have hne : x ≠ c := by rintro rfl; simp [h] at hx
  simpa [withChannel, hne] using hx

theorem le_withUnit {name : String} (use : UnitUse) (h : G.unit name = none) :
    G ≤ G.withUnit name use := by
  refine { G.le_refl with unit := fun x u hx => ?_ }
  have hne : x ≠ name := by rintro rfl; simp [h] at hx
  simpa [withUnit, hne] using hx

end Uses

section

variable {opens : Bool} {W : Watch} {G G' : Uses} {s : Compiler}

theorem Compiler.code_push (s : Compiler) (is : List Instr) : (s.push is).code = s.code ++ is :=
  s.toList_instrs_push is

variable (h : Orderly W G s)
include h

/-- Further names may be handed out when their uses are as those of fresh names are. -/
theorem Orderly.withNames (hle : G ≤ G') (names : Names)
    (hslots : s.names.slots ≤ names.slots ∧ ∀ n, names.slots ≤ n → G'.slot ⟨n⟩ = none)
    (hchannels : ∀ n, names.channels ≤ n → G'.channel ⟨n⟩ = none)
    (hunits : ∀ n, names.units ≤ n → G'.unit (generatedUnit n) = none)
    (hrecords : G'.records = names.records)
    (hdeclared : ∀ name u, G'.unit (unitNameOf name) = some u →
      u = .declared (unitNameOf name)) :
    Orderly W G' { s with names := names } :=
  { h with
    ns := hle.ns.trans h.ns
    freshSlot := fun n hn => ⟨hslots.2 n hn, (h.freshSlot n (Nat.le_trans hslots.1 hn)).2⟩
    freshChannel := hchannels
    freshUnit := hunits
    records := hrecords
    declaredUnit := hdeclared
    scopes := { h.scopes.mono hle with
      noted := fun e he => Nat.lt_of_lt_of_le (h.scopes.noted e he) hslots.1 }
    context := h.context.mono hle
    functions := fun e he => by
      obtain ⟨hfunction, hunit, hname⟩ := h.functions e he
      exact ⟨hle.function _ _ hfunction, hle.unit _ _ hunit, hname⟩
    current := h.current.mono hle
    units := fun e he => (h.units e he).mono hle }

/-- Nothing but names was handed out. -/
theorem Advances.withNames {names : Names} (hle : G ≤ G')
    (horderly : Orderly W G' { s with names }) (hnames : s.names.Le names)
    (hfunction : G'.function = G.function) (hcalls : G'.calls = G.calls) :
    Advances opens W G s G' { s with names := names } :=
  { (Advances.refl h : Advances opens W G s G s) with
    le := hle
    orderly := horderly
    names := hnames
    current := .same rfl rfl (.refl _ _ _ _ _)
    units := fun _ he => .inl he
    tracked := fun ht =>
      ⟨fun f sig hf => ht.function f sig (hfunction ▸ hf), fun f g hg => ht.call f g (hcalls ▸ hg)⟩
    adds := fun _ => { Adds.refl W.toTerms G s with } }

theorem Orderly.freshSlot_use (use : SlotUse) :
    Orderly W (G.withSlot ⟨s.names.slots⟩ use) { s with names.slots := s.names.slots + 1 } := by
  have hfresh := h.freshSlot _ (Nat.le_refl _)
  refine h.withNames (Uses.le_withSlot use hfresh.1) _ ⟨Nat.le_succ _, fun n hn => ?_⟩
    h.freshChannel h.freshUnit h.records h.declaredUnit
  have hne : n ≠ s.names.slots := by
    have : s.names.slots + 1 ≤ n := hn
    omega
  simpa [Uses.withSlot, hne] using (h.freshSlot n (Nat.le_of_succ_le hn)).1

theorem Orderly.freshChannel_use (use : ChannelUse) :
    Orderly W (G.withChannel ⟨s.names.channels⟩ use)
      { s with names.channels := s.names.channels + 1 } := by
  refine h.withNames (Uses.le_withChannel use (h.freshChannel _ (Nat.le_refl _))) _
    ⟨Nat.le_refl _, fun n hn => (h.freshSlot n hn).1⟩ (fun n hn => ?_) h.freshUnit h.records
    h.declaredUnit
  have hne : n ≠ s.names.channels := by
    have : s.names.channels + 1 ≤ n := hn
    omega
  simpa [Uses.withChannel, hne] using h.freshChannel n (Nat.le_of_succ_le hn)

theorem Orderly.freshUnit_use (use : UnitUse) :
    Orderly W (G.withUnit (generatedUnit s.names.units) use)
      { s with names.units := s.names.units + 1 } := by
  refine h.withNames (Uses.le_withUnit use (h.freshUnit _ (Nat.le_refl _))) _
    ⟨Nat.le_refl _, fun n hn => (h.freshSlot n hn).1⟩ h.freshChannel (fun n hn => ?_) h.records
    fun name u hu => ?_
  · have hne : generatedUnit n ≠ generatedUnit s.names.units := by
      intro heq
      have : s.names.units + 1 ≤ n := hn
      have := generatedUnit_injective heq
      omega
    simpa [Uses.withUnit, hne] using h.freshUnit n (Nat.le_of_succ_le hn)
  · have hne := unitNameOf_ne_generatedUnit name s.names.units
    exact h.declaredUnit name u (by simpa [Uses.withUnit, hne] using hu)

omit h in
theorem Advances.freshSlot (use : SlotUse) (h : Orderly W G s) :
    Advances opens W G s (G.withSlot ⟨s.names.slots⟩ use)
      { s with names.slots := s.names.slots + 1 } :=
  .withNames h (Uses.le_withSlot use (h.freshSlot _ (Nat.le_refl _)).1) (h.freshSlot_use use)
    ⟨Nat.le_succ _, Nat.le_refl _, Nat.le_refl _, Nat.le_refl _⟩ rfl rfl

omit h in
theorem Advances.freshChannel (use : ChannelUse) (h : Orderly W G s) :
    Advances opens W G s (G.withChannel ⟨s.names.channels⟩ use)
      { s with names.channels := s.names.channels + 1 } :=
  .withNames h (Uses.le_withChannel use (h.freshChannel _ (Nat.le_refl _)))
    (h.freshChannel_use use) ⟨Nat.le_refl _, Nat.le_refl _, Nat.le_succ _, Nat.le_refl _⟩ rfl rfl

omit h in
/-- A unit gets a name. It is still to be made. -/
theorem Advances.freshUnit (use : UnitUse) (h : Orderly W G s) :
    Advances opens W G s (G.withUnit (generatedUnit s.names.units) use)
      { s with names.units := s.names.units + 1 } :=
  .withNames h (Uses.le_withUnit use (h.freshUnit _ (Nat.le_refl _)))
    (h.freshUnit_use use) ⟨Nat.le_refl _, Nat.le_refl _, Nat.le_refl _, Nat.le_succ _⟩ rfl rfl

/-- Code that keeps to the uses may be added. -/
theorem Orderly.push
    (his : G.Pieces (s.site W) W.writes s.address? is s.address?) : Orderly W G (s.push is) :=
  { h with
    scopes := { h.scopes with }
    current := h.current.prolong ⟨is, s.code_push is, his⟩ }

theorem Advances.push (his : G.Pieces (s.site W) W.writes s.address? is s.address?) :
    Advances opens W G s G (s.push is) :=
  { (Advances.refl h : Advances opens W G s G s) with
    orderly := h.push his
    current := .same rfl rfl ⟨is, s.code_push is, his⟩
    units := fun _ he => .inl he
    adds := fun _ => { Adds.refl W.toTerms G s with } }

end

namespace Compile

variable {W : Watch} {G : Uses} {s : Compiler}

variable (h : Orderly W G s)
include h

/-! ### Fresh names -/

omit h in
theorem freshSlot_leads (use : SlotUse) (h : Orderly W G s) :
    Leads W G s freshSlot (fun G' a _ => G'.slot a = some use ∧ W.writes a) :=
  ⟨_, .freshSlot use h, fun _ hn => hn, Uses.withSlot_self _ _,
    (h.freshSlot _ (Nat.le_refl _)).2⟩

/-- A slot for an intermediate result. -/
theorem freshResult_leads :
    Leads W G s freshSlot (fun G' a _ => W.Result G' a) :=
  freshSlot_leads (.result W.root) h

theorem freshRecord_leads :
    Leads W G s freshRecord (fun G' r _ => r.index < G'.records) := by
  have hrecords := h.records
  have hle : G ≤ { G with records := G.records + 1 } :=
    { G.le_refl with records := Nat.le_succ _ }
  refine ⟨_, .withNames h hle (h.withNames hle _ ⟨Nat.le_refl _, fun n hn => (h.freshSlot n hn).1⟩
    h.freshChannel h.freshUnit ?_ h.declaredUnit)
    ⟨Nat.le_refl _, Nat.le_succ _, Nat.le_refl _, Nat.le_refl _⟩ rfl rfl, fun _ hn => hn, ?_⟩
  · show G.records + 1 = s.names.records + 1
    omega
  · show s.names.records < G.records + 1
    omega

omit h in
theorem freshChannel_leads (use : ChannelUse) (h : Orderly W G s) :
    Leads W G s freshChannel (fun G' c _ => G'.channel c = some use) :=
  ⟨_, .freshChannel use h, fun _ hn => hn, Uses.withChannel_self _ _⟩

/-! ### Instructions -/

theorem emit_leads {i : Instr} (hi : G.Piece (s.site W) W.writes s.address? [i]) :
    Leads W G s (emit i) (fun G' _ _ => G' = G) :=
  ⟨G, .push h hi.pieces, fun _ hn => hn, rfl⟩

/-- A write of a script value to a slot. -/
theorem setIf_slot_leads (hguard : (G.permits W.toStanding).guard guard)
    (htarget : W.Takes G target) (hsource : G.Offers W.toStanding source) :
    Leads W G s (setIf guard (.slot target) source) (fun G' _ _ => G' = G) :=
  emit_leads h (.value hguard htarget.takes htarget.sees htarget.writes hsource)

theorem set_slot_leads (htarget : W.Takes G target) (hsource : G.Offers W.toStanding source) :
    Leads W G s (set (.slot target) source) (fun G' _ _ => G' = G) :=
  setIf_slot_leads h Permits.guard_always htarget hsource

/-! ### Library routines -/

omit h in
/-- A library routine is called with a channel that is filled for it. -/
theorem callLibrary_leads {routine : Routine} (target : Option Slot) (h : Orderly W G s)
    (htarget : ∀ a, target = some a → G.Target (s.site W) a ∧ W.writes a ∧
      ("result", .addressOf a) ∈ entries)
    (hentries : G.Supplies W.toStanding routine target entries) :
    Leads W G s (callLibrary routine entries) (fun G' _ s' => G ≤ G' ∧
      s'.current.name = s.current.name) := by
  have h1 : Advances false W G s _ _ := .freshChannel (.library routine target) h
  have hpiece : Uses.Piece _ (s.site W) W.writes s.address?
      (Run.libraryCode ⟨s.names.channels⟩ routine entries) :=
    .library (Uses.withChannel_self (G := G) _ _)
      (fun a ha => (htarget a ha).imp_left (·.mono h1.le)) (hentries.mono h1.le)
  exact .of_ok (callLibrary_run _ _ _) (h1.trans (.push h1.orderly hpiece.pieces))
    (fun _ hn => hn) ⟨h1.le, rfl⟩

/-- A routine that answers to an intermediate result. -/
theorem callLibrary_result_leads {result : Slot} (hresult : W.Result G result)
    (hmem : ("result", .addressOf result) ∈ entries)
    (hentries : G.Supplies W.toStanding r (some result) entries) :
    Leads W G s (callLibrary r entries) (fun G' _ _ => W.Result G' result) := by
  refine (callLibrary_leads (some result) h (fun a ha => ?_) hentries).imp
    fun _ _ _ _ hle => hresult.mono hle.1
  obtain rfl := Option.some.inj ha
  exact ⟨.inl hresult.1, hresult.2, hmem⟩

/-- A routine that does not answer. -/
theorem callLibrary_effect_leads (hentries : G.Supplies W.toStanding r none entries) :
    Leads W G s (callLibrary r entries) (fun G' _ _ => G ≤ G') :=
  (callLibrary_leads none h nofun hentries).imp fun _ _ _ _ h => h.1

end Compile

/-! ### Values -/

/-- The slot of a lowered value, if it has one, holds script values that code may mention. -/
def Lowered.Readable (W : Watch) (G : Uses) : Lowered → Prop
  | .known _ => True
  | .slot s => G.Reads W.depth s

section

variable {W : Watch} {G G' : Uses} {v : Lowered}

theorem Lowered.Readable.mono (h : v.Readable W G) (hle : G ≤ G') : v.Readable W G' := by
  cases v with
  | known value => trivial
  | slot s => exact Uses.Reads.mono h hle

theorem Lowered.Readable.offers (h : v.Readable W G) : G.Offers W.toStanding v.source := by
  cases v with
  | known value => exact Uses.offers_literal (value.proper _ _)
  | slot s => exact Uses.Reads.offers h

end

namespace Compile

variable {W : Watch} {G : Uses} {s : Compiler}

/-- The flag of a truth, if it has one. -/
def Truth.Readable (W : Watch) (G : Uses) : Truth → Prop
  | .known _ => True
  | .flag s => W.Flag G s

/-- A fresh slot for a scalar, which is written at once. -/
theorem slotOf_result_leads (value : Scalar) (h : Orderly W G s) :
    Leads W G s (slotOf value) (fun G' a _ => W.Result G' a) := by
  refine (freshResult_leads h).bind fun G1 a s1 h1 ha => ?_
  refine (set_slot_leads h1.orderly ha.takes (Uses.offers_literal (value.proper _ _))).bind
    fun G2 _ s2 h2 _ => ?_
  exact .pure h2.orderly (ha.mono h2.le)

/-- A fresh flag. -/
theorem slotOf_flag_leads (value : Scalar) (h : Orderly W G s) :
    Leads W G s (slotOf value) (fun G' a _ => W.Flag G' a) := by
  refine (freshSlot_leads (.flag W.root) h).bind fun G1 a s1 h1 ⟨ha, hwrites⟩ => ?_
  refine (emit_leads h1.orderly (.flag ha hwrites value)).bind fun G2 _ s2 h2 _ => ?_
  exact .pure h2.orderly ⟨h2.le.slot _ _ ha, hwrites⟩

/-- A fresh slot for a value of a known kind, of which the payload is written as well. -/
theorem scalarSlot_leads {c : Compile Slot} (value : Scalar) (payloads : List (Guard × Source))
    (hrun : ∀ s, c s = .ok ⟨s.names.slots⟩ ({ s with names.slots := s.names.slots + 1 }.push
      (.set .always (.slot ⟨s.names.slots⟩) (.literal value.slot) ::
        payloads.map fun e : Guard × Source =>
          .set e.1 (.field ⟨s.names.slots⟩ "value") e.2)))
    (h : Orderly W G s)
    (hpayloads : ∀ e ∈ payloads, (G.permits W.toStanding).guard e.1 ∧
      (G.permits W.toStanding).source e.2 ∧ G.Payload value.kind e.2) :
    Leads W G s c (fun G' a _ => ∀ depth, G'.Reads depth a) := by
  have h1 : Advances false W G s _ _ := .freshSlot (.scalar W.root value.kind) h
  have hslot := Uses.withSlot_self (G := G) ⟨s.names.slots⟩ (.scalar W.root value.kind)
  have hle := Uses.permits_mono h1.le W.toStanding
  refine .of_ok (hrun s) (h1.trans (.push h1.orderly (Uses.Piece.pieces (.scalar hslot
    (h.freshSlot _ (Nat.le_refl _)).2 fun e he => ?_)))) (fun _ hn => hn)
    (Uses.reads_of_slot hslot rfl rfl)
  obtain ⟨hguard, hsource, hpayload⟩ := hpayloads e he
  exact ⟨hle.guard hguard, hle.source hsource, hpayload.mono h1.le⟩

variable (h : Orderly W G s)
include h

theorem assign_leads (htarget : W.Takes G target) (hv : v.Readable W G) :
    Leads W G s (assign target v) (fun G' _ _ => G' = G) := by
  cases v with
  | known value => exact set_slot_leads h htarget hv.offers
  | slot a =>
    rw [assign]
    split
    · exact .pure h rfl
    · exact set_slot_leads h htarget hv.offers

theorem materialize_leads (hv : v.Readable W G) :
    Leads W G s (materialize v) (fun G' a _ => G'.Reads W.depth a) := by
  cases v with
  | slot a => exact .pure h hv
  | known value => exact (slotOf_result_leads value h).imp fun _ _ _ _ ha => ha.reads _

/-- A copy of a value, which later writes of variables do not change. -/
theorem snapshot_leads (hv : v.Readable W G) :
    Leads W G s (snapshot v) (fun G' a _ => a.Readable W G') := by
  cases v with
  | known value => exact .pure h trivial
  | slot a =>
    refine (freshResult_leads h).bind fun G1 copy s1 h1 hcopy => ?_
    refine (set_slot_leads h1.orderly hcopy.takes (hv.mono h1.le).offers).bind
      fun G2 _ s2 h2 _ => ?_
    exact .pure h2.orderly ((hcopy.mono h2.le).reads _)

theorem raise_leads {flag : Slot}
    (hguard : (G.permits W.toStanding).guard guard) (hflag : W.Flag G flag) :
    Leads W G s (raise guard flag) (fun G' _ _ => G' = G) :=
  emit_leads h (.raised hguard hflag.1 hflag.2 nofun)

theorem truthFlag_leads {a : Slot} (ha : G.Sees W.depth a) :
    Leads W G s (truthFlag a) (fun G' flag _ => W.Flag G' flag) := by
  refine (slotOf_flag_leads _ h).bind fun G1 flag s1 h1 hflag => ?_
  refine (LeadsIn.forM (fun G' _ => W.Flag G' flag) h1.orderly hflag
    fun guard hguard G2 s2 h2 hflag2 => ?_).bind fun G3 _ s3 h3 hflag3 => .pure h3.orderly hflag3
  have hsees : (G2.permits W.toStanding).slot a := (ha.mono h1.le).mono h2.le
  exact (raise_leads h2.orderly (Permits.guard_truthGuards hsees guard hguard) hflag2).imp
    fun _ _ _ _ hG => hG ▸ hflag2

theorem truth_leads (hv : v.Readable W G) :
    Leads W G s (truth v) (fun G' a _ => Truth.Readable W G' a) := by
  cases v with
  | known value => exact .pure h trivial
  | slot a =>
    exact (truthFlag_leads h hv.sees).bind fun G1 flag s1 h1 hflag => .pure h1.orderly hflag

end Compile

end PackScript
