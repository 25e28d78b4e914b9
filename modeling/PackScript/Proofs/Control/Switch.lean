import PackScript.Proofs.Control.Statement

namespace PackScript

/-!
# Switches

The cases of a switch are tried in turn. A flag keeps whether one has matched; after that no other
one runs, whatever the statements of the case did to the subject.

* `Compile.straight_firstMatch`, `Compile.caseTest_yields` — the case is the first one that matches.
* `Compile.lowerCases_yields` — the cases that are left, by induction on them.
* `Compile.lowerSwitch_lowers` — the switch.
-/

variable {a b : Bool} {cases : List SwitchCase} {m : Machine} {n : Nat} {y : Scalar}
  {equal matched subject : Slot}

open Machine (From)

namespace Compile

variable {L : Layout} {s : Compiler} {k : Lowering} {inside : Bool}

/-! ### Tests of cases -/

/-- An expression whose value goes to a slot. -/
theorem exprSlot_yields {e : Expr} (he : ExprLowered L k e) (hs : Ready L s) :
    Yields s (exprSlot k e) fun a is s' => a.index < s'.names.slots ∧
      ∀ m env, s'.Within m → m.Stored → L.Fits env m →
        Run.Does (From s.names.slots) is m fun m' =>
          m'.slots.get? a.key = some (e.value env).slot := by
  refine (he s hs).bind fun v is1 s1 h1 hv => ?_
  refine (materialize_yields hv.below).imp fun a is2 s2 h2 hslot => ?_
  refine ⟨hslot.below, fun m env hwithin hm hfits => ?_⟩
  refine (hv.runs m env (hwithin.of_prefix h2.units) hm hfits).append (fun m1 hq1 hv1 => ?_)
    fun x => Nat.le_trans h1.slots
  exact (hslot.runs m1 _ hq1.stored hv1).does

/-- A flag that is set while another one is not. -/
theorem holds_firstMatch (hequal : m.Flagged equal a) (hmatched : m.Flagged matched b) :
    m.holds ((isTrue equal).and (.field matched "value") (.bool false)) = (a && !b) := by
  have hread : m.read (.field equal "value") = some (.bool a) := Machine.read_value hequal
  have hread' : m.read (.field matched "value") = some (.bool b) := Machine.read_value hmatched
  cases b <;> simp [Machine.holds, isTrue, Guard.when, Guard.and, Machine.meets, hread, hread',
    Nbt.fits, Nbt.same]

/-- The comparison of a case. -/
theorem does_equals {test : Slot} {x : Scalar} (c : Channel) (hm : m.Stored)
    (hsubject : m.slots.get? subject.key = some x.slot)
    (htest : m.slots.get? test.key = some y.slot) (hequal : From n equal) :
    Run.Does (From n) (Run.libraryCode c .equals
      [("left", .addressOf subject), ("right", .addressOf test), ("result", .addressOf equal),
       ("operation", .text BinaryOp.strictEq.text)]) m
      (·.Flagged equal (Scalar.strictEquals x y)) := by
  obtain ⟨v, hv, hrun⟩ := Run.straight_operator (show BinaryOp.strictEq.routine? = _ from rfl) c
    equal hm hsubject htest
  obtain rfl : Scalar.boolean (Scalar.strictEquals x y) = v := Option.some.inj hv
  rw [Run.literalEntries_operator] at hrun
  exact ⟨0, _, hrun.reaches, (Machine.Quiet.putChannel hm _ _).trans
    (.putSlot (hm.putChannel _ _) hequal _), Machine.get?_putSlot_self _ _ _⟩

/-- Flags for a case that is the first one that matches, and for one that has matched. -/
theorem straight_firstMatch {hit : Slot} (hm : m.Stored) (hequal : m.Flagged equal a)
    (hmatched : m.Flagged matched b) (hne : equal ≠ hit) (hne' : matched ≠ hit) :
    ∃ m', Run.Straight ([.set .always (.slot hit) (.literal (Scalar.boolean false).slot)] ++
        ([Run.raiseCode ((isTrue equal).and (.field matched "value") (.bool false)) hit] ++
          [Run.raiseCode (isTrue hit) matched])) m m' ∧
      m.Quiet (fun z => z = matched ∨ z = hit) m' ∧
      m'.Flagged hit (a && !b) ∧ m'.Flagged matched (b || (a && !b)) := by
  have hset : Run.Straight [.set .always (.slot hit) (.literal (Scalar.boolean false).slot)] m
      (m.putSlot hit (Scalar.boolean false).slot) := Run.straight_set_slot hm rfl fun _ => rfl
  have hq1 : m.Quiet (· = hit) (m.putSlot hit (Scalar.boolean false).slot) :=
    Machine.Quiet.putSlot (P := (· = hit)) hm rfl _
  have hhit1 : (m.putSlot hit (Scalar.boolean false).slot).Flagged hit false :=
    Machine.get?_putSlot_self _ _ _
  have hequal1 : Machine.Flagged _ equal a := (hq1.slots equal hne).trans hequal
  have hmatched1 : Machine.Flagged _ matched b := (hq1.slots matched hne').trans hmatched
  obtain ⟨m2, hrun2, hq2, hhit2⟩ := Run.straight_raise hq1.stored hhit1
    ((isTrue equal).and (.field matched "value") (.bool false))
  rw [holds_firstMatch hequal1 hmatched1, Bool.false_or] at hhit2
  have hmatched2 : m2.Flagged matched b := (hq2.slots matched hne').trans hmatched1
  obtain ⟨m3, hrun3, hq3, hmatched3⟩ := Run.straight_raise hq2.stored hmatched2 (isTrue hit)
  rw [Machine.holds_isTrue hhit2] at hmatched3
  exact ⟨m3, hset.append (hrun2.append hrun3),
    ((hq1.trans hq2).mono fun _ => .inr).trans (hq3.mono fun _ => .inl),
    (hq3.slots hit (Ne.symm hne')).trans hhit2, hmatched3⟩

/-- The instructions that find out whether a case is the first one that matches. -/
def matchCode (c : Channel) (subject matched test equal hit : Slot) : List Instr :=
  Run.libraryCode c .equals
    [("left", .addressOf subject), ("right", .addressOf test), ("result", .addressOf equal),
     ("operation", .text BinaryOp.strictEq.text)] ++
    ([.set .always (.slot hit) (.literal (Scalar.boolean false).slot)] ++
      ([Run.raiseCode ((isTrue equal).and (.field matched "value") (.bool false)) hit] ++
        [Run.raiseCode (isTrue hit) matched]))

theorem caseMatch_yields (subject matched test : Slot) (s : Compiler) :
    Yields s (caseMatch subject matched test) fun hit is s' => ∃ c equal,
      is = matchCode c subject matched test equal hit ∧ From s.names.slots equal ∧
        From s.names.slots hit ∧ equal ≠ hit ∧ hit.index < s'.names.slots := by
  refine (freshSlot_yields s).bind fun equal is1 s1 h1 hslot => ?_
  obtain ⟨rfl, rfl, hs1⟩ := hslot
  refine (callLibrary_yields _ _ s1).bind fun _ is2 s2 h2 hcode => ?_
  obtain ⟨c, rfl⟩ := hcode
  refine (slotOf_yields _ s2).bind fun hit is3 s3 h3 hslot => ?_
  obtain ⟨rfl, hs3, rfl⟩ := hslot
  refine (emit_yields _ s3).bind fun _ is4 s4 h4 hcode => ?_
  subst hcode
  refine (emit_yields _ s4).bind fun _ is5 s5 h5 hcode => ?_
  subst hcode
  have hs2 := h2.slots
  have hs4 := h4.slots
  have hs5 := h5.slots
  have hlt : s.names.slots < s2.names.slots := by omega
  refine .pure ⟨c, ⟨s.names.slots⟩, rfl, Nat.le_refl _, Nat.le_of_lt hlt, fun heq => ?_, ?_⟩
  · exact absurd (congrArg Slot.index heq) (Nat.ne_of_lt hlt)
  · show s2.names.slots < s5.names.slots
    omega

theorem caseTest_yields {test : Expr} (htest : ExprLowered L k test) (hs : Ready L s)
    (hsubject : subject.index < s.names.slots) (hmatched : matched.index < s.names.slots) :
    Yields s (caseTest k subject matched test) fun hit is s' =>
      From s.names.slots hit ∧ hit.index < s'.names.slots ∧
      ∀ m env x b, s'.Within m → m.Stored → L.Fits env m → m.Flagged matched b →
        m.slots.get? subject.key = some (Scalar.slot x) →
        Run.Does (fun z => z = matched ∨ From s.names.slots z) is m fun m' =>
          m'.Flagged hit (Scalar.strictEquals x (test.value env) && !b) ∧
          m'.Flagged matched (b || (Scalar.strictEquals x (test.value env) && !b)) := by
  refine (exprSlot_yields htest hs).bind fun test' is1 s1 h1 htest1 => ?_
  obtain ⟨htest', hruns⟩ := htest1
  refine (caseMatch_yields subject matched test' s1).imp fun hit is2 s2 h2 hcode => ?_
  obtain ⟨c, equal, rfl, hequal1, hhit1, hne, hbelow⟩ := hcode
  have hequal : From s.names.slots equal := Nat.le_trans h1.slots hequal1
  have hhit : From s.names.slots hit := Nat.le_trans h1.slots hhit1
  refine ⟨hhit, hbelow, fun m env x b hwithin hm hfits hflag hx => ?_⟩
  -- the subject and the flag are from before
  have hkeep : ∀ {m m' : Machine} {a : Slot}, m.Quiet (From s.names.slots) m' →
      a.index < s.names.slots → m'.slots.get? a.key = m.slots.get? a.key :=
    fun hquiet ha => hquiet.slots _ (Nat.not_le_of_lt ha)
  obtain ⟨d1, m1, hrun1, hq1, htest1⟩ := hruns m env (hwithin.of_prefix h2.units) hm hfits
  obtain ⟨d2, m2, hrun2, hq2, hequal2⟩ :=
    does_equals c hq1.stored ((hkeep hq1 hsubject).trans hx) htest1 hequal
  have hflag2 : m2.Flagged matched b := (hkeep (hq1.trans hq2) hmatched).trans hflag
  have hne' : matched ≠ hit := by
    rintro rfl
    exact absurd hmatched (Nat.not_lt_of_le hhit)
  obtain ⟨m3, hrun3, hq3, hflags⟩ := straight_firstMatch hq2.stored hequal2 hflag2 hne hne'
  have hq : m.Quiet (fun z => z = matched ∨ From s.names.slots z) m2 :=
    (hq1.trans hq2).mono fun _ => .inr
  have hlast : m2.Quiet (fun z => z = matched ∨ From s.names.slots z) m3 :=
    hq3.mono fun _ => .imp_right fun hz => hz ▸ hhit
  exact ⟨_, m3, hrun1.append (hrun2.append hrun3.reaches), hq.trans hlast, hflags⟩

/-! ### Cases -/

/-- The statements of a case, which run where the guard holds. -/
theorem lowerCase_yields {guard : Guard} {body : List Stmt} {act : Store.Action}
    (hbody : Lowers L true (stmts k body) act) (hs : Ready L s)
    (hinside : 0 < s.context.breakables) (hguard : guard.Reads (·.index < s.names.slots)) :
    Yields s (lowerCase k guard body) fun _ is s' => ∀ m σ, s'.Within m → L.Matches σ m →
      Run.Follows L (L.Written s.names.slots) is m
        (if m.holds guard then Store.leave act σ else some (.next, σ)) := by
  have hpart : Yields (s.openPart .case true) (stmts k body) fun _ is s' =>
      Simulates L s act is s' := hbody _ (hs.openPart _ _) fun _ => hinside
  exact part_yields hs hguard hpart

/-- What the cases that are left do if none has matched yet. -/
noncomputable def casesAction (subject : Scalar) (default? : Option (List Stmt))
    (cases : List SwitchCase) : Store.Action :=
  Store.leave fun σ => (execMatch subject cases σ).getD
    (((execDefault cases σ).or (default?.map (execAll · σ))).getD (some (.next, σ)))

/-- The slot of the subject still holds a scalar after statements, and the same one if the state is
    the same. It may be the slot of a variable. -/
theorem subject_changes {m' : Machine} {σ σ' : Store} (hchanges : m.Changes (L.Written n) m')
    (hm : L.Matches σ m) (hm' : L.Matches σ' m') (hlt : subject.index < n)
    (hy : m.slots.get? subject.key = some y.slot) :
    ∃ y' : Scalar, m'.slots.get? subject.key = some y'.slot ∧ (σ' = σ → y' = y) := by
  by_cases hvar : L.IsVariable subject
  · obtain ⟨v, hv, rfl⟩ := hvar
    by_cases hσ : σ' = σ
    · refine ⟨y, ?_, fun _ => rfl⟩
      rw [hm'.fits v hv, hσ, ← hm.fits v hv, hy]
    · exact ⟨_, hm'.fits v hv, fun h => absurd h hσ⟩
  · exact ⟨y, (hchanges.slots subject (L.not_written hlt hvar)).trans hy, fun _ => rfl⟩

/-- A case with a test, and the cases behind it. -/
theorem andThen_case (x y : Scalar) (default? : Option (List Stmt)) (test : Expr)
    (body : List Stmt) (span : Span) (rest : List SwitchCase) (b : Bool) (σ : Store)
    (hy : b = false → y = x) :
    Store.andThen
      (fun σ' => if Scalar.strictEquals y (test.value σ.env) && !b then
        Store.leave (execAll body) σ' else some (.next, σ'))
      (fun σ' => if b || (Scalar.strictEquals y (test.value σ.env) && !b) then some (.next, σ')
        else casesAction x default? rest σ') σ =
      if b then some (.next, σ)
      else casesAction x default? (⟨some test, body, span⟩ :: rest) σ := by
  cases b with
  | true => simp [Store.andThen]
  | false =>
    obtain rfl := hy rfl
    cases heq : Scalar.strictEquals y (test.value σ.env) with
    | true =>
      have hmatch : execMatch y (⟨some test, body, span⟩ :: rest) σ = some (execAll body σ) := by
        rw [execMatch, if_pos heq]
      have haction : casesAction y default? (⟨some test, body, span⟩ :: rest) σ =
          Store.leave (execAll body) σ := by
        rw [casesAction, Store.leave, hmatch]
        rfl
      rw [if_neg Bool.false_ne_true, haction]
      exact Store.andThen_skip (Store.leave (execAll body)) σ
    | false =>
      have hmatch : execMatch y (⟨some test, body, span⟩ :: rest) σ = execMatch y rest σ := by
        rw [execMatch, heq]
        rfl
      have haction : casesAction y default? (⟨some test, body, span⟩ :: rest) σ =
          casesAction y default? rest σ := by
        simp only [casesAction, Store.leave, hmatch, execDefault]
      rw [if_neg Bool.false_ne_true, haction]
      rfl

/-- The cases of a switch, from a flag that tells whether one has matched. -/
theorem lowerCases_yields {default? : Option (List Stmt)}
    (htests : ∀ c ∈ cases, ∀ e ∈ c.test, ExprLowered L k e)
    (hbodies : ∀ c ∈ cases, Lowers L true (stmts k c.body) (execAll c.body))
    (hdefault : ∀ body ∈ default?, Lowers L true (stmts k body) (execAll body)) (hs : Ready L s)
    (hinside : 0 < s.context.breakables) (hsubject : subject.index < s.names.slots)
    (hmatched : matched.index < s.names.slots) (hvar : ¬ L.IsVariable matched)
    (hne : subject ≠ matched) :
    Yields s (lowerCases k subject matched default? cases) fun _ is s' => ∀ m σ x y b,
      s'.Within m → L.Matches σ m → m.Flagged matched b →
      m.slots.get? subject.key = some (Scalar.slot y) → (b = false → y = x) →
      Run.Follows L (fun z => z = matched ∨ L.Written s.names.slots z) is m
        (if b then some (.next, σ) else casesAction x default? cases σ) := by
  induction cases generalizing s default? with
  | nil =>
    cases default? with
    | none =>
      refine .pure fun m σ x y b _ hm _ _ _ => ?_
      have hskip : (if b then some (.next, σ) else casesAction x none [] σ) =
          some (Flow.next, σ) := ite_self _
      rw [hskip]
      exact .nil hm
    | some body =>
      refine (lowerCase_yields (hdefault body rfl) hs hinside (reads_isFalse hmatched)).imp ?_
      intro _ is s' _ hcode m σ x y b hwithin hm hflag _ _
      have hrun := hcode m σ hwithin hm
      rw [Machine.holds_isFalse hflag] at hrun
      refine Run.Follows.mono ?_ fun _ => .inr
      cases b <;> exact hrun
  | cons c rest ih =>
    have htests' : ∀ c' ∈ rest, ∀ e ∈ c'.test, ExprLowered L k e :=
      fun c' hc' => htests c' (List.mem_cons_of_mem _ hc')
    have hbodies' : ∀ c' ∈ rest, Lowers L true (stmts k c'.body) (execAll c'.body) :=
      fun c' hc' => hbodies c' (List.mem_cons_of_mem _ hc')
    obtain ⟨test, body, span⟩ := c
    have hbody : Lowers L true (stmts k body) (execAll body) := hbodies _ List.mem_cons_self
    cases test with
    | none =>
      -- a default case is put off, and replaces one from before
      have hdefault' : ∀ body' ∈ some body, Lowers L true (stmts k body') (execAll body') := by
        rintro _ ⟨⟩
        exact hbody
      refine (ih htests' hbodies' hdefault' hs hinside hsubject hmatched).imp ?_
      intro _ is s' _ hcode m σ x y b hwithin hm hflag hy hxy
      have haction : casesAction x default? (⟨none, body, span⟩ :: rest) σ =
          casesAction x (some body) rest σ := by
        rw [casesAction, casesAction, Store.leave, Store.leave, execMatch, execDefault]
        cases execDefault rest σ <;> rfl
      rw [haction]
      exact hcode m σ x y b hwithin hm hflag hy hxy
    | some test =>
      have htest : ExprLowered L k test := htests _ List.mem_cons_self test rfl
      rw [lowerCases, lowerTestedCase_eq, bind_assoc]
      refine (caseTest_yields htest hs hsubject hmatched).bind fun hit is1 s1 h1 hhit => ?_
      obtain ⟨hfrom, hbelow, hruns⟩ := hhit
      have hs1 : Ready L s1 := hs.emits h1
      have hinside1 : 0 < s1.context.breakables := h1.context ▸ hinside
      refine (lowerCase_yields hbody hs1 hinside1 (reads_isTrue hbelow)).bind
        fun _ is2 s2 h2 hcase => ?_
      have hslots1 := h1.slots
      have hslots2 := h2.slots
      refine (ih htests' hbodies' hdefault (hs1.emits h2) (h2.context ▸ hinside1)
        (by omega) (by omega)).imp fun _ is3 s3 h3 hrest => ?_
      intro m σ x y b hwithin hm hflag hy hxy
      have hwithin2 := hwithin.of_prefix h3.units
      have htested := hruns m σ.env y b (hwithin2.of_prefix h2.units) hm.stored hm.fits hflag hy
      have hwritten : ∀ z, z = matched ∨ From s.names.slots z →
          z = matched ∨ L.Written s.names.slots z := fun _ => .imp_right .inr
      refine htested.follows (fun m1 hq hflags => ?_) hwritten
      -- neither flag is a variable, so the state is the same
      have hm1 : L.Matches σ m1 := by
        refine hm.quiet hq fun z hz => ?_
        rcases hz with rfl | hz
        · exact hvar
        · exact L.not_isVariable hz hs.base
      have hy1 : m1.slots.get? subject.key = some y.slot := by
        refine (hq.slots subject fun hz => ?_).trans hy
        exact hz.elim hne (Nat.not_le_of_lt hsubject)
      have hfirst := hcase m1 σ (hwithin2.changes hq.toChanges) hm1
      rw [Machine.holds_isTrue hflags.1] at hfirst
      rw [← andThen_case x y default? test body span rest b σ hxy]
      have hwritten2 : ∀ z, z = matched ∨ L.Written s2.names.slots z →
          z = matched ∨ L.Written s.names.slots z :=
        fun z => .imp_right fun hz => hz.mono (Nat.le_trans hslots1 hslots2)
      refine Run.Follows.append hfirst (fun σ' m2 hresult hchanges hm2 => ?_)
        (fun z hz => .inr (hz.mono hslots1)) hwritten2
      have hflag2 := flagged_changes hflags.2 hchanges (by omega) hvar
      obtain ⟨y', hy2, hsame⟩ := subject_changes hchanges hm1 hm2 (by omega) hy1
      refine hrest m2 σ' x y' _ ((hwithin.changes hq.toChanges).changes hchanges) hm2 hflag2 hy2
        fun hnone => ?_
      -- no case has matched, so the state and the subject are as they were
      obtain ⟨hb, hhit⟩ := Bool.or_eq_false_iff.1 hnone
      rw [hhit] at hresult
      obtain rfl : σ = σ' := congrArg Prod.snd (Option.some.inj hresult)
      rw [hsame rfl, hxy hb]

/-- A switch. -/
theorem lowerSwitch_lowers {subject : Expr} (hsubject : ExprLowered L k subject)
    (htests : ∀ c ∈ cases, ∀ e ∈ c.test, ExprLowered L k e)
    (hbodies : ∀ c ∈ cases, Lowers L true (stmts k c.body) (execAll c.body)) :
    Lowers L inside (lowerSwitch k subject cases) fun σ =>
      casesAction (subject.value σ.env) none cases σ := by
  intro s hs _
  refine (exprSlot_yields hsubject hs).bind fun slot is1 s1 h1 hslot => ?_
  obtain ⟨hlt, hruns⟩ := hslot
  refine (slotOf_yields _ s1).bind fun matched is2 s2 h2 hmatched => ?_
  obtain ⟨rfl, hs2, rfl⟩ := hmatched
  have hready : Ready L { s2 with context := s2.context.enter 1 0 } :=
    ((hs.emits h1).emits h2).enter 1 0
  have hfrom : From s.names.slots ⟨s1.names.slots⟩ := h1.slots
  have hvar : ¬ L.IsVariable ⟨s1.names.slots⟩ := L.not_isVariable hfrom hs.base
  have hne : slot ≠ ⟨s1.names.slots⟩ := by
    rintro rfl
    exact Nat.lt_irrefl _ hlt
  have hdefault : ∀ body ∈ (none : Option (List Stmt)),
      Lowers L true (stmts k body) (execAll body) := by
    intro body hnone
    cases hnone
  have hcases := lowerCases_yields htests hbodies hdefault hready
    (Nat.succ_pos _) (show slot.index < s2.names.slots by omega)
    (show s1.names.slots < s2.names.slots by omega) hvar hne
  refine (enter_yields 1 0 hcases fun _ _ _ h => h).imp fun _ is3 s3 h3 hcode m σ hwithin hm => ?_
  have hwithin2 := hwithin.of_prefix h3.units
  refine (hruns m σ.env (hwithin2.of_prefix h2.units) hm.stored hm.fits).follows
    (fun m1 hq1 hx => ?_) fun _ => .inr
  have hset : Run.Does (· = ⟨s1.names.slots⟩)
      [.set .always (.slot ⟨s1.names.slots⟩) (.literal (Scalar.boolean false).slot)] m1
      (·.Flagged ⟨s1.names.slots⟩ false) :=
    (Run.goes_set (P := (· = ⟨s1.names.slots⟩)) hq1.stored rfl fun _ => rfl).does
  refine hset.follows (fun m2 hq2 hflag => ?_) fun z hz => .inr (hz ▸ hfrom)
  have hm1 : L.Matches σ m1 := hm.quiet hq1 fun z hz => L.not_isVariable hz hs.base
  have hm2 : L.Matches σ m2 := hm1.quiet hq2 fun z hz => hz ▸ hvar
  have hrun := hcode m2 σ _ _ false ((hwithin.changes hq1.toChanges).changes hq2.toChanges) hm2
    hflag ((hq2.slots slot hne).trans hx) fun _ => rfl
  refine hrun.mono fun z hz => ?_
  rcases hz with rfl | hz
  · exact .inr hfrom
  · exact hz.mono (Nat.le_trans h1.slots h2.slots)

end Compile

end PackScript
