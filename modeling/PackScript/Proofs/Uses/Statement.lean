import PackScript.Compile.Expression
import PackScript.Proofs.Uses.Object

namespace PackScript

/-!
# Expressions and statements keep to the uses

`lowering_leads` puts the lemmas about the single rules together: at every nesting depth the rules
for expressions and statements keep to the uses of names. A function declaration at the top level is
left to `PackScript.Proofs.Uses.Script`.
-/

variable {target : AssignTarget} {argument right test : Expr} {guard : Guard}
  {cases : List SwitchCase} {update : Option Expr} {init : Option ForInit} {r : Reference}
  {matched subject : Slot} {span : Span} {body : Stmt} {kind : UnitKind} {G' : Uses}

namespace Compile

variable {k : Lowering} {W : Watch} {G : Uses} {s : Compiler}

/-! ### Assignments -/

/-- The slots of a reference keep to their uses. -/
def Reference.Fits (W : Watch) (G : Uses) : Reference → Prop
  | .variable_ a => W.Variable G a
  | .member object name => G.Reads W.depth object ∧ MemberName.Readable W G name

theorem Reference.Fits.mono (h : Reference.Fits W G r) (hle : G ≤ G') : Reference.Fits W G' r := by
  cases r with
  | variable_ a => exact Watch.Variable.mono h hle
  | member object name => exact ⟨h.1.mono hle, h.2.mono hle⟩

variable (hk : k.Leads) (h : Orderly W G s)
include h

theorem readReference_leads (hr : Reference.Fits W G r) :
    Leads W G s (readReference r) (fun G' a _ => G'.Reads W.depth a) := by
  cases r with
  | variable_ a =>
    have ha : W.Variable G a := hr
    exact .pure h ha.takes.reads
  | member object name => exact (getMember_leads h hr.1 hr.2).imp fun _ _ _ _ ha => ha.reads _

theorem writeReference_leads {v : Lowered} (hv : v.Readable W G) (hr : Reference.Fits W G r) :
    Leads W G s (writeReference v r) (fun G' v _ => v.Readable W G') := by
  cases r with
  | variable_ a =>
    have ha : W.Variable G a := hr
    exact (assign_leads h ha.takes hv).bind
      fun G1 _ s1 h1 _ => .pure h1.orderly (ha.mono h1.le).takes.reads
  | member object name =>
    refine (materialize_leads h hv).bind fun G1 a s1 h1 ha => ?_
    exact (setMember_leads h1.orderly (hr.1.mono h1.le) (hr.2.mono h1.le) ha).bind
      fun G2 _ s2 h2 _ => .pure h2.orderly (ha.mono h2.le)

theorem oldValue_leads (hr : Reference.Fits W G r) :
    Leads W G s (oldValue right r) (fun G' v _ => v.Readable W G') := by
  refine (readReference_leads h hr).bind fun G1 a s1 h1 ha => ?_
  have hold : Lowered.Readable W G1 (.slot a) := ha
  cases r with
  | variable_ _ => exact snapshotIf_leads h1.orderly hold
  | member _ _ => exact .pure h1.orderly hold

include hk

theorem memberReference_leads {m : Member} :
    Leads W G s (memberReference k m) (fun G' r _ => Reference.Fits W G' r) := by
  unfold memberReference
  refine LeadsIn.ite (fun _ => .throw h) fun _ => ?_
  split
  · exact .throw h
  · refine LeadsIn.read rfl ?_
    split
    · exact (globalSlot_leads h).bind fun G1 a s1 h1 ha => .pure h1.orderly ha
    · exact (memberParts_leads hk h).bind fun G1 p s1 h1 hp => .pure h1.orderly hp

theorem targetReference_leads :
    Leads W G s (targetReference k target) (fun G' r _ => Reference.Fits W G' r) := by
  cases target with
  | ident id => exact (assignableSlot_leads h).bind fun G1 a s1 h1 ha => .pure h1.orderly ha
  | member m => exact memberReference_leads hk h
  | pattern p => exact .throw h

theorem lowerAssign_leads {op : AssignOp} :
    Leads W G s (lowerAssign k op target right span) (fun G' v _ => v.Readable W G') := by
  refine (targetReference_leads hk h).bind fun G1 r s1 h1 hr => ?_
  split
  · refine (hk.expr W G1 s1 right h1.orderly).bind fun G2 v s2 h2 hv => ?_
    exact writeReference_leads h2.orderly hv (hr.mono h2.le)
  · refine (oldValue_leads h1.orderly hr).bind fun G2 old s2 h2 hold => ?_
    refine (hk.expr W G2 s2 right h2.orderly).bind fun G3 v s3 h3 hv => ?_
    refine (applyBinary_leads h3.orderly (hold.mono h3.le) hv).bind fun G4 new s4 h4 hnew => ?_
    exact writeReference_leads h4.orderly hnew (hr.mono ((h2.trans h3).trans h4).le)

theorem updateReference_leads :
    Leads W G s (updateReference k span argument) (fun G' r _ => Reference.Fits W G' r) := by
  unfold updateReference
  split
  · exact (assignableSlot_leads h).bind fun G1 a s1 h1 ha => .pure h1.orderly ha
  · exact memberReference_leads hk h
  · exact .throw h

theorem lowerUpdate_leads {op : UpdateOp} {before : Bool} :
    Leads W G s (lowerUpdate k op argument before span) (fun G' v _ => v.Readable W G') := by
  refine (updateReference_leads hk h).bind fun G1 r s1 h1 hr => ?_
  refine (readReference_leads h1.orderly hr).bind fun G2 a s2 h2 ha => ?_
  refine (toNumberSlot_leads h2.orderly ha).bind fun G3 old s3 h3 hold => ?_
  have hslot : Lowered.Readable W G3 (.slot old) := hold
  refine (applyBinary_leads (b := .known (.number 1.0)) h3.orderly hslot trivial).bind
    fun G4 new s4 h4 hnew => ?_
  refine (writeReference_leads h4.orderly hnew (hr.mono ((h2.trans h3).trans h4).le)).bind
    fun G5 new s5 h5 hnew5 => .pure h5.orderly ?_
  split
  · exact hnew5
  · exact hslot.mono (h4.trans h5).le

/-! ### All expressions -/

omit hk h in
theorem slotOrUndefined_readable {a : Option Slot}
    (h : ∀ a', a = some a' → ∀ depth, G.Reads depth a') :
    (slotOrUndefined a).Readable W G := by
  cases a with
  | none => trivial
  | some a => exact h a rfl _

omit h in
theorem lowerSequence_leads (es : List Expr) :
    ∀ {G s} {v : Lowered}, Orderly W G s → v.Readable W G →
      Leads W G s (lowerSequence k v es) (fun G' v _ => v.Readable W G') := by
  induction es with
  | nil => exact fun h hv => .pure h hv
  | cons e rest ih =>
    intro G s v h _
    exact (hk.expr W G s e h).bind fun G1 v s1 h1 hv => ih h1.orderly hv

theorem lowerExpr_leads (e : Expr) :
    Leads W G s (lowerExpr k e) (fun G' v _ => v.Readable W G') := by
  cases e with
  | literal value span => exact .pure h trivial
  | ident id => exact lowerIdent_leads h
  | this span => exact LeadsIn.read rfl (.pure h (slotOrUndefined_readable h.context.that))
  | super span => exact .throw h
  | newTarget span =>
    exact LeadsIn.read rfl (.pure h (slotOrUndefined_readable h.context.newTarget))
  | array elements span => exact lowerArray_leads hk h
  | object properties span => exact lowerObject_leads hk h
  | function fn => exact lowerFunction_leads hk h
  | arrow params body isAsync span => exact lowerArrow_leads hk h
  | classExpr cls => exact lowerClass_leads hk h
  | template pieces parts span => exact lowerTemplate_leads hk h
  | unary op argument span => exact lowerUnary_leads hk h
  | binary op left right span => exact lowerBinary_leads hk h
  | logical op left right span => exact lowerLogical_leads hk h
  | conditional test yes no span => exact lowerConditional_leads hk h
  | assign op target value span => exact lowerAssign_leads hk h
  | update op argument before span => exact lowerUpdate_leads hk h
  | sequence es span => exact lowerSequence_leads hk es (v := .undefined) h trivial
  | member m => exact lowerMember_leads hk h
  | call callee es optional span => exact lowerCall_leads hk h
  | new callee es span => exact lowerNew_leads hk h
  | spread argument span => exact .throw h
  | yield argument span => exact .throw h
  | await argument span => exact lowerAwait_leads hk h

/-! ### Declarations -/

theorem declareOne_leads {kind : BindingKind} {d : Declarator} :
    GoesOn W G s (declareOne k kind d) := by
  unfold declareOne
  split
  · refine LeadsIn.ite (fun _ => .throw h) fun _ => ?_
    refine (declare_variable_leads h).bind fun G1 slot s1 h1 hslot => ?_
    split
    · next e _ =>
      refine (hk.expr W G1 s1 e h1.orderly).bind fun G2 v s2 h2 hv => ?_
      exact (assign_leads h2.orderly (hslot.mono h2.le).takes hv).imp fun _ _ _ _ _ => trivial
    · refine LeadsIn.ite (fun _ => ?_) fun _ => .pure h1.orderly trivial
      exact (assign_leads (v := .undefined) h1.orderly hslot.takes trivial).imp
        fun _ _ _ _ _ => trivial
  · exact .throw h

theorem declareAll_leads {d : Declaration} :
    GoesOn W G s (declareAll k d) :=
  LeadsIn.forM (fun _ _ => True) h trivial fun _ _ _ _ h1 _ => declareOne_leads hk h1.orderly

theorem effect_leads {e : Option Expr} :
    GoesOn W G s (effect k e) := by
  cases e with
  | none => exact .pure h trivial
  | some e => exact (hk.expr W G s e h).bind fun G1 _ s1 h1 _ => .pure h1.orderly trivial

end Compile

/-! ### Branches -/

/-- Statements inside of something can be compiled. -/
structure Nested (W : Watch) (s : Compiler) : Prop extends StmtOk W s where
  inner : s.atTopLevel = false

section

variable {W : Watch} {G G' : Uses} {s s' : Compiler}

theorem Nested.step (h : Nested W s) (hstep : Advances false W G s G' s') : Nested W s' :=
  ⟨h.toStmtOk.step hstep, hstep.atTopLevel.trans h.inner⟩

/-- Statements can be compiled in a part of a unit for statements. -/
theorem WithinPart.nested {opensScope breakable fed : Bool} {G1 : Uses} {s1 : Compiler}
    (h : WithinPart W G s kind opensScope breakable fed G1 s1) (hbody : InBody s)
    (hkind : kind ≠ .expression) (hbreaks : 0 < s.context.breakables → breakable = true) :
    Nested (W.part s breakable fed) s1 := by
  refine ⟨⟨⟨h.unitKind ▸ hkind, ?_⟩, ?_⟩, h.inner⟩
  · unfold MayReturn
    rw [h.context]
    exact hbody.promise
  · rw [h.context]
    exact hbreaks

end

namespace Compile

variable {k : Lowering} {W : Watch} {G : Uses} {s : Compiler}

/-- A round of a loop is a part of the present unit that may enter itself again. -/
structure WithinRound (W : Watch) (fed : Bool) (G : Uses) (s : Compiler) : Prop
    extends Nested W s where
  orderly : Orderly W G s
  entered : W.fed = fed
  breakable : W.breakable = true
  again : G.unit s.current.name = some (W.partUse s .loop true fed)

variable (hk : k.Leads) (h : Orderly W G s)
include hk h

theorem stmts_leads {body : List Stmt} (hin : Nested W s) :
    GoesOn W G s (stmts k body) := by
  refine (hoistNames_leads h).bind fun G1 _ s1 h1 _ => ?_
  exact forM_stmt_leads hk h1.orderly (hin.step h1).toStmtOk (hin.step h1).inner

theorem unitBody_leads (hin : Nested W s) :
    GoesOn W G s (unitBody k body) := by
  unfold unitBody
  split
  · exact stmts_leads hk h hin
  · exact hk.stmt W G s _ h hin.toStmtOk (.inl hin.inner)

omit hk h in
/-- A part is compiled and called. -/
theorem callPart_leads (breakable : Bool) {consumesBreak : Bool} {body : Compile Unit}
    (h : Orderly W G s) (hok : InBody s) (hguard : (G.permits W.toStanding).guard guard)
    (hkind : kind.isPart = true)
    (hbreak : breakable = true → kind.takesBreak = true ∨ W.breakable = true)
    (hbreaks : consumesBreak = false → 0 < s.context.breakables → W.breakable = true)
    (hbody : ∀ G1 s1, WithinPart W G s kind true breakable false G1 s1 →
      GoesOn (W.part s breakable false) G1 s1 body) :
    GoesOn W G s (do
      let unit ← inChild kind true body
      invokeRelaying guard (.unit unit) none consumesBreak) := by
  refine (inChild_leads breakable false hkind h hbody).bind fun G1 unit s1 h1 hunit => ?_
  rw [← h1.partUse] at hunit
  refine invokeRelaying_part_leads h1.orderly (hok.step h1)
    ((Uses.permits_mono h1.le _).guard hguard)
    hunit hkind hbreak fun hc => ?_
  rw [h1.context rfl]
  exact hbreaks hc

theorem lowerSide_leads (hok : StmtOk W s) (hguard : (G.permits W.toStanding).guard guard) :
    GoesOn W G s (lowerSide k guard body) :=
  callPart_leads W.breakable h hok.toInBody hguard rfl (fun hb => .inr hb)
    (fun _ => hok.breaks) fun _ _ hpart =>
      unitBody_leads hk hpart.orderly (hpart.nested hok.toInBody (by decide) hok.breaks)

theorem lowerSide?_leads {body : Option Stmt} (hok : StmtOk W s)
    (hguard : (G.permits W.toStanding).guard guard) : GoesOn W G s (lowerSide? k guard body) := by
  cases body with
  | none => exact .pure h trivial
  | some body => exact lowerSide_leads hk h hok hguard

theorem lowerBranch_leads {yes : Stmt} {no : Option Stmt} (hok : StmtOk W s) :
    GoesOn W G s (lowerBranch k test yes no) := by
  refine (hk.expr W G s test h).bind fun G1 v s1 h1 hv => ?_
  refine (truth_leads h1.orderly hv).bind fun G2 truth s2 h2 htruth => ?_
  have hok2 := hok.step (h1.trans h2)
  split
  · exact lowerSide_leads hk h2.orderly hok2 Permits.guard_always
  · exact lowerSide?_leads hk h2.orderly hok2 Permits.guard_always
  · next flag =>
    have hflag : W.Flag G2 flag := htruth
    refine (lowerSide_leads hk h2.orderly hok2 (Permits.guard_isTrue (hflag.sees _))).bind
      fun G3 _ s3 h3 _ => ?_
    exact lowerSide?_leads hk h3.orderly (hok2.step h3)
      (Permits.guard_isFalse ((hflag.mono h3.le).sees _))

/-! ### Switches -/

theorem lowerCase_leads {body : List Stmt} (hok : InBody s)
    (hguard : (G.permits W.toStanding).guard guard) : GoesOn W G s (lowerCase k guard body) :=
  callPart_leads true h hok hguard rfl (fun _ => .inl rfl) nofun fun _ _ hpart =>
    stmts_leads hk hpart.orderly (hpart.nested hok (by decide) fun _ => rfl)

omit hk in
theorem caseMatch_leads {test : Slot} (hsubject : G.Reads W.depth subject)
    (hmatched : W.Flag G matched) (htest : G.Reads W.depth test) :
    Leads W G s (caseMatch subject matched test) (fun G' hit _ => W.Flag G' hit) := by
  refine (freshResult_leads h).bind fun G1 equal s1 h1 hequal => ?_
  refine (callLibrary_result_leads h1.orderly hequal (by simp)
    ⟨_, .value (hsubject.mono h1.le) (.value (htest.mono h1.le)
      (.result (.operator .strictEq .nil))), by decide⟩).bind fun G2 _ s2 h2 hequal2 => ?_
  refine (slotOf_flag_leads _ h2.orderly).bind fun G3 hit s3 h3 hhit => ?_
  have h03 := (h1.trans h2).trans h3
  have hfirst : (G3.permits W.toStanding).guard
      ((isTrue equal).and (.field matched "value") (.bool false)) := by
    refine Permits.guard_append (Permits.guard_isTrue ((hequal2.mono h3.le).reads W.depth).sees) ?_
    exact (hmatched.mono h03.le).sees W.depth
  refine (raise_leads h3.orderly hfirst hhit).bind fun G4 _ s4 h4 _ => ?_
  have hhit4 := hhit.mono h4.le
  refine (raise_leads h4.orderly (Permits.guard_isTrue (hhit4.sees _))
    (hmatched.mono (h03.trans h4).le)).bind fun G5 _ s5 h5 _ => ?_
  exact .pure h5.orderly (hhit4.mono h5.le)

theorem lowerTestedCase_leads {body : List Stmt} (hok : InBody s)
    (hsubject : G.Reads W.depth subject) (hmatched : W.Flag G matched) :
    GoesOn W G s (lowerTestedCase k subject matched test body) := by
  rw [lowerTestedCase_eq, caseTest, bind_assoc]
  refine (exprSlot_leads hk h).bind fun G1 test s1 h1 htest => ?_
  refine (caseMatch_leads h1.orderly (hsubject.mono h1.le) (hmatched.mono h1.le) htest).bind
    fun G2 hit s2 h2 hhit => ?_
  exact lowerCase_leads hk h2.orderly (hok.step (h1.trans h2)) (Permits.guard_isTrue (hhit.sees _))

omit h in
theorem lowerCases_leads (cases : List SwitchCase) :
    ∀ {G s} {default? : Option (List Stmt)}, Orderly W G s → InBody s →
      G.Reads W.depth subject → W.Flag G matched →
      GoesOn W G s (lowerCases k subject matched default? cases) := by
  induction cases with
  | nil =>
    intro G s default? h hok _ hmatched
    unfold lowerCases
    cases default? with
    | none => exact .pure h trivial
    | some body => exact lowerCase_leads hk h hok (Permits.guard_isFalse (hmatched.sees _))
  | cons c rest ih =>
    intro G s default? h hok hsubject hmatched
    obtain ⟨test, body, span⟩ := c
    cases test with
    | none => exact ih h hok hsubject hmatched
    | some test =>
      refine (lowerTestedCase_leads hk h hok hsubject hmatched).bind fun G1 _ s1 h1 _ => ?_
      exact ih h1.orderly (hok.step h1) (hsubject.mono h1.le) (hmatched.mono h1.le)

/-- The part of a switch behind its subject. -/
theorem switchCases_leads (hok : InBody s) (hsubject : G.Reads W.depth subject) :
    GoesOn W G s (slotOf (.boolean false) >>= fun matched =>
      inBreakable (lowerCases k subject matched none cases)) := by
  refine (slotOf_flag_leads _ h).bind fun G1 matched s1 h1 hmatched => ?_
  have hok1 := hok.step h1
  exact inBreakable_leads h1.orderly (lowerCases_leads hk cases
    (enter_orderly 1 0 h1.orderly nofun) ⟨hok1.kind, hok1.promise⟩ (hsubject.mono h1.le) hmatched)

theorem lowerSwitch_leads {subject : Expr} (hok : InBody s) :
    GoesOn W G s (lowerSwitch k subject cases) :=
  (exprSlot_leads hk h).bind fun _ _ _ h1 hsubject =>
    switchCases_leads hk h1.orderly (hok.step h1) hsubject

/-! ### Loops -/

omit hk h in
theorem loopUnit_leads {body : Compile Unit} (fed : Bool) (h : Orderly W G s) (hok : InBody s)
    (hbody : ∀ G1 s1, G ≤ G1 → WithinRound (W.part s true fed) fed G1 s1 →
      GoesOn (W.part s true fed) G1 s1 body) :
    Leads W G s (loopUnit body)
      (fun G' unit _ => G'.unit unit = some (W.partUse s .loop true fed)) := by
  refine inChild_leads true fed rfl h fun G1 s1 hpart => ?_
  have hin := hpart.nested hok (by decide) fun _ => rfl
  have horderly := enter_orderly 1 0 hpart.orderly nofun
  have hloop := enter_orderly 0 1 horderly fun _ => hpart.scope rfl
  refine inBreakable_leads hpart.orderly (inLoop_leads horderly (hbody G1 _ hpart.le ?_))
  have hagain : W.partUse s .loop true fed = (W.part s true fed).partUse s1 .loop true fed := by
    simp only [Watch.partUse, Watch.part, Compiler.home, hpart.context]
  exact ⟨⟨⟨⟨hin.kind, hin.promise⟩, fun _ => rfl⟩, hin.inner⟩, hloop, rfl, rfl,
    hpart.use.trans (congrArg some hagain)⟩

omit hk in
theorem runLoop_leads {body : Compile Unit} (hok : InBody s)
    (hbody : ∀ G1 s1, WithinRound (W.part s true false) false G1 s1 →
      GoesOn (W.part s true false) G1 s1 body) :
    GoesOn W G s (runLoop body) := by
  refine (loopUnit_leads false h hok fun G1 s1 _ => hbody G1 s1).bind fun G1 unit s1 h1 hunit => ?_
  rw [← h1.partUse] at hunit
  exact invokeRelaying_part_leads h1.orderly (hok.step h1) Permits.guard_always hunit rfl
    (fun _ => .inl rfl) nofun

omit hk h in
/-- The unit of a round can be entered again after some steps of it. -/
theorem WithinRound.iterate {s' : Compiler} (hround : WithinRound W false G s)
    (h : Advances false W G s G' s') (hguard : (G'.permits W.toStanding).guard guard) :
    GoesOn W G' s' (iterate guard s.current.name) := by
  have hagain : G'.unit s.current.name = some (W.partUse s' .loop true false) := by
    rw [h.partUse]
    exact h.le.unit _ _ hround.again
  exact invokeRelaying_part_leads h.orderly (hround.toInBody.step h) hguard hagain rfl
    (fun _ => .inl rfl) fun _ _ => hround.breakable

theorem loopTest_leads {test : Option Expr} :
    GoesOn W G s (loopTest k test) := by
  cases test with
  | none => exact .pure h trivial
  | some test =>
    refine (hk.expr W G s test h).bind fun G1 v s1 h1 hv => ?_
    refine (truth_leads h1.orderly hv).bind fun G2 truth s2 h2 htruth => ?_
    split
    · exact .pure h2.orderly trivial
    · exact (emit_leads h2.orderly (.returnWith (.inl rfl))).bind
        fun G3 _ s3 h3 _ => .pure h3.orderly trivial
    · next flag =>
      have hflag : W.Flag G2 flag := htruth
      exact (emit_leads h2.orderly (.returnIf (Permits.guard_isFalse (hflag.sees _))
        (.inl rfl))).bind fun G3 _ s3 h3 _ => .pure h3.orderly trivial

omit h in
theorem loopRound_leads {test : Option Expr} (hround : WithinRound W false G s) :
    GoesOn W G s (loopRound k test body update) := by
  refine LeadsIn.read rfl ((loopTest_leads hk hround.orderly).bind fun G1 goes s1 h1 _ => ?_)
  refine LeadsIn.ite (fun _ => ?_) fun _ => .pure h1.orderly trivial
  refine (unitBody_leads hk h1.orderly (hround.toNested.step h1)).bind fun G2 _ s2 h2 _ => ?_
  refine (effect_leads hk h2.orderly).bind fun G3 _ s3 h3 _ => ?_
  exact hround.iterate ((h1.trans h2).trans h3) Permits.guard_always

omit h in
theorem doWhileRound_leads (hround : WithinRound W false G s) :
    GoesOn W G s (doWhileRound k body test) := by
  refine LeadsIn.read rfl ((unitBody_leads hk hround.orderly hround.toNested).bind
    fun G1 _ s1 h1 _ => ?_)
  refine (hk.expr W G1 s1 test h1.orderly).bind fun G2 v s2 h2 hv => ?_
  refine (truth_leads h2.orderly hv).bind fun G3 truth s3 h3 htruth => ?_
  have h03 := (h1.trans h2).trans h3
  split
  · exact .pure h3.orderly trivial
  · exact hround.iterate h03 Permits.guard_always
  · next flag =>
    have hflag : W.Flag G3 flag := htruth
    exact hround.iterate h03 (Permits.guard_isTrue (hflag.sees _))

theorem lowerForInit_leads :
    GoesOn W G s (lowerForInit k init) := by
  unfold lowerForInit
  split
  · exact .pure h trivial
  · exact declareAll_leads hk h
  · exact effect_leads hk h

theorem lowerFor_leads {test : Option Expr} (hok : InBody s) :
    GoesOn W G s (lowerFor k init test update body) := by
  unfold lowerFor
  rw [inLoop_inScope]
  have hscope := openScope_orderly h
  have hlast : (openScope s).current.scopes.getLast? ≠ some globalScope := by
    rw [show (openScope s).current.scopes = s.current.scopes ++ [s.scopes.create.1] from rfl,
      List.getLast?_concat]
    exact fun heq => h.scopes.create_ne (Option.some.inj heq)
  have hloop := enter_orderly 0 1 hscope fun _ => hlast
  have hok' : InBody { openScope s with context := (openScope s).context.enter 0 1 } :=
    ⟨hok.kind, hok.promise⟩
  refine inScope_leads h (inLoop_leads hscope ?_)
  refine (lowerForInit_leads hk hloop).bind fun G1 _ s1 h1 _ => ?_
  exact runLoop_leads h1.orderly (hok'.step h1) fun _ _ hround => loopRound_leads hk hround

omit hk in
theorem loopName_leads {target : ForTarget} :
    GoesOn W G s (loopName span target) := by
  unfold loopName
  split
  · exact .pure h trivial
  · exact .pure h trivial
  · exact .throw h

omit h in
theorem forOfRound_leads {kind : Option DeclKind} {id : Ident} (hround : WithinRound W true G s) :
    GoesOn W G s (forOfRound k kind id body) := by
  refine LeadsIn.bind (Q := fun G' a _ => W.Variable G' a) ?_ fun G1 slot s1 h1 hslot => ?_
  · cases kind with
    | some kind => exact declare_variable_leads hround.orderly
    | none => exact assignableSlot_leads hround.orderly
  have hparam : G1.Offers W.toStanding (.param (argumentName 0)) :=
    ⟨valueEntry_argumentName 0, hround.entered⟩
  refine (set_slot_leads h1.orderly hslot.takes hparam).bind fun G2 _ s2 h2 _ => ?_
  exact unitBody_leads hk h2.orderly (hround.toNested.step (h1.trans h2))

omit hk in
/-- The unit of a loop is called for each element of an array. -/
theorem invokeEach_leads {array : Slot} {unit : String} {channel : Channel}
    (hok : InBody s) (harray : G.Reads W.depth array) (hchannel : G.channel channel = some .filled)
    (hunit : G.unit unit = some (W.partUse s .loop true true)) :
    GoesOn W G s (do
      let c ← fillChannel [("array", .addressOf array),
        ("function", .text (functionId s.ns unit)), ("channel", .text channel.key)]
      invokeRelaying .always (.library .loopArray) (some c) true) := by
  have h1 : Advances false W G s _ _ := .freshChannel (.each unit) h
  have h2 : Advances false W _ _ _ _ := .freshSlot .code h1.orderly
  have h12 := h1.trans h2
  have hc := h2.le.channel _ _ (Uses.withChannel_self (G := G) ⟨s.names.channels⟩ (.each unit))
  have hpiece : Uses.Piece _ (s.site W) W.writes s.address? _ :=
    .each hc (h12.le.channel _ _ hchannel) (harray.mono h12.le)
      ((Orderly.partOf hunit rfl fun _ => .inl rfl).mono h12.le) rfl (Uses.withSlot_self _ _)
      (h.freshSlot _ (Nat.le_refl _)).2
  have h3 := h12.trans (.push h2.orderly hpiece.pieces)
  rw [h12.le.ns, h.ns, Compiler.push_append] at h3
  refine Ends.ok (fillChannel_run _ s) (Ends.ok rfl (Ends.ok rfl (Ends.ok rfl ?_)))
  refine LeadsIn.after (relays_leads true h3.orderly (hok.step h3)
    (Uses.withSlot_self _ _) nofun) h3 fun _ _ _ _ hsettles _ => ⟨hsettles, trivial⟩

theorem lowerForOf_leads {target : ForTarget} {subject : Expr}
    (hok : InBody s) : GoesOn W G s (lowerForOf k target subject body span) := by
  refine (loopName_leads h).bind fun G1 name s1 h1 _ => ?_
  refine (exprSlot_leads hk h1.orderly).bind fun G2 array s2 h2 harray => ?_
  have hok2 := hok.step (h1.trans h2)
  refine (loopUnit_leads true h2.orderly hok2 fun _ _ _ hround => forOfRound_leads hk hround).bind
    fun G3 unit s3 h3 hunit => ?_
  refine (freshChannel_leads .filled h3.orderly).bind fun G4 channel s4 h4 hchannel => ?_
  have hunit4 : G4.unit unit = some (W.partUse s4 .loop true true) := by
    rw [(h3.trans h4).partUse]
    exact h4.le.unit _ _ hunit
  exact LeadsIn.read rfl (invokeEach_leads h4.orderly (hok2.step (h3.trans h4))
    (harray.mono (h3.trans h4).le) hchannel hunit4)

/-! ### All statements -/

theorem lowerReturn_leads {argument : Option Expr}
    (hok : InBody s) : GoesOn W G s (lowerReturn k argument span) := by
  refine LeadsIn.read rfl (LeadsIn.ite (fun _ => .throw h) fun hkind => ?_)
  refine (exprOrUndefined_leads hk h).bind fun G1 v s1 h1 hv => ?_
  exact emitReturn_leads h1.orderly (hok.step h1) (h1.kind ▸ hkind) hv

omit hk in
theorem lowerBreak_leads {label : Option Ident} (hok : StmtOk W s) :
    GoesOn W G s (lowerBreak label span) := by
  refine LeadsIn.ite (fun _ => .throw h) fun _ => LeadsIn.read rfl (LeadsIn.ite
    (fun _ => .throw h) fun hinside => ?_)
  have hbreakable := hok.breaks (Nat.pos_of_ne_zero hinside)
  exact (emit_leads h (.returnWith (Orderly.allows_break h hok.kind hbreakable))).imp
    fun _ _ _ _ _ => trivial

omit hk in
/-- Statements can be compiled in a block. -/
theorem nested_openScope (hok : StmtOk W s) : Nested W (openScope s) := by
  refine ⟨⟨⟨hok.kind, hok.promise⟩, hok.breaks⟩, ?_⟩
  have hlength : s.current.scopes ≠ [] := List.length_pos_iff.1 (Nat.zero_lt_of_lt h.scopes.base)
  simp [Compiler.atTopLevel, openScope, hlength]

theorem lowerStmt_leads (stmt : Stmt) (hok : StmtOk W s)
    (hinner : s.atTopLevel = false ∨ stmt.isFunction = false) :
    GoesOn W G s (lowerStmt k stmt) := by
  cases stmt with
  | declare d => exact declareAll_leads hk h
  | function id fn =>
    exact declareInner_leads hk h (hinner.resolve_right (by simp [Stmt.isFunction]))
  | classDecl id cls =>
    exact (createClass_leads hk h).bind fun G1 _ s1 h1 _ => .pure h1.orderly trivial
  | block b =>
    exact inScope_leads h (stmts_leads hk (openScope_orderly h) (nested_openScope h hok))
  | branch test yes no span => exact lowerBranch_leads hk h hok
  | switch subject cases span => exact lowerSwitch_leads hk h hok.toInBody
  | forLoop init test update body span => exact lowerFor_leads hk h hok.toInBody
  | forOf target subject body span => exact lowerForOf_leads hk h hok.toInBody
  | whileLoop test body span =>
    exact runLoop_leads h hok.toInBody fun _ _ hround => loopRound_leads hk hround
  | doWhile body test span =>
    exact runLoop_leads h hok.toInBody fun _ _ hround => doWhileRound_leads hk hround
  | returning argument span => exact lowerReturn_leads hk h hok.toInBody
  | breaking label span => exact lowerBreak_leads h hok
  | expr value span =>
    show Leads W G s (effect k (some value)) _
    exact effect_leads hk h
  | unsupported construct span => exact .throw h
  | empty span => exact .pure h trivial

end Compile

/-! ### All levels -/

/-- The rules keep to the uses, however deep statements and expressions nest. -/
theorem lowering_leads (levels : Nat) : (lowering levels).Leads := by
  induction levels with
  | zero => exact ⟨fun _ _ _ _ h => .throw h, fun _ _ _ _ h _ _ => .throw h⟩
  | succ levels ih =>
    exact ⟨fun _ _ _ e h => Compile.lowerExpr_leads ih h e,
      fun _ _ _ stmt h hok hinner => Compile.lowerStmt_leads ih h stmt hok hinner⟩

end PackScript
