import PackScript.Proofs.Uses.Unit

namespace PackScript

/-!
# Members and operators keep to the uses

One lemma for each lowering rule, over rules for the parts that keep to the uses (`Lowering.Leads`).
Most of the work is to see that a library routine gets the arguments it asks for.
-/

variable {op : BinaryOp} {e left right : Expr} {kind : Kind} {m : Member} {key : MemberKey}
  {name : MemberName} {prototype : Option Source} {a object : Slot} {span : Span}

/-- The rules for the parts keep to the uses. A function declaration at the top level is left aside:
    its unit may clash with that of another one. -/
structure Lowering.Leads (k : Lowering) : Prop where
  expr : ∀ W G s e, Orderly W G s → Compile.Leads W G s (k.expr e) (fun G' v _ => v.Readable W G')
  stmt : ∀ W G s stmt, Orderly W G s → StmtOk W s →
    (s.atTopLevel = false ∨ stmt.isFunction = false) →
    Compile.Leads W G s (k.stmt stmt) (fun _ _ _ => True)

namespace Compile

variable {k : Lowering} {W : Watch} {G : Uses} {s : Compiler}

/-- The slot of a computed name holds script values that code may mention. -/
def MemberName.Readable (W : Watch) (G : Uses) : MemberName → Prop
  | .known _ => True
  | .computed s => G.Reads W.depth s

theorem MemberName.Readable.mono {G' : Uses} (h : MemberName.Readable W G name) (hle : G ≤ G') :
    MemberName.Readable W G' name := by
  cases name with
  | known name => trivial
  | computed s => exact Uses.Reads.mono h hle

variable (hk : k.Leads) (h : Orderly W G s)
include hk h

/-! ### Parts -/

theorem exprSlot_leads :
    Leads W G s (exprSlot k e) (fun G' a _ => G'.Reads W.depth a) :=
  (hk.expr W G s e h).bind fun _ _ _ h1 hv => materialize_leads h1.orderly hv

theorem exprOrUndefined_leads {e : Option Expr} :
    Leads W G s (exprOrUndefined k e) (fun G' v _ => v.Readable W G') := by
  cases e with
  | none => exact .pure h trivial
  | some e => exact hk.expr W G s e h

/-- The value of an expression that is compiled to a unit of its own. -/
theorem exprUnit_leads {target : Slot} (htarget : W.Takes G target) :
    Leads W G s (exprUnit k target e) (fun G' unit s' =>
      G'.unit unit = some (W.partUse s' .expression false false)) := by
  refine (inChild_leads false false rfl h fun G1 s1 hpart => ?_).imp fun G1 unit s1 h1 hunit => ?_
  · refine (hk.expr _ G1 s1 e hpart.orderly).bind fun G2 v s2 h2 hv => ?_
    have htarget2 := (htarget.mono hpart.le).mono h2.le
    exact (assign_leads h2.orderly ⟨htarget2.takes, htarget2.sees, htarget2.writes⟩ hv).imp
      fun _ _ _ _ _ => trivial
  · rw [h1.partUse]
    exact hunit

omit hk

/-- The unit of an expression is entered. -/
theorem invoke_expression_leads {guard : Guard} {unit : String}
    (hguard : (G.permits W.toStanding).guard guard)
    (hunit : G.unit unit = some (W.partUse s .expression false false)) :
    Leads W G s (invoke guard (.unit unit) none) (fun G' _ _ => G' = G) :=
  invoke_part_leads h hguard hunit rfl nofun

/-! ### Members -/

theorem getMember_leads (hobject : G.Reads W.depth object) (hname : MemberName.Readable W G name) :
    Leads W G s (getMember object name) (fun G' a _ => W.Result G' a) := by
  refine (freshResult_leads h).bind fun G1 result s1 h1 hresult => ?_
  have hobject1 := hobject.mono h1.le
  cases name with
  | known name =>
    exact (callLibrary_result_leads h1.orderly hresult (by simp)
      ⟨_, .value hobject1 (.text (.result .nil)), by decide⟩).bind
      fun G2 _ s2 h2 hresult2 => .pure h2.orderly hresult2
  | computed a =>
    have ha : G1.Reads W.depth a := Uses.Reads.mono hname h1.le
    exact (callLibrary_result_leads h1.orderly hresult (by simp)
      ⟨_, .value hobject1 (.value ha (.result .nil)), by decide⟩).bind
      fun G2 _ s2 h2 hresult2 => .pure h2.orderly hresult2

theorem setMember_leads {value : Slot} (hobject : G.Reads W.depth object)
    (hname : MemberName.Readable W G name) (hvalue : G.Reads W.depth value) :
    Leads W G s (setMember object name value) (fun G' _ _ => G ≤ G') := by
  cases name with
  | known name =>
    exact callLibrary_effect_leads h
      ⟨_, .value hobject (.text (.value hvalue .nil)), by decide⟩
  | computed a =>
    have ha : G.Reads W.depth a := hname
    exact callLibrary_effect_leads h
      ⟨_, .value hobject (.value ha (.value hvalue .nil)), by decide⟩

theorem parentMember_leads {name : String} :
    Leads W G s (parentMember name span) (fun G' a _ => G'.Reads W.depth a) := by
  refine LeadsIn.read rfl ?_
  split
  · exact .throw h
  · next proto hproto =>
    refine (freshResult_leads h).bind fun G1 result s1 h1 hresult => ?_
    have hseen : (G1.permits W.toStanding).source (.copy (.field proto "value")) :=
      ((h.context.parentProto proto hproto W.depth).mono h1.le).sees
    exact (callLibrary_result_leads h1.orderly hresult (by simp)
      ⟨_, .other hseen (.text (.result .nil)), by decide⟩).bind
      fun G2 _ s2 h2 hresult2 => .pure h2.orderly (hresult2.reads _)

theorem parentMemberName_leads :
    Leads W G s (parentMemberName key span) (fun G' _ _ => G' = G) := by
  unfold parentMemberName
  split
  · exact .pure h rfl
  · exact .pure h rfl
  · exact .throw h

omit h in
/-- A slot of a use that a routine can answer to, for a new object or array. -/
theorem allocate_target_leads (use : SlotUse) (h : Orderly W G s) (hkind : kind.isReference = true)
    (htarget : ∀ (G' : Uses) a, G'.slot a = some use → G'.Target (s.site W) a)
    (hprototype : ∀ source, prototype = some source → (G.permits W.toStanding).source source) :
    Leads W G s (allocate kind prototype) (fun G' a s' =>
      (G'.slot a = some use ∧ W.writes a) ∧ s'.current.name = s.current.name) := by
  obtain ⟨G1, h1, hsettles, hslot⟩ := freshSlot_leads use h
  refine LeadsIn.bind (Q := fun G' a s' => (G'.slot a = some use ∧ W.writes a) ∧
    s'.current.name = s.current.name ∧ s'.site W = s.site W)
    ⟨G1, h1, hsettles, hslot, rfl, rfl⟩ fun G2 a s2 h2 ⟨⟨ha, hwrites⟩, hname, hsite⟩ => ?_
  have hentries : G2.Supplies W.toStanding .allocate (some a)
      ([("result", .addressOf a), ("kind", .text kind.tag)] ++
        prototype.toList.map fun source => ("prototype", source)) := by
    cases prototype with
    | none => exact ⟨_, .result (.kind hkind .nil), by decide⟩
    | some source =>
      have hseen := (Uses.permits_mono h2.le _).source (hprototype source rfl)
      exact ⟨_, .result (.kind hkind (.other hseen .nil)), by decide⟩
  refine (callLibrary_leads (some a) h2.orderly (fun b hb => ?_) hentries).bind
    fun G3 _ s3 h3 ⟨_, hname3⟩ =>
      .pure h3.orderly ⟨⟨h3.le.slot _ _ ha, hwrites⟩, hname3.trans hname⟩
  rw [← Option.some.inj hb, hsite]
  exact ⟨htarget G2 a ha, hwrites, List.mem_cons_self⟩

theorem allocate_leads (hkind : kind.isReference = true)
    (hprototype : ∀ source, prototype = some source → (G.permits W.toStanding).source source) :
    Leads W G s (allocate kind prototype) (fun G' a _ => W.Result G' a) :=
  (allocate_target_leads (.result W.root) h hkind (fun _ _ ha => .inl ha) hprototype).imp
    fun _ _ _ _ h => h.1

omit h in
/-- The keys of records may be mentioned anywhere. -/
theorem permits_key {S : Standing} {prototype : Option Record} {source : Source}
    (h : prototype.map (fun r => Source.text r.key) = some source) :
      (G.permits S).source source := by
  obtain ⟨r, _, rfl⟩ := Option.map_eq_some_iff.1 h
  exact nofun

theorem allocateInstance_leads {name : String} :
    Leads W G s (allocateInstance name) (fun G' a _ => W.Result G' a) :=
  LeadsIn.read rfl (allocate_leads h rfl fun _ => permits_key)

theorem globalMember_leads {name : String} :
    Leads W G s (globalMember name) (fun G' v _ => v.Readable W G') := by
  refine LeadsIn.read rfl ?_
  split
  · next b hb => exact .pure h (h.global_variable hb).takes.reads
  · exact .pure h trivial

theorem propertyName_leads {key : PropertyKey} :
    Leads W G s (propertyName key) (fun G' _ _ => G' = G) := by
  cases key with
  | ident id | string text span | number value span => exact .pure h rfl
  | computed e => exact .throw h

include hk

theorem memberKey_leads :
    Leads W G s (memberKey k key) (fun G' name _ => MemberName.Readable W G' name) := by
  cases key with
  | name id => exact .pure h trivial
  | index e =>
    refine (hk.expr W G s e h).bind fun G1 v s1 h1 hv => ?_
    cases v with
    | known value => exact .pure h1.orderly trivial
    | slot a => exact .pure h1.orderly hv

theorem memberParts_leads :
    Leads W G s (memberParts k m)
      (fun G' p _ => G'.Reads W.depth p.1 ∧ MemberName.Readable W G' p.2) := by
  refine (exprSlot_leads hk h).bind fun G1 object s1 h1 hobject => ?_
  refine (memberKey_leads hk h1.orderly).bind fun G2 name s2 h2 hname => ?_
  exact .pure h2.orderly ⟨hobject.mono h2.le, hname⟩

theorem objectMember_leads :
    Leads W G s (objectMember k m) (fun G' v _ => v.Readable W G') := by
  refine (memberParts_leads hk h).bind fun G1 p s1 h1 ⟨hobject, hname⟩ => ?_
  exact (getMember_leads h1.orderly hobject hname).bind
    fun G2 a s2 h2 ha => .pure h2.orderly (ha.reads _)

theorem lowerMember_leads :
    Leads W G s (lowerMember k m) (fun G' v _ => v.Readable W G') := by
  unfold lowerMember
  split
  · exact .throw h
  · split
    · refine (parentMemberName_leads h).bind fun G1 name s1 h1 _ => ?_
      exact (parentMember_leads h1.orderly).bind fun G2 a s2 h2 ha => .pure h2.orderly ha
    · refine LeadsIn.read rfl ?_
      split
      · exact globalMember_leads h
      · exact objectMember_leads hk h

/-! ### Operators -/

omit hk

omit h in
/-- The routine of an operator asks for two operands and a slot for the result, and for the operator
    if it serves several. -/
theorem routine?_accepts {routine : Routine} {operation : Option String}
    (h : op.routine? = some (routine, operation)) :
    (operation = none ∧
        routine.Accepts [("left", .value), ("right", .value), ("result", .result)]) ∨
      (operation = some op.text ∧ routine.Accepts
        [("left", .value), ("right", .value), ("result", .result), ("operation", .operator)]) := by
  cases op <;> cases h <;>
    first
      | exact .inl ⟨rfl, by decide⟩
      | exact .inr ⟨rfl, by decide⟩

theorem applyBinary_leads {a b : Lowered} (ha : a.Readable W G) (hb : b.Readable W G) :
    Leads W G s (applyBinary op a b span) (fun G' v _ => v.Readable W G') := by
  unfold applyBinary
  split
  · exact .pure h trivial
  · split
    · exact .throw h
    · next routine operation hroutine =>
      refine (materialize_leads h ha).bind fun G1 l s1 h1 hl => ?_
      refine (materialize_leads h1.orderly (hb.mono h1.le)).bind fun G2 r s2 h2 hr => ?_
      refine (freshResult_leads h2.orderly).bind fun G3 result s3 h3 hresult => ?_
      have hl3 := (hl.mono h2.le).mono h3.le
      have hr3 := hr.mono h3.le
      have hentries : G3.Supplies W.toStanding routine (some result)
          ([("left", .addressOf l), ("right", .addressOf r), ("result", .addressOf result)] ++
            operation.toList.map fun text => ("operation", .text text)) := by
        rcases routine?_accepts hroutine with ⟨rfl, haccepts⟩ | ⟨rfl, haccepts⟩
        · exact ⟨_, .value hl3 (.value hr3 (.result .nil)), haccepts⟩
        · exact ⟨_, .value hl3 (.value hr3 (.result (.operator op .nil))), haccepts⟩
      refine (callLibrary_result_leads h3.orderly hresult (by simp) hentries).bind
        fun G4 _ s4 h4 hresult4 => ?_
      exact .pure h4.orderly (hresult4.reads _)

theorem toNumberSlot_leads (ha : G.Reads W.depth a) :
    Leads W G s (toNumberSlot a) (fun G' a _ => G'.Reads W.depth a) := by
  refine (freshResult_leads h).bind fun G1 result s1 h1 hresult => ?_
  exact (callLibrary_result_leads h1.orderly hresult (by simp)
    ⟨_, .value (ha.mono h1.le) (.result .nil), by decide⟩).bind
    fun G2 _ s2 h2 hresult2 => .pure h2.orderly (hresult2.reads _)

theorem notSlot_leads (ha : G.Reads W.depth a) :
    Leads W G s (notSlot a) (fun G' a _ => G'.Reads W.depth a) := by
  refine (truthFlag_leads h ha.sees).bind fun G1 flag s1 h1 hflag => ?_
  refine (scalarSlot_leads (.boolean false) [(isFalse flag, .literal (.bool true))]
    (fun _ => rfl) h1.orderly fun e he => ?_).imp fun _ _ _ _ ha => ha W.depth
  rw [List.mem_singleton.1 he]
  exact ⟨Permits.guard_isFalse (hflag.sees _), nofun, .literal ⟨true, rfl⟩⟩

theorem typeOfSlot_leads (ha : G.Reads W.depth a) :
    Leads W G s (typeOfSlot a) (fun G' a _ => G'.Reads W.depth a) := by
  refine (scalarSlot_leads (.string "undefined") ((Kind.all.filter (· ≠ .undefined)).map
    fun kind => (kindIs a kind, .text kind.typeOf)) (fun _ => rfl) h fun e he => ?_).imp
    fun _ _ _ _ ha => ha W.depth
  obtain ⟨kind, _, rfl⟩ := List.mem_map.1 he
  exact ⟨Permits.guard_kindIs ha.sees kind, nofun, .literal ⟨kind.typeOf, rfl⟩⟩

/-- A value that is copied when a later operand may write its variable. -/
theorem snapshotIf_leads {v : Lowered} {p : Prop} [Decidable p] (hv : v.Readable W G) :
    Leads W G s (if p then snapshot v else pure v) (fun G' v _ => v.Readable W G') :=
  LeadsIn.ite (fun _ => snapshot_leads h hv) fun _ => .pure h hv

theorem applyUnary_leads {op : UnaryOp} (ha : G.Reads W.depth a) :
    Leads W G s (applyUnary op a span) (fun G' v _ => v.Readable W G') := by
  cases op with
  | minus =>
    show Leads W G s (applyBinary .sub (.known (.number 0.0)) (.slot a) span) _
    exact applyBinary_leads h trivial ha
  | plus =>
    exact (toNumberSlot_leads h ha).bind fun G1 _ s1 h1 hresult => .pure h1.orderly hresult
  | not => exact (notSlot_leads h ha).bind fun G1 _ s1 h1 hresult => .pure h1.orderly hresult
  | typeOf =>
    exact (typeOfSlot_leads h ha).bind fun G1 _ s1 h1 hresult => .pure h1.orderly hresult
  | void => exact .pure h trivial
  | bitNot => exact .throw h
  | delete => exact .throw h

theorem isUnboundName_leads :
    GoesOn W G s (isUnboundName e) := by
  unfold isUnboundName
  split
  · exact LeadsIn.read rfl (.pure h trivial)
  · exact .pure h trivial

include hk

theorem lowerBinary_leads :
    Leads W G s (lowerBinary k op left right span) (fun G' v _ => v.Readable W G') := by
  refine (hk.expr W G s left h).bind fun G1 l s1 h1 hl => ?_
  refine (snapshotIf_leads h1.orderly hl).bind fun G2 l s2 h2 hl => ?_
  refine (hk.expr W G2 s2 right h2.orderly).bind fun G3 r s3 h3 hr => ?_
  exact applyBinary_leads h3.orderly (hl.mono h3.le) hr

theorem lowerUnary_leads {op : UnaryOp} {argument : Expr} :
    Leads W G s (lowerUnary k op argument span) (fun G' v _ => v.Readable W G') := by
  unfold lowerUnary
  split
  · exact .throw h
  · refine (isUnboundName_leads h).bind fun G1 unbound s1 h1 _ => ?_
    split
    · exact .pure h1.orderly trivial
    · refine (hk.expr W G1 s1 argument h1.orderly).bind fun G2 v s2 h2 hv => ?_
      cases v with
      | slot a => exact applyUnary_leads h2.orderly hv
      | known value =>
        dsimp only
        split
        · exact .pure h2.orderly trivial
        · exact .throw h2.orderly

/-! ### Operators that may skip their right side -/

omit hk in
theorem wantsRight_leads {op : LogicalOp} {left : Slot} (hleft : G.Reads W.depth left) :
    Leads W G s (wantsRight op left)
      (fun G' guard _ => (G'.permits W.toStanding).guard guard) := by
  cases op with
  | and =>
    exact (truthFlag_leads h hleft.sees).bind
      fun G1 _ s1 h1 hflag => .pure h1.orderly (Permits.guard_isTrue (hflag.sees _))
  | or =>
    exact (truthFlag_leads h hleft.sees).bind
      fun G1 _ s1 h1 hflag => .pure h1.orderly (Permits.guard_isFalse (hflag.sees _))
  | coalesce =>
    refine (slotOf_flag_leads _ h).bind fun G1 nullish s1 h1 hnullish => ?_
    refine (raise_leads h1.orderly (Permits.guard_kindIs (hleft.mono h1.le).sees _)
      hnullish).bind fun G2 _ s2 h2 _ => ?_
    have hnullish2 := hnullish.mono h2.le
    refine (raise_leads h2.orderly (Permits.guard_kindIs (hleft.mono (h1.trans h2).le).sees _)
      hnullish2).bind fun G3 _ s3 h3 _ => ?_
    exact .pure h3.orderly (Permits.guard_isTrue ((hnullish2.mono h3.le).sees _))

theorem lowerLogical_leads {op : LogicalOp} :
    Leads W G s (lowerLogical k op left right) (fun G' v _ => v.Readable W G') := by
  refine (hk.expr W G s left h).bind fun G1 v s1 h1 hv => ?_
  cases v with
  | known value =>
    dsimp only
    split
    · exact .pure h1.orderly trivial
    · exact hk.expr W G1 s1 right h1.orderly
  | slot a =>
    refine (freshResult_leads h1.orderly).bind fun G2 result s2 h2 hresult => ?_
    have ha : G2.Reads W.depth a := Uses.Reads.mono hv h2.le
    refine (set_slot_leads h2.orderly hresult.takes ha.offers).bind fun G3 _ s3 h3 _ => ?_
    refine (wantsRight_leads h3.orderly (ha.mono h3.le)).bind fun G4 guard s4 h4 hguard => ?_
    have hresult4 := hresult.mono (h3.trans h4).le
    refine (exprUnit_leads hk h4.orderly hresult4.takes).bind fun G5 unit s5 h5 hunit => ?_
    refine (invoke_expression_leads h5.orderly ((Uses.permits_mono h5.le _).guard hguard)
      hunit).bind fun G6 _ s6 h6 _ => ?_
    exact .pure h6.orderly ((hresult4.mono (h5.trans h6).le).reads _)

theorem lowerConditional_leads {test yes no : Expr} :
    Leads W G s (lowerConditional k test yes no) (fun G' v _ => v.Readable W G') := by
  refine (hk.expr W G s test h).bind fun G1 v s1 h1 hv => ?_
  refine (truth_leads h1.orderly hv).bind fun G2 truth s2 h2 htruth => ?_
  split
  · exact hk.expr W G2 s2 yes h2.orderly
  · exact hk.expr W G2 s2 no h2.orderly
  · next flag =>
    have hflag : W.Flag G2 flag := htruth
    refine (freshResult_leads h2.orderly).bind fun G3 result s3 h3 hresult => ?_
    refine (exprUnit_leads hk h3.orderly hresult.takes).bind fun G4 unit s4 h4 hunit => ?_
    have hflag4 := hflag.mono (h3.trans h4).le
    refine (invoke_expression_leads h4.orderly (Permits.guard_isTrue (hflag4.sees _))
      hunit).bind fun G5 _ s5 h5 _ => ?_
    have hresult5 := hresult.mono (h4.trans h5).le
    refine (exprUnit_leads hk h5.orderly hresult5.takes).bind fun G6 unit s6 h6 hunit => ?_
    have hflag6 := hflag4.mono (h5.trans h6).le
    refine (invoke_expression_leads h6.orderly (Permits.guard_isFalse (hflag6.sees _))
      hunit).bind fun G7 _ s7 h7 _ => ?_
    exact .pure h7.orderly ((hresult5.mono (h6.trans h7).le).reads _)

omit h in
theorem templateFrom_leads (pieces : List String) (parts : List Expr) :
    ∀ {G s} {v : Lowered}, Orderly W G s → v.Readable W G →
      Leads W G s (templateFrom k span v pieces parts) (fun G' v _ => v.Readable W G') := by
  induction parts generalizing pieces with
  | nil =>
    intro G s start h hstart
    unfold templateFrom
    exact .pure h hstart
  | cons e parts ih =>
    intro G s start h hstart
    refine (hk.expr W G s e h).bind fun G1 v s1 h1 hv => ?_
    refine (applyBinary_leads h1.orderly (hstart.mono h1.le) hv).bind
      fun G2 joined s2 h2 hjoined => ?_
    have hpiece : Leads W G2 s2 (if (pieces.headD "").isEmpty then pure joined
        else applyBinary .add joined (.known (.string (pieces.headD ""))) span)
        (fun G' v _ => v.Readable W G') := by
      split
      · exact .pure h2.orderly hjoined
      · exact applyBinary_leads h2.orderly hjoined (b := .known _) trivial
    exact hpiece.bind fun G3 joined s3 h3 hjoined => ih pieces.tail h3.orderly hjoined

theorem lowerTemplate_leads {pieces : List String} {parts : List Expr} :
    Leads W G s (lowerTemplate k pieces parts span) (fun G' v _ => v.Readable W G') :=
  templateFrom_leads hk pieces.tail parts (v := .known _) h trivial

end Compile

end PackScript
