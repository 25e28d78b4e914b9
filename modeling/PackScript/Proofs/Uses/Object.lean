import PackScript.Compile.Object
import PackScript.Proofs.Uses.Function

namespace PackScript.Compile

/-!
# Literals and classes keep to the uses

The records of literals are created at run time. A class has two records of the program, and
`createClass_leads` shows that these are the only ones its code writes. It is the one rule here that
names a unit before it makes it: between the two the parent class is compiled, which may be any
expression, so the name is `Pending` all the while.
-/

variable {k : Lowering} {W : Watch} {G : Uses} {s : Compiler}

/-! ### Object and array literals -/

theorem entryValue_leads (hk : k.Leads) {value : Expr} {method : Bool} (h : Orderly W G s) :
    Leads W G s (entryValue k value method) (fun G' v _ => v.Readable W G') := by
  unfold entryValue
  split
  · exact (functionSlot_leads hk h rfl rfl
      (FunctionSpec.ok_of_none (by simp [Function.spec]) rfl)).bind fun G1 a s1 h1 ha =>
        .pure h1.orderly (ha.reads _)
  · exact hk.expr W G s _ h

theorem setEntry_leads (hk : k.Leads) {object : Slot} {property : Property} (h : Orderly W G s)
    (hobject : G.Reads W.depth object) :
    GoesOn W G s (setEntry k object property) := by
  cases property with
  | spread argument span => exact .throw h
  | entry key value kind shorthand method span =>
    refine LeadsIn.ite (fun _ => .throw h) fun _ => ?_
    refine (propertyName_leads h).bind fun G1 name s1 h1 _ => ?_
    refine (entryValue_leads hk h1.orderly).bind fun G2 v s2 h2 hv => ?_
    refine (materialize_leads h2.orderly hv).bind fun G3 a s3 h3 ha => ?_
    have hname : MemberName.Readable W G3 (.known name) := trivial
    exact (setMember_leads h3.orderly (hobject.mono ((h1.trans h2).trans h3).le) hname ha).imp
      fun _ _ _ _ _ => trivial

theorem lowerObject_leads (hk : k.Leads) {properties : List Property} (h : Orderly W G s) :
    Leads W G s (lowerObject k properties) (fun G' v _ => v.Readable W G') := by
  refine (allocateInstance_leads h).bind fun G1 object s1 h1 hobject => ?_
  refine (LeadsIn.forM (fun G' _ => G'.Reads W.depth object) h1.orderly (hobject.reads _)
    fun p _ G2 s2 h2 hobject2 => ?_).bind fun G3 _ s3 h3 hobject3 => .pure h3.orderly hobject3
  exact (setEntry_leads hk h2.orderly hobject2).imp fun _ _ _ h3 _ => hobject2.mono h3.le

theorem setElements_leads (hk : k.Leads) {array : Slot} (elements : List (Option Expr)) :
    ∀ {G s} (index : Nat), Orderly W G s → G.Reads W.depth array →
      Leads W G s (setElements k array index elements) (fun G' _ _ => G'.Reads W.depth array) := by
  induction elements with
  | nil => exact fun _ h harray => .pure h harray
  | cons e rest ih =>
    intro G s index h harray
    unfold setElements
    split
    · next heq => cases heq
    · exact .throw h
    · next e rest _ heq =>
      cases heq
      refine (exprOrUndefined_leads hk h).bind fun G1 v s1 h1 hv => ?_
      refine (materialize_leads h1.orderly hv).bind fun G2 a s2 h2 ha => ?_
      have harray2 := harray.mono (h1.trans h2).le
      have hname : MemberName.Readable W G2 (.known (toString index)) := trivial
      refine (setMember_leads h2.orderly harray2 hname ha).bind fun G3 _ s3 h3 _ => ?_
      exact ih (index + 1) h3.orderly (harray2.mono h3.le)

theorem lowerArray_leads (hk : k.Leads) {elements : List (Option Expr)} (h : Orderly W G s) :
    Leads W G s (lowerArray k elements) (fun G' v _ => v.Readable W G') := by
  refine (allocate_leads h rfl fun _ hnone => by cases hnone).bind fun G1 array s1 h1 harray => ?_
  exact (setElements_leads hk elements 0 h1.orderly (harray.reads _)).bind
    fun G2 _ s2 h2 harray2 => .pure h2.orderly harray2

/-! ### Classes -/

/-- The records of a class are the program's, and its constructor is a function of its own. -/
structure ClassOk (W : Watch) (G : Uses) (parts : ClassParts) : Prop where
  record : parts.record.index < G.records
  proto : parts.proto.index < G.records
  body : BodyOf G parts.unit .ctor (W.depth + 1) none

theorem ClassOk.mono {G G' : Uses} {parts : ClassParts} (h : ClassOk W G parts) (hle : G ≤ G') :
    ClassOk W G' parts :=
  ⟨Nat.lt_of_lt_of_le h.record hle.records, Nat.lt_of_lt_of_le h.proto hle.records,
    h.body.mono hle⟩

/-- The use of the constructor of a class in the present function. -/
def ctorUse (W : Watch) (s : Compiler) : UnitUse :=
  .body .ctor (W.depth + 1) (generatedUnit s.names.units) (some none)

/-- The uses when the records of a class are there and its constructor is named. -/
def classUses (W : Watch) (G : Uses) (s : Compiler) : Uses :=
  { G with records := G.records + 2 }.withUnit (generatedUnit s.names.units) (ctorUse W s)

/-- The state after the records of a class were written and its constructor was named. -/
def classState (s : Compiler) : Compiler :=
  { s with
    names.records := s.names.records + 2
    names.units := s.names.units + 1 }.push
    [.set .always (.record ⟨s.names.records + 1⟩ []) (.literal (emptyRecord none)),
      .set .always (.record ⟨s.names.records⟩ [])
        (.literal (emptyRecord (some (objectSlot ⟨s.names.records + 1⟩))))]

theorem beginClass_run (s : Compiler) : beginClass s = .ok
    ⟨⟨s.names.records⟩, ⟨s.names.records + 1⟩, generatedUnit s.names.units⟩ (classState s) :=
  rfl

theorem classOk_start (h : Orderly W G s) : ClassOk W (classUses W G s)
    ⟨⟨s.names.records⟩, ⟨s.names.records + 1⟩, generatedUnit s.names.units⟩ := by
  have hrecords : (classUses W G s).records = s.names.records + 2 := by
    show G.records + 2 = _
    rw [h.records]
  have huse : (classUses W G s).unit (generatedUnit s.names.units) = some (ctorUse W s) :=
    Uses.withUnit_self _ _
  exact ⟨by simp [hrecords], by simp [hrecords], ⟨_, huse⟩, _, huse, .inl rfl⟩

theorem beginClass_advances (h : Orderly W G s) :
    Advances false W G s (classUses W G s) (classState s) := by
  have hle : G ≤ { G with records := G.records + 2 } :=
    { G.le_refl with records := Nat.le_add_right _ _ }
  have h1 : Advances false W G s { G with records := G.records + 2 }
      { s with names.records := s.names.records + 2 } :=
    .withNames h hle (h.withNames hle _ ⟨Nat.le_refl _, fun n hn => (h.freshSlot n hn).1⟩
      h.freshChannel h.freshUnit (congrArg (· + 2) h.records) h.declaredUnit)
      ⟨Nat.le_refl _, Nat.le_add_right _ _, Nat.le_refl _, Nat.le_refl _⟩ rfl rfl
  have h2 : Advances false W _ _ _ _ := .freshUnit (ctorUse W s) h1.orderly
  have hparts := classOk_start h
  refine (h1.trans h2).trans (.push h2.orderly ?_)
  exact .cons (.record (p := none) hparts.proto nofun)
    (.cons (.record (p := some ⟨s.names.records + 1⟩) hparts.record fun q hq =>
      Option.some.inj hq ▸ hparts.proto) .nil)

theorem bindClass_leads {parts : ClassParts} {cls : Slot} {id : Ident} (h : Orderly W G s)
    (hcls : G.Reads W.depth cls) : GoesOn W G s (bindClass parts cls id) := by
  refine (declare_variable_leads h).bind fun G1 binding s1 h1 hbinding => ?_
  refine (set_slot_leads h1.orderly hbinding.takes (hcls.mono h1.le).offers).bind
    fun G2 _ s2 h2 _ => ?_
  have hsame : Advances false W G2 s2 G2
      { s2 with classProtos := (binding, parts.proto) :: s2.classProtos } :=
    { (Advances.refl h2.orderly : Advances false W G2 s2 G2 s2) with
      orderly := { h2.orderly with scopes := { h2.orderly.scopes with } }
      current := .same rfl rfl (.refl _ _ _ _ _)
      units := fun _ he => .inl he
      adds := fun _ => { Adds.refl W.toTerms G2 s2 with } }
  exact .of_ok rfl hsame (fun _ hn => hn) trivial

/-- The slots of a parent class hold script values and belong to no loop. -/
structure ParentOk (G : Uses) (p : Option Slot × Option Slot) : Prop where
  parent : ∀ a, p.1 = some a → ∀ depth, G.Reads depth a
  proto : ∀ a, p.2 = some a → ∀ depth, G.Reads depth a

theorem ParentOk.mono {G G' : Uses} {p : Option Slot × Option Slot} (h : ParentOk G p)
    (hle : G ≤ G') : ParentOk G' p :=
  ⟨fun a ha depth => (h.parent a ha depth).mono hle, fun a ha depth =>
    (h.proto a ha depth).mono hle⟩

theorem linkParent_leads (hk : k.Leads) {parts : ClassParts} {parent : Option Expr}
    (h : Orderly W G s) (hproto : parts.proto.index < G.records) :
    Leads W G s (linkParent k parts parent) (fun G' p _ => ParentOk G' p) := by
  cases parent with
  | none => exact .pure h ⟨nofun, nofun⟩
  | some e =>
    refine (hk.expr W G s e h).bind fun G1 v s1 h1 hv => ?_
    refine (freshResult_leads h1.orderly).bind fun G2 parent s2 h2 hparent => ?_
    refine (assign_leads h2.orderly hparent.takes (hv.mono h2.le)).bind fun G3 _ s3 h3 _ => ?_
    have hparent3 := hparent.mono h3.le
    have hname : MemberName.Readable W G3 (.known "prototype") := trivial
    refine (getMember_leads h3.orderly (hparent3.reads _) hname).bind
      fun G4 proto s4 h4 hproto4 => ?_
    have hparent4 := hparent3.mono h4.le
    have hrecord := Nat.lt_of_lt_of_le hproto (((h1.trans h2).trans h3).trans h4).le.records
    refine (callLibrary_effect_leads h4.orderly
      ⟨_, .record hrecord (.value (hparent4.reads _) .nil), by decide⟩).bind
      fun G5 _ s5 h5 _ => .pure h5.orderly ⟨fun a ha => ?_, fun a ha => ?_⟩
    · cases ha
      exact (hparent4.mono h5.le).reads
    · cases ha
      exact (hproto4.mono h5.le).reads

theorem ownCtor_leads (members : List ClassMember) :
    ∀ {found : Option (List Param × Block)}, Orderly W G s →
      GoesOn W G s (ownCtor found members) := by
  induction members with
  | nil => exact fun h => .pure h trivial
  | cons m rest ih =>
    intro found h
    unfold ownCtor
    split
    · next heq => cases heq
    · next heq =>
      cases heq
      exact LeadsIn.ite (fun _ => .throw h) fun _ => ih h
    · next heq =>
      cases heq
      exact ih h

section

variable (hk : k.Leads) (h : Orderly W G s)

include hk h

theorem createCtor_leads {parts : ClassParts} {scope : ClassScope} {use : UnitUse}
    {ctor : Option (List Param × Block)} {span : Span} (hparts : ClassOk W G parts)
    (hscope : ParentOk G (scope.parent, scope.parentProto))
    (hunit : Pending W.toTerms G s parts.unit use) (hreserved : W.exact → ¬ W.reserved parts.unit) :
    Leads W G s (createCtor k parts scope ctor span)
      (fun _ _ s' => s'.units.has parts.unit = true) := by
  -- the constructor of a class is no top-level function
  have hnone : s.declarationOf parts.unit = none := by
    obtain ⟨owner, huse⟩ := hparts.body.use
    exact h.declarationOf_eq_none huse fun heq => nomatch congrArg UnitUse.kind heq
  have hcreate : ∀ params body, Leads W G s (createFunction k
      ⟨.ctor, some parts.unit, some parts.record, params, body, false, false, some scope, span⟩)
      (fun G' v s' => v.Proper G'.IsRecord (G'.MadeAt W.depth) ∧
        s'.units.has parts.unit = true) := by
    refine fun params body => createFunction_leads hk h rfl ⟨by simp, fun c a hc ha => ?_,
      fun c a hc ha => ?_⟩ (fun r hr => Option.some.inj hr ▸ hparts.record)
      (hnone.symm ▸ hparts.body) hunit hreserved fun _ d hd => ?_
    · cases hc
      exact hscope.parent a ha
    · cases hc
      exact hscope.proto a ha
    · simp [hnone] at hd
  unfold createCtor
  cases ctor with
  | none =>
    exact (hcreate [] .defaultCtor).bind fun G1 _ s1 h1 ⟨_, hhas⟩ => .pure h1.orderly hhas
  | some c =>
    exact (hcreate c.1 (.stmts c.2.body)).bind fun G1 _ s1 h1 ⟨_, hhas⟩ => .pure h1.orderly hhas

theorem setClassMember_leads {parts : ClassParts} {scope : ClassScope} {member : ClassMember}
    (hparts : ClassOk W G parts) (hscope : ParentOk G (scope.parent, scope.parentProto)) :
    GoesOn W G s (setClassMember k parts scope member) := by
  cases member with
  | ctor params body span => exact .pure h trivial
  | method key fn kind isStatic span =>
    refine LeadsIn.ite (fun _ => .throw h) fun _ => ?_
    refine (propertyName_leads h).bind fun G1 name s1 h1 _ => ?_
    have hscope1 := hscope.mono h1.le
    have hok : (fn.spec .method none (some { scope with fields := [] }) span).Ok G1 := by
      refine ⟨by simp [Function.spec], fun c a hc ha => ?_, fun c a hc ha => ?_⟩
      · cases hc
        exact hscope1.parent a ha
      · cases hc
        exact hscope1.proto a ha
    refine (createFunction_fresh_leads hk h1.orderly rfl hok (by simp [Function.spec])).bind
      fun G2 literal s2 h2 hliteral => ?_
    have hparts2 := hparts.mono (h1.trans h2).le
    have howner : (if isStatic then parts.record else parts.proto).index < G2.records := by
      split
      · exact hparts2.record
      · exact hparts2.proto
    exact (emit_leads h2.orderly (.property howner (Uses.offers_literal hliteral))).imp
      fun _ _ _ _ _ => trivial
  | field f =>
    refine LeadsIn.ite (fun _ => ?_) fun _ => .pure h trivial
    refine (propertyName_leads h).bind fun G1 name s1 h1 _ => ?_
    refine (exprOrUndefined_leads hk h1.orderly).bind fun G2 v s2 h2 hv => ?_
    have hrecord := (hparts.mono (h1.trans h2).le).record
    exact (emit_leads h2.orderly (.property hrecord hv.offers)).imp fun _ _ _ _ _ => trivial

/-- The constructor and the members of a class whose parts are named. -/
theorem classMembers_leads {cls : ClassNode} {parts : ClassParts} {slot : Slot} {use : UnitUse}
    (hparts : ClassOk W G parts) (hunit : Pending W.toTerms G s parts.unit use)
    (hreserved : W.exact → ¬ W.reserved parts.unit) (hslot : W.Result G slot) :
    Leads W G s (do
      let (parent, parentProto) ← linkParent k parts cls.parent
      let ctor ← ownCtor none cls.members
      let scope : ClassScope := ⟨parent, parentProto, instanceFields cls.members⟩
      createCtor k parts scope ctor cls.span
      cls.members.forM (setClassMember k parts scope)
      return .slot slot)
      (fun G' v s' => Lowered.Readable W G' v ∧ s'.units.has parts.unit = true) := by
  refine (LeadsIn.pending hunit (linkParent_leads hk (h.withTerms _) hparts.proto)).bind
    fun G1 p s1 h1 ⟨hp, hunit1⟩ => ?_
  refine (LeadsIn.pending hunit1 (ownCtor_leads cls.members (h1.orderly.withTerms _))).bind
    fun G2 ctor s2 h2 ⟨_, hunit2⟩ => ?_
  have hparts2 := hparts.mono (h1.trans h2).le
  refine (createCtor_leads hk h2.orderly hparts2 (hp.mono h2.le) hunit2 hreserved).bind
    fun G3 _ s3 h3 hhas => ?_
  refine (LeadsIn.forM (fun G' s' => (ParentOk G' p ∧ ClassOk W G' parts) ∧
    s'.units.has parts.unit = true) h3.orderly
    ⟨⟨hp.mono (h2.trans h3).le, hparts2.mono h3.le⟩, hhas⟩
    fun m _ G4 s4 h4 ⟨⟨hp4, hparts4⟩, hhas4⟩ => ?_).bind
    fun G5 _ s5 h5 ⟨_, hhas5⟩ => .pure h5.orderly ⟨?_, hhas5⟩
  · exact (setClassMember_leads hk h4.orderly hparts4 hp4).imp fun _ _ _ h5 _ =>
      ⟨⟨hp4.mono h5.le, hparts4.mono h5.le⟩, unitNames_has h5.unitNames hhas4⟩
  · exact (hslot.mono (((h1.trans h2).trans h3).trans h5).le).reads _

theorem createClass_leads {cls : ClassNode} :
    Leads W G s (createClass k cls) (fun G' v _ => v.Readable W G') := by
  have hnew : G.unit (generatedUnit s.names.units) = none := h.freshUnit _ (Nat.le_refl _)
  refine LeadsIn.weaken
    (W := { W with toTerms := W.toTerms.without (generatedUnit s.names.units) })
    (Q := fun G' v _ => v.Readable W G') ?_ (fun _ _ h => h.of_without hnew) fun _ _ _ _ h => h
  have h1 := beginClass_advances (h.withTerms (W.toTerms.without (generatedUnit s.names.units)))
  have hparts := classOk_start (h.withTerms (W.toTerms.without (generatedUnit s.names.units)))
  have huse : (classUses W G s).unit (generatedUnit s.names.units) = some (ctorUse W s) :=
    Uses.withUnit_self _ _
  have hunit : Pending (W.toTerms.without (generatedUnit s.names.units)) (classUses W G s)
      (classState s) (generatedUnit s.names.units) (ctorUse W s) :=
    ⟨huse, h.freshUnit_ne, fun _ => h.has_eq_false hnew⟩
  have hliteral : (Nbt.slot .function (.string (Record.key ⟨s.names.records⟩))
      (some (functionId s.ns (generatedUnit s.names.units)))).Proper
      (classUses W G s).IsRecord ((classUses W G s).MadeAt W.depth) := by
    refine Nbt.proper_function ⟨_, hparts.record, rfl⟩
      ⟨_, _, congrArg (functionId · _) h.ns.symm, huse, ?_, rfl⟩
    exact UnitUse.isBody_body _ _ rfl (by decide) (Nat.succ_ne_zero _)
  refine Ends.ok (beginClass_run s) (Ends.ok rfl ?_)
  refine (LeadsIn.pending hunit (literalSlot_leads (h1.orderly.withTerms _) hliteral)).bind_after h1
    fun G2 slot s2 h2 hsettles2 ⟨hslot, hunit2⟩ => ?_
  have hparts2 := hparts.mono h2.le
  have hend : ∀ G' s', Settles G2 s2 G' s' →
      s'.units.has (generatedUnit s.names.units) = true → Settles G s G' s' :=
    fun G' s' hd hhas => Settles.of_withUnit (G := { G with records := G.records + 2 }) _
      (hsettles2.trans hd) hhas
  cases cls.id with
  | none =>
    exact (classMembers_leads hk h2.orderly hparts2 hunit2 (fun _ h => h.2 rfl) hslot).after
      (h1.trans h2) fun G' v s' _ hd ⟨hv, hhas⟩ => ⟨hend G' s' hd hhas, hv⟩
  | some id =>
    refine LeadsIn.after ((LeadsIn.pending hunit2 (bindClass_leads (h2.orderly.withTerms _)
      (hslot.reads _))).bind fun G3 _ s3 h3 ⟨_, hunit3⟩ => classMembers_leads hk h3.orderly
        (hparts2.mono h3.le) hunit3 (fun _ h => h.2 rfl) (hslot.mono h3.le)) (h1.trans h2)
      fun G' v s' _ hd ⟨hv, hhas⟩ => ⟨hend G' s' hd hhas, hv⟩

theorem lowerClass_leads {cls : ClassNode} :
    Leads W G s (lowerClass k cls) (fun G' v _ => v.Readable W G') :=
  LeadsIn.ite (fun _ => inScope_leads h (createClass_leads hk (openScope_orderly h)))
    fun _ => createClass_leads hk h

end

end PackScript.Compile
