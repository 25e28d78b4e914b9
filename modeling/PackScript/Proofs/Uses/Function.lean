import PackScript.Proofs.Uses.Call

namespace PackScript

/-!
# Functions keep to the uses

The body of a function is a unit of its own, which is the root of all its pieces.

* `functionUnit_leads` — the body, which binds a fresh slot for the address of the result.
* `openFunction_opens` — a function was opened, and the unit around it waits.
* `createFunction_leads` — a function whose unit has its name already, and
  `createFunction_fresh_leads` — one whose unit is named here.
* `declareInner_leads` — a function that is declared inside of something.
-/

variable {s' : Compiler} {fn : Function} {spec : FunctionSpec} {p : Param} {unit : String}

namespace Compile

variable {k : Lowering} {W : Watch} {G : Uses} {s : Compiler}

/-! ### Heap records -/

theorem newObject_leads (h : Orderly W G s) :
    Leads W G s newObject (fun G' r _ => r.index < G'.records) := by
  refine (freshRecord_leads h).bind fun G1 r s1 h1 hr => ?_
  have hrecord : G1.Piece (s1.site W) W.writes s1.address?
      [.set .always (.record r []) (.literal (emptyRecord
        ((none : Option Record).map objectSlot)))] :=
    .record hr nofun
  exact (emit_leads h1.orderly hrecord).bind
    fun G2 _ s2 h2 _ => .pure h2.orderly (Nat.lt_of_lt_of_le hr h2.le.records)

theorem functionRecord_leads {kind : UnitKind} (h : Orderly W G s) :
    Leads W G s (functionRecord kind) (fun G' r _ => r.index < G'.records) := by
  refine (freshRecord_leads h).bind fun G1 r s1 h1 hr => ?_
  have hproto : Leads W G1 s1
      (do if kind = .function then return some (objectSlot (← newObject)) else return none)
      (fun G' p _ => ∃ proto : Option Record, p = proto.map objectSlot ∧
        ∀ q, proto = some q → q.index < G'.records) := by
    split
    · exact (newObject_leads h1.orderly).bind fun G2 proto s2 h2 hproto =>
        .pure h2.orderly ⟨some proto, rfl, fun q hq => Option.some.inj hq ▸ hproto⟩
    · exact .pure h1.orderly ⟨none, rfl, nofun⟩
  refine hproto.bind fun G2 p s2 h2 ⟨proto, hp, hproto⟩ => ?_
  subst hp
  have hr2 := Nat.lt_of_lt_of_le hr h2.le.records
  exact (emit_leads h2.orderly (.record hr2 hproto)).bind
    fun G3 _ s3 h3 _ => .pure h3.orderly (Nat.lt_of_lt_of_le hr2 h3.le.records)

/-! ### Parameters -/

theorem paramParts_leads (h : Orderly W G s) : GoesOn W G s (paramParts p) := by
  unfold paramParts
  split
  · exact .pure h trivial
  · exact .pure h trivial
  · exact .throw h
  · exact .throw h

theorem bindParam_leads (hk : k.Leads) {index : Nat} (h : Orderly W G s) (hfed : W.fed = true) :
    GoesOn W G s (bindParam k index p) := by
  refine (paramParts_leads h).bind fun G1 parts s1 h1 _ => ?_
  refine (declare_variable_leads h1.orderly).bind fun G2 slot s2 h2 hslot => ?_
  refine (assign_leads (v := .undefined) h2.orderly hslot.takes trivial).bind
    fun G3 _ s3 h3 _ => ?_
  have hslot3 := hslot.mono h3.le
  have hparam : G3.Offers W.toStanding (.param (argumentName index)) :=
    ⟨valueEntry_argumentName index, hfed⟩
  refine (set_slot_leads h3.orderly hslot3.takes hparam).bind fun G4 _ s4 h4 _ => ?_
  split
  · exact .pure h4.orderly trivial
  · have hslot4 := hslot3.mono h4.le
    refine (exprUnit_leads hk h4.orderly hslot4.takes).bind fun G5 unit s5 h5 hunit => ?_
    have hsees : (G5.permits W.toStanding).place (.field slot "type") :=
      hslot4.sees.mono h5.le
    exact (invoke_expression_leads h5.orderly (Permits.guard_when hsees _) hunit).imp
      fun _ _ _ _ _ => trivial

theorem bindParams_leads (hk : k.Leads) (hfed : W.fed = true) (params : List Param) :
    ∀ {G s} (index : Nat), Orderly W G s →
      GoesOn W G s (bindParams k index params) := by
  induction params with
  | nil => exact fun _ h => .pure h trivial
  | cons p rest ih =>
    intro G s index h
    exact (bindParam_leads hk h hfed).bind fun G1 _ s1 h1 _ => ih (index + 1) h1.orderly

end Compile

/-! ### What a function binds first -/

/-- The context is changed, but not where the code of the function goes. -/
structure FunctionContext.Rebinds (c c' : FunctionContext) : Prop where
  kind : c'.kind = c.kind
  isAsync : c'.isAsync = c.isAsync
  returnAddress : c'.returnAddress = c.returnAddress
  breakables : c'.breakables = c.breakables
  loops : c'.loops = c.loops
  declaration : c'.declaration = c.declaration

section

variable {opens : Bool} {W : Watch} {G G' : Uses} {s s' : Compiler}

theorem Advances.rebind {c : FunctionContext} {i : UnitInfo} (h : Orderly W G s)
    (hc : ContextOrderly G c) (hsame : s.context.Rebinds c)
    (hkind : i.kind = s.current.info.kind) (hasync : i.isAsync = s.current.info.isAsync)
    (hscript : s.context.kind ≠ .script) :
    Advances true W G s G { s with context := c, current.info := i } := by
  have hsite : Compiler.site { s with context := c, current.info := i } W = s.site W := by
    simp [Compiler.site, hkind, hsame.declaration, hsame.isAsync]
  have haddress : Compiler.address? { s with context := c, current.info := i } = s.address? := by
    simp [Compiler.address?, hkind, hsame.isAsync, hsame.returnAddress]
  exact
    { (Advances.refl h : Advances true W G s G s) with
      orderly :=
        { h with
          scopes := { h.scopes with loops := fun hlast => hsame.loops.trans (h.scopes.loops hlast) }
          context := hc
          isAsync := hasync.trans (h.isAsync.trans hsame.isAsync.symm)
          script := by
            show _ ↔ c.kind = _
            rw [hsame.kind]
            exact h.script
          part := by
            show _ ↔ i.kind.isPart = _
            rw [hkind]
            exact h.part
          declaration := fun d hd => h.declaration d (hsame.declaration ▸ hd)
          current := by
            rw [hsite, haddress]
            exact h.current }
      kind := hsame.kind
      isAsync := hsame.isAsync
      declaration := hsame.declaration
      breakables := hsame.breakables
      context := fun h => Bool.noConfusion h
      current := .same rfl hkind (by
        rw [haddress]
        exact .refl _ _ _ _ _)
      script := fun hs => absurd hs hscript
      adds := fun hexact => { Adds.refl _ _ _ with } }

/-- The return address is kept from here on. -/
theorem Advances.bindAddress {address : Slot} (h : Orderly W G s)
    (haddress : G.slot address = some .address) (hwrites : W.writes address)
    (hfed : W.fed = true) (hdepth : s.current.depth = 0)
    (hkind : s.current.info.kind ≠ .continuation) :
    Advances true W G s G { s.push [.set .always (.slot address) (.literal (.string "")),
      .set .always (.slot address) (.param "return")] with
        context.returnAddress := some address } := by
  have hcode : Prolongs G (s.site W) W.writes s.address? s.code
      (s.push [.set .always (.slot address) (.literal (.string "")),
        .set .always (.slot address) (.param "return")]).code (some address) :=
    ⟨_, s.code_push _, .address haddress hwrites hfed .nil⟩
  have hend : Compiler.address? { s.push [.set .always (.slot address) (.literal (.string "")),
      .set .always (.slot address) (.param "return")] with
        context.returnAddress := some address } = some address := by
    simp [Compiler.address?, Compiler.push, hdepth, hkind]
  exact
    { (Advances.refl h : Advances true W G s G s) with
      orderly :=
        { h with
          scopes := { h.scopes with }
          context := { h.context with
            returnAddress := fun _ ha => Option.some.inj ha ▸ haddress }
          current := by
            rw [hend]
            exact h.current.prolong hcode }
      context := fun h => Bool.noConfusion h
      current := .same rfl rfl (by
        rw [hend]
        exact hcode)
      adds := fun hexact => { Adds.refl _ _ _ with } }

/-- A unit that goes on keeps its kind. -/
theorem Advances.unitKind (h0 : Orderly W G s) (h : Advances opens W G s G' s')
    (hname : s'.current.name = s.current.name) :
    s'.current.info.kind = s.current.info.kind := by
  cases h.current with
  | same _ hkind _ => exact hkind
  | rest _ _ _ _ hnew _ =>
    obtain ⟨u, hu, _⟩ := h0.current.unit
    rw [hname] at hnew
    exact absurd (hnew.symm.trans hu) (by simp)

theorem Advances.address? (h0 : Orderly W G s) (h : Advances opens W G s G' s')
    (hname : s'.current.name = s.current.name)
    (hreturn : s'.context.returnAddress = s.context.returnAddress) :
    s'.address? = s.address? := by
  rw [Compiler.address?, Compiler.address?, h.isAsync, h.depth, h.unitKind h0 hname, hreturn]

end

namespace Compile

variable {k : Lowering} {W : Watch} {G : Uses} {s : Compiler}

theorem bindThis_name {kind : UnitKind} {a : Unit} (h : bindThis kind s = .ok a s') :
    s'.current.name = s.current.name := by
  unfold bindThis at h
  split at h
  · cases h
    rfl
  · cases h
    rfl

/-- The code of a function, once the address and the promise are bound. -/
structure InFunction (W : Watch) (s : Compiler) : Prop extends StmtOk W s where
  fed : W.fed = true
  function : s.context.kind ≠ .script

theorem InFunction.step {G' : Uses} (h : InFunction W s) (hstep : Advances false W G s G' s') :
    InFunction W s' :=
  ⟨h.toStmtOk.step hstep, h.fed, hstep.kind ▸ h.function⟩

theorem InFunction.inner (h : InFunction W s) : s.atTopLevel = false := by
  simp [Compiler.atTopLevel, h.function]

variable (hk : k.Leads) (h : Orderly W G s)
include h

theorem bindThis_leads {kind : UnitKind} (hfed : W.fed = true)
    (hscript : s.context.kind ≠ .script) :
    LeadsIn true W G s (bindThis kind) (fun _ _ _ => True) := by
  unfold bindThis
  split
  · exact .of_ok rfl (.rebind h h.context ⟨rfl, rfl, rfl, rfl, rfl, rfl⟩ rfl rfl hscript)
      (fun _ hn => hn) trivial
  · refine (paramSlot_leads h valueEntry_this hfed).opening.bind
      fun G1 that s1 h1 ⟨hthat, _⟩ => ?_
    have hcontext : ContextOrderly G1 { s1.context with that := some that } :=
      { h1.orderly.context with that := fun _ ha => Option.some.inj ha ▸ hthat.reads }
    refine LeadsIn.bind (Q := fun _ _ _ => True) (.of_ok rfl (.rebind h1.orderly hcontext
      ⟨rfl, rfl, rfl, rfl, rfl, rfl⟩ rfl rfl (h1.kind ▸ hscript)) (fun _ hn => hn) trivial)
      fun G2 _ s2 h2 _ => ?_
    refine (paramSlot_leads h2.orderly valueEntry_newTarget hfed).opening.bind
      fun G3 target s3 h3 ⟨htarget, _⟩ => ?_
    have hcontext3 : ContextOrderly G3 { s3.context with newTarget := some target } :=
      { h3.orderly.context with newTarget := fun _ ha => Option.some.inj ha ▸ htarget.reads }
    exact .of_ok rfl (.rebind (i := s3.current.info) h3.orderly hcontext3
      ⟨rfl, rfl, rfl, rfl, rfl, rfl⟩ rfl rfl (((h1.trans h2).trans h3).kind ▸ hscript))
      (fun _ hn => hn) trivial

theorem bindReturnAddress_leads (hfed : W.fed = true)
    (hdepth : s.current.depth = 0) (hkind : s.current.info.kind ≠ .continuation) :
    LeadsIn true W G s bindReturnAddress (fun _ _ s' => s'.current.name = s.current.name ∧
      s'.address? = s'.context.returnAddress) := by
  have h1 : Advances true W G s _ _ := .freshSlot .address h
  have h2 := h1.trans (.bindAddress h1.orderly (Uses.withSlot_self _ _)
    (h.freshSlot _ (Nat.le_refl _)).2 hfed hdepth hkind)
  refine .of_ok rfl h2 (fun _ hn => hn) ⟨rfl, ?_⟩
  simp [Compiler.address?, hdepth, hkind]

/-- The promise of the function is created and answered in the unit that the function starts
    with. -/
theorem beginAsync_leads (hname : s.current.name = W.root)
    (haddress : s.address? = s.context.returnAddress) (hscript : s.context.kind ≠ .script) :
    LeadsIn true W G s beginAsync (fun _ _ s' => s'.context.promise.isSome = true) := by
  have hallocate : Leads W G s (allocateInstance "Promise") (fun G' a s' =>
      (G'.slot a = some (.promise W.root) ∧ W.writes a) ∧ s'.current.name = s.current.name) :=
    LeadsIn.read rfl (allocate_target_leads (.promise W.root) h rfl
      (fun _ _ ha => .inr ⟨ha, hname⟩) fun _ => permits_key)
  refine hallocate.opening.bind fun G1 promise s1 h1 ⟨⟨⟨hpromise, _⟩, hname1⟩, hc1⟩ => ?_
  have hcontext : ContextOrderly G1 { s1.context with promise := some promise } :=
    { h1.orderly.context with
      promise := fun _ ha => Option.some.inj ha ▸ Uses.reads_of_slot hpromise rfl rfl }
  refine LeadsIn.bind (Q := fun G' _ s' => G' = G1 ∧
      s' = { s1 with context.promise := some promise })
    (.of_ok rfl (.rebind (i := s1.current.info) h1.orderly hcontext
      ⟨rfl, rfl, rfl, rfl, rfl, rfl⟩ rfl rfl (h1.kind ▸ hscript)) (fun _ hn => hn) ⟨rfl, rfl⟩)
    fun G2 _ s2 h2 ⟨hG2, hs2⟩ => ?_
  subst hG2 hs2
  refine (callLibrary_leads none h2.orderly nofun
    ⟨_, .value (Uses.reads_of_slot hpromise rfl rfl _) .nil, by decide⟩).opening.bind
    fun G3 _ s3 h3 ⟨⟨_, hname3⟩, hc3⟩ => LeadsIn.read rfl ?_
  have h13 := (h1.trans h2).trans h3
  have hname' : s3.current.name = s.current.name := hname3.trans hname1
  have hreturn : s3.context.returnAddress = s.context.returnAddress := by rw [hc3, ← hc1]
  have hsome : s3.context.promise.isSome = true := by
    rw [hc3]
    rfl
  split
  · next address haddress3 =>
    have hwritten : s3.address? = some address := by
      rw [h13.address? h hname' hreturn, haddress, ← hreturn, haddress3]
    have hpromise3 := h3.le.slot _ _ hpromise
    refine (answerSlot_leads h3.orderly (h3.orderly.context.returnAddress address haddress3)
      hwritten (Uses.reads_of_slot hpromise3 rfl rfl _)
      fun _ => ⟨hpromise3, hname'.trans hname⟩).opening.imp fun G4 _ s4 h4 ⟨_, hc4⟩ => ?_
    rw [hc4]
    exact hsome
  · exact .pure h3.orderly hsome

/-! ### Bodies -/

include hk

/-- Statements, one after the other. -/
theorem forM_stmt_leads {body : List Stmt} (hok : StmtOk W s)
    (hinner : s.atTopLevel = false) : GoesOn W G s (body.forM k.stmt) :=
  LeadsIn.forM (fun _ _ => True) h trivial fun stmt _ G1 s1 h1 _ =>
    hk.stmt W G1 s1 stmt h1.orderly (hok.step h1) (.inl (h1.atTopLevel.trans hinner))

theorem defaultCtor_leads (hfed : W.fed = true) :
    GoesOn W G s (defaultCtor k) := by
  refine LeadsIn.read rfl ?_
  split
  · exact .pure h trivial
  · next parent hparent =>
    refine (callParent_leads h (h.context.parentClass parent hparent _) ?_).bind
      fun G1 _ s1 h1 _ => LeadsIn.read rfl (setFields_leads hk h1.orderly)
    intro e he
    obtain ⟨i, _, rfl⟩ := List.mem_map.1 he
    exact ⟨valueEntry_argumentName i, valueEntry_argumentName i, hfed⟩

theorem functionBody_leads {body : FunctionBody}
    (hfn : InFunction W s) : GoesOn W G s (functionBody k body) := by
  cases body with
  | stmts body =>
    refine (hoistBody_leads h).bind fun G1 _ s1 h1 _ => ?_
    exact forM_stmt_leads hk h1.orderly (hfn.step h1).toStmtOk (hfn.step h1).inner
  | expr value =>
    refine (hk.expr W G s value h).bind fun G1 v s1 h1 hv => ?_
    exact emitReturn_leads h1.orderly (hfn.step h1).toInBody (hfn.step h1).function hv
  | defaultCtor => exact defaultCtor_leads hk h hfn.fed

/-- What follows when `this`, the return address and the promise are bound. -/
theorem functionRest_leads (hfn : InFunction W s) :
    GoesOn W G s (do
      bindParams k 0 spec.params
      if spec.kind = .ctor && (← get).context.parentClass.isNone then
        setFields k (← ownFields)
      functionBody k spec.body
      if spec.isAsync then resolveResult .undefined) := by
  have hend : ∀ G1 s1, Advances false W G s G1 s1 → GoesOn W G1 s1 (do
      functionBody k spec.body
      if spec.isAsync then resolveResult .undefined) := by
    intro G1 s1 h1
    refine (functionBody_leads hk h1.orderly (hfn.step h1)).bind fun G2 _ s2 h2 _ => ?_
    split
    · exact resolveResult_leads h2.orderly trivial
    · exact .pure h2.orderly trivial
  refine (bindParams_leads hk hfn.fed spec.params 0 h).bind fun G1 _ s1 h1 _ => LeadsIn.read rfl ?_
  refine LeadsIn.ite (fun _ => ?_) fun _ => hend G1 s1 h1
  exact LeadsIn.read rfl ((setFields_leads hk h1.orderly).bind
    fun G2 _ s2 h2 _ => hend G2 s2 (h1.trans h2))

end Compile

/-- The present unit is the empty body of a function. -/
structure StartsBody (W : Watch) (spec : FunctionSpec) (s : Compiler) : Prop where
  name : s.current.name = W.root
  fed : W.fed = true
  isAsync : s.context.isAsync = spec.isAsync
  breakables : s.context.breakables = 0
  depth : s.current.depth = 0
  kind : s.current.info.kind ≠ .continuation ∧ s.current.info.kind ≠ .expression
  function : s.context.kind ≠ .script

namespace Compile

variable {k : Lowering} {W : Watch} {G : Uses} {s : Compiler}

theorem functionUnit_leads (hk : k.Leads) (h : Orderly W G s) (hs : StartsBody W spec s) :
    LeadsIn true W G s (functionUnit k spec) (fun _ _ _ => True) := by
  have hrest : ∀ G1 s1, Advances true W G s G1 s1 → MayReturn s1 → LeadsIn true W G1 s1 (do
      bindParams k 0 spec.params
      if spec.kind = .ctor && (← get).context.parentClass.isNone then
        setFields k (← ownFields)
      functionBody k spec.body
      if spec.isAsync then resolveResult .undefined) (fun _ _ _ => True) := by
    intro G1 s1 h1 hreturns
    refine (functionRest_leads hk h1.orderly ⟨⟨⟨?_, hreturns⟩, ?_⟩, hs.fed, ?_⟩).opening.imp
      fun _ _ _ _ _ => trivial
    · cases h1.current with
      | same _ hkind _ =>
        rw [hkind]
        exact hs.kind.2
      | rest _ _ hkind _ _ _ =>
        rw [hkind]
        decide
    · simp [h1.breakables, hs.breakables]
    · rw [h1.kind]
      exact hs.function
  refine ((bindThis_leads h hs.fed hs.function).noting fun _ _ hrun => bindThis_name hrun).bind
    fun G1 _ s1 h1 ⟨_, hname1⟩ => ?_
  refine LeadsIn.bind (Q := fun _ _ s' => s'.current.name = s1.current.name)
    (.of_ok rfl (.rebind h1.orderly h1.orderly.context ⟨rfl, rfl, rfl, rfl, rfl, rfl⟩ rfl rfl
      (h1.kind ▸ hs.function)) (fun _ hn => hn) rfl) fun G2 _ s2 h2 hname2 => ?_
  have h12 := h1.trans h2
  have hkind2 : s2.current.info.kind ≠ .continuation := by
    rw [h12.unitKind h (hname2.trans hname1)]
    exact hs.kind.1
  refine (bindReturnAddress_leads h2.orderly hs.fed (h12.depth.trans hs.depth) hkind2).bind
    fun G3 _ s3 h3 ⟨hname3, haddress⟩ => ?_
  have h13 := h12.trans h3
  refine LeadsIn.ite (fun _ => ?_) fun hsync => hrest G3 s3 h13 fun hyes => ?_
  · exact (beginAsync_leads h3.orderly (hname3.trans (hname2.trans (hname1.trans hs.name)))
      haddress (h13.kind ▸ hs.function)).bind fun G4 _ s4 h4 hpromise =>
        hrest G4 s4 (h13.trans h4) fun _ => hpromise
  · rw [h13.isAsync, hs.isAsync] at hyes
    exact absurd hyes hsync

end Compile

/-! ### Functions -/

/-- A function that can be compiled. The slots of its class belong to no loop. -/
structure FunctionSpec.Ok (G : Uses) (spec : FunctionSpec) : Prop where
  kind : spec.kind ∈ [UnitKind.function, .arrow, .method, .ctor]
  parent : ∀ c a, spec.cls = some c → c.parent = some a → ∀ depth, G.Reads depth a
  parentProto : ∀ c a, spec.cls = some c → c.parentProto = some a → ∀ depth, G.Reads depth a

section

variable {W : Watch} {G G' : Uses} {s : Compiler} {spec : FunctionSpec} {unit : String}
  {c : FunctionContext}

theorem FunctionSpec.Ok.mono (h : spec.Ok G) (hle : G ≤ G') : spec.Ok G' :=
  ⟨h.kind, fun c a hc ha depth => (h.parent c a hc ha depth).mono hle,
    fun c a hc ha depth => (h.parentProto c a hc ha depth).mono hle⟩

theorem FunctionSpec.ok_of_none (hkind : spec.kind ∈ [UnitKind.function, .arrow, .method, .ctor])
    (h : spec.cls = none) : spec.Ok G :=
  ⟨hkind, fun c a hc => by simp [h] at hc, fun c a hc => by simp [h] at hc⟩

/-- The body of a function is no part of another unit. -/
theorem FunctionSpec.Ok.body (h : spec.Ok G) :
    spec.kind.isPart = false ∧ spec.kind ≠ .script ∧ spec.kind ≠ .continuation ∧
      spec.kind ≠ .expression := by
  have hkind := h.kind
  simp only [List.mem_cons, List.not_mem_nil, or_false] at hkind
  rcases hkind with hkind | hkind | hkind | hkind <;> rw [hkind] <;> decide

/-- The state after a function was opened. -/
def Compiler.openFunction (s : Compiler) (spec : FunctionSpec) (unit : String)
    (context : FunctionContext) : Compiler :=
  { s with
    scopes := s.scopes.create.2
    current :=
      { Draft.start unit spec.kind 0 (s.current.scopes ++ [s.scopes.create.1]) with
        info.isAsync := spec.isAsync }
    parents := s.current :: s.parents
    context := context
    outer := s.context :: s.outer }

/-- Code of the body of a function. -/
def Watch.body (W : Watch) (s : Compiler) (unit : String) : Watch :=
  { root := unit, home := none, breakable := false, fed := true, depth := W.depth + 1
    toTerms := W.toTerms.reserving s.current.name
    writes := W.writes
    base := s.current.scopes.length }

/-- The context that a function starts with. -/
structure StartsFunction (G : Uses) (s : Compiler) (spec : FunctionSpec)
    (c : FunctionContext) : Prop where
  orderly : ContextOrderly G c
  kind : c.kind = spec.kind
  isAsync : c.isAsync = spec.isAsync
  returnAddress : c.returnAddress = none
  breakables : c.breakables = 0
  declaration : c.declaration = spec.unit.bind s.declarationOf

theorem contextOf_run (h : ContextOrderly G s.context) (hspec : spec.Ok G) :
    ∃ c, Compile.contextOf spec s = .ok c s ∧ StartsFunction G s spec c := by
  refine ⟨_, rfl, ?_, rfl, rfl, rfl, rfl, rfl⟩
  refine ⟨fun a ha => ?_, fun a ha => ?_, nofun, fun a ha => ?_, fun a ha => ?_, nofun,
    fun hkind => absurd hkind hspec.body.2.1⟩
  · dsimp only at ha
    split at ha
    · exact h.that a ha
    · cases ha
  · dsimp only at ha
    split at ha
    · exact h.newTarget a ha
    · cases ha
  · dsimp only at ha
    split at ha
    · exact h.parentClass a ha
    · obtain ⟨c, hc, ha⟩ := Option.bind_eq_some_iff.1 ha
      exact hspec.parent c a hc ha
  · dsimp only at ha
    split at ha
    · exact h.parentProto a ha
    · obtain ⟨c, hc, ha⟩ := Option.bind_eq_some_iff.1 ha
      exact hspec.parentProto c a hc ha

theorem has_of_declarationOf {d : String} (h : s.declarationOf unit = some d) :
    s.functions.has d = true := by
  obtain ⟨e, he, rfl⟩ := Option.map_eq_some_iff.1 h
  exact Table.has_of_mem (List.mem_of_find?_eq_some he)

theorem Compiler.chain_openFunction (s : Compiler) (spec : FunctionSpec) (unit : String)
    (c : FunctionContext) (W : Watch) :
    (s.openFunction spec unit c).current.scopes.drop (W.body s unit).base =
      [s.scopes.create.1] :=
  List.drop_left

theorem ScopesOrderly.openFunction (h : ScopesOrderly W G s) :
    ScopesOrderly (W.body s unit) G (s.openFunction spec unit c) := by
  have hdrop := s.chain_openFunction spec unit c W
  refine
    { chain := ?_
      base := ?_
      valid := fun scope hscope => ?_
      sees := fun scope hscope name b hb => ?_
      loops := fun hlast => ?_
      globals := fun name b hb => h.globals name b ((s.scopes.own?_create _ _).symm.trans hb)
      bindings := fun t ht e he => { bindings_create h t ht e he with }
      noted := h.noted }
  · obtain ⟨rest, hrest⟩ := List.head?_eq_some_iff.1 h.chain
    simp [Compiler.openFunction, Draft.start, hrest]
  · simp [Compiler.openFunction, Draft.start, Watch.body]
  · rw [hdrop, List.mem_singleton] at hscope
    subst hscope
    refine ⟨?_, fun heq => absurd heq h.create_ne⟩
    simp [Compiler.openFunction, Scopes.create]
  · rw [hdrop, List.mem_singleton] at hscope
    subst hscope
    have hold : s.scopes.own? s.scopes.create.1 name = some b :=
      (s.scopes.own?_create _ _).symm.trans hb
    simp [Scopes.own?, Scopes.get?, Scopes.create] at hold
  · have hlast' : (s.current.scopes ++ [s.scopes.create.1]).getLast? = some globalScope := hlast
    rw [List.getLast?_concat] at hlast'
    exact absurd (Option.some.inj hlast') h.create_ne

/-- The unit is the body of a function, with the owner that a function in it has. -/
structure BodyOf (G : Uses) (unit : String) (kind : UnitKind) (depth : Nat)
    (owner : Option String) : Prop where
  use : ∃ owner, G.unit unit = some (.body kind depth unit owner)
  owned : G.Owned unit owner

theorem BodyOf.mono {kind : UnitKind} {depth : Nat} {owner : Option String}
    (h : BodyOf G unit kind depth owner) (hle : G ≤ G') : BodyOf G' unit kind depth owner := by
  obtain ⟨⟨owner, hu⟩, howned⟩ := h
  exact ⟨⟨owner, hle.unit _ _ hu⟩, howned.mono hle⟩

variable (h : Orderly W G s)
include h

theorem openFunction_orderly (hspec : spec.Ok G) (hc : StartsFunction G s spec c)
    (hbody : BodyOf G unit spec.kind (W.depth + 1) c.declaration) :
    Orderly (W.body s unit) G (s.openFunction spec unit c) :=
  { h with
    scopes := h.scopes.openFunction
    declared := h.declared_create
    context := hc.orderly
    isAsync := hc.isAsync.symm
    depth := congrArg (· + 1) h.depth
    script := by
      show W.depth + 1 = 0 ↔ c.kind = .script
      simp [hc.kind, hspec.body.2.1]
    part := by simp [Compiler.openFunction, Draft.start, hspec.body.1]
    declaration := fun d hd => by
      obtain ⟨n, _, hn⟩ := Option.bind_eq_some_iff.1 (hc.declaration.symm.trans hd)
      exact has_of_declarationOf hn
    current := by
      obtain ⟨owner, huse⟩ := hbody.use
      refine ⟨⟨_, huse, rfl, rfl⟩, hbody.owned, fun _ => ⟨rfl, rfl, ?_, fun _ => rfl⟩, ?_⟩
      · show W.depth + 1 = 0 ↔ spec.kind = .script
        simp [hspec.body.2.1]
      · have haddress : (s.openFunction spec unit c).address? = none := by
          simp [Compiler.address?, Compiler.openFunction, hc.returnAddress]
        exact haddress ▸ .nil }

theorem openFunction_opens {use : UnitUse} (hspec : spec.Ok G) (hc : StartsFunction G s spec c)
    (hbody : BodyOf G unit spec.kind (W.depth + 1) c.declaration)
    (hunit : Pending W.toTerms G s unit use) (hreserved : W.exact → ¬ W.reserved unit)
    (hkeep : W.exact → ∀ d, c.declaration = some d → W.keep d = false) :
    Opens W G s (W.body s unit) G (s.openFunction spec unit c) where
  outside := h
  inside := openFunction_orderly h hspec hc hbody
  writes := rfl
  terms := rfl
  le := G.le_refl
  ns := rfl
  names := .refl _
  parents := rfl
  functions := rfl
  code := rfl
  units := rfl
  calls := rfl
  scopes b hb := by
    rw [s.chain_openFunction spec unit c W] at hb
    exact .of_create (hb.mono (List.subset_append_right _ _))
  hoisted := rfl
  innermost _ hold _ := Compile.openScope_innermost hold
  sees G2 s2 h2 hle _ hgrows scope hscope name b hb := by
    obtain ⟨hlt, _⟩ := h.scopes.valid scope hscope
    by_cases hglobal : scope = globalScope
    · -- a global name is not one of a loop
      subst hglobal
      obtain ⟨table, htable, hmem⟩ := Scopes.mem_of_own? hb
      refine (h2.bindings table htable _ hmem).sees fun depth hdepth => ?_
      simp [h2.globals name b hb] at hdepth
    · -- the function leaves the scopes around it as they are
      rw [s.chain_openFunction spec unit c W] at hgrows
      have hlength : scope < (s.openFunction spec unit c).scopes.list.length := by
        simpa [Compiler.openFunction, Scopes.create] using Nat.lt_succ_of_lt hlt
      have hout : scope ∉ [s.scopes.create.1] := by
        simpa [Scopes.create] using Nat.ne_of_lt hlt
      rw [hgrows.own?_eq hlength hout hglobal] at hb
      have hold : s.scopes.own? scope name = some b := (s.scopes.own?_create _ _).symm.trans hb
      exact (h.scopes.sees scope hscope name b hold).mono hle
  uses _ _ hu := .inr hu
  name := hunit.ne
  kind := hspec.body.2.1
  tracked := id
  free := hunit.free
  reserved hexact _ _ := hreserved hexact
  keep hexact _ := hkeep hexact

/-- A unit that is used in another way is no top-level function. -/
theorem Orderly.declarationOf_eq_none {use : UnitUse}
    (hunit : G.unit unit = some use) (huse : use ≠ .declared unit) :
    s.declarationOf unit = none := by
  rw [Compiler.declarationOf, Option.map_eq_none_iff, List.find?_eq_none]
  intro e he heq
  have hname : e.2.unit = unit := by simpa using heq
  obtain ⟨_, hdeclared, _⟩ := h.functions e he
  rw [hname] at hdeclared
  exact huse (Option.some.inj (hunit.symm.trans hdeclared))

/-- The unit of a top-level function is the body of one. -/
theorem Orderly.bodyOf_declarationOf {e : String × Signature} (he : e ∈ s.functions) :
    BodyOf G e.2.unit .function 1 (s.declarationOf e.2.unit) := by
  obtain ⟨_, huse, _⟩ := h.functions e he
  refine ⟨⟨_, huse⟩, _, huse, .inr ⟨rfl, ?_⟩⟩
  cases hfind : List.find? (fun d : String × Signature => d.2.unit == e.2.unit) s.functions with
  | none => exact absurd (List.find?_eq_none.1 hfind e he) (by simp)
  | some d =>
    obtain ⟨hfunction, _⟩ := h.functions d (List.mem_of_find?_eq_some hfind)
    have hunit := List.find?_some hfind
    exact ⟨d.1, d.2, congrArg (Option.map Prod.fst) hfind, hfunction, by simpa using hunit⟩

end

namespace Compile

variable {k : Lowering} {W : Watch} {G : Uses} {s : Compiler}

theorem leaveFunction_run {s2 : Compiler} (hparents : s2.parents = s.current :: s.parents)
    (houter : s2.outer = s.context :: s.outer) : leaveFunction s2 = .ok () (s2.closeIn s) := by
  refine (bind_of_ok rfl).trans ?_
  rw [houter]
  refine (bind_of_ok rfl).trans (bind_of_ok (closeUnit_run ?_))
  exact hparents

/-- Compiles a function whose unit is named, and answers its slot compound. -/
def functionFrom (k : Lowering) (spec : FunctionSpec) (unit key : String) : Compile Nbt := do
  let literal ← functionLiteral key unit
  let scope ← createScope
  let d := Draft.start unit spec.kind 0 ((← get).current.scopes ++ [scope])
  enterFunction { d with info.isAsync := spec.isAsync } (← contextOf spec)
  ensuring (functionUnit k spec) leaveFunction
  return literal

variable (hk : k.Leads) (h : Orderly W G s)
include h

/-- The record of a function, given or fresh. -/
theorem functionRecord_or_leads {kind : UnitKind} {record : Option Record}
    (hrecord : ∀ r, record = some r → r.index < G.records) :
    Leads W G s (match record with
      | some record => pure record
      | none => functionRecord kind) (fun G' r _ => r.index < G'.records) := by
  cases record with
  | some r => exact .pure h (hrecord r rfl)
  | none => exact functionRecord_leads h

include hk

theorem compileFunction_leads {record : Record} {use : UnitUse} (hspec : spec.Ok G)
    (hrecord : record.index < G.records)
    (hbody : BodyOf G unit spec.kind (W.depth + 1) (spec.unit.bind s.declarationOf))
    (hunit : Pending W.toTerms G s unit use) (hreserved : W.exact → ¬ W.reserved unit)
    (hkeep : W.exact → ∀ d, spec.unit.bind s.declarationOf = some d → W.keep d = false) :
    Leads W G s (functionFrom k spec unit record.key)
      (fun G' v s' => v.Proper G'.IsRecord (G'.MadeAt W.depth) ∧ s'.units.has unit = true) := by
  obtain ⟨c, hcontext, hc⟩ :=
    contextOf_run (s := { s with scopes := s.scopes.create.2 }) h.context hspec
  have hstart : StartsFunction G s spec c := { hc with }
  have hopens := openFunction_opens h hspec hstart (hstart.declaration ▸ hbody) hunit hreserved
    fun hexact d hd => hkeep hexact d (hstart.declaration ▸ hd)
  have hfilled : LeadsIn true (W.body s unit) G (s.openFunction spec unit c)
      (functionUnit k spec) (fun _ _ _ => True) :=
    functionUnit_leads hk hopens.inside ⟨rfl, rfl, hc.isAsync, hc.breakables, rfl,
      ⟨hspec.body.2.2.1, hspec.body.2.2.2⟩, hc.kind ▸ hspec.body.2.1⟩
  have hbracket := Opens.bracket leaveFunction (fun _ => ())
    (R := fun _ _ s' => s'.units.has unit = true) hopens hfilled
    (fun G2 s2 h2 => leaveFunction_run (h2.parents.trans hopens.parents) h2.outer)
    fun G2 _ s2 h2 _ => by
      -- the unit is closed at the end, or an `await` has closed it before
      show (s2.units.put s2.current.name s2.current.finish).has unit = true
      rw [Table.has_put]
      cases h2.current with
      | same hname _ _ => simp [hname, Compiler.openFunction, Draft.start]
      | rest _ _ _ hhas _ _ =>
        have : s2.units.has unit = true := hhas
        simp [this]
  refine Ends.ok rfl (Ends.ok rfl (Ends.ok rfl (Ends.ok hcontext (Ends.ok rfl ?_))))
  refine Ends.map (Ends.map hbracket fun _ _ _ _ h => h) fun G' _ s' h' hhas => ⟨?_, hhas⟩
  obtain ⟨owner, huse⟩ := hbody.use
  refine Nbt.proper_function ⟨record, Nat.lt_of_lt_of_le hrecord h'.le.records, rfl⟩ ?_
  refine Uses.MadeAt.mono ⟨unit, _, by rw [h.ns], huse, ?_, (if_neg hspec.body.2.2.1).symm⟩ h'.le
  exact UnitUse.isBody_body _ _ hspec.body.1 hspec.body.2.1 (Nat.succ_ne_zero _)

/-- Compiles a function whose unit got its name before. -/
theorem createFunction_leads {use : UnitUse} (hsome : spec.unit = some unit)
    (hspec : spec.Ok G) (hrecord : ∀ r, spec.record = some r → r.index < G.records)
    (hbody : BodyOf G unit spec.kind (W.depth + 1) (s.declarationOf unit))
    (hunit : Pending W.toTerms G s unit use) (hreserved : W.exact → ¬ W.reserved unit)
    (hkeep : W.exact → ∀ d, s.declarationOf unit = some d → W.keep d = false) :
    Leads W G s (createFunction k spec)
      (fun G' v s' => v.Proper G'.IsRecord (G'.MadeAt W.depth) ∧ s'.units.has unit = true) := by
  unfold createFunction
  refine LeadsIn.ite (fun _ => .throw h) fun _ => LeadsIn.ite (fun _ => .throw h) fun _ => ?_
  rw [hsome]
  refine LeadsIn.read rfl ?_
  refine ((functionRecord_or_leads (h.withTerms _) hrecord).pending hunit).bind
    fun G1 record s1 h1 ⟨hrecord1, hunit1⟩ => ?_
  have hdeclaration : spec.unit.bind s1.declarationOf = s.declarationOf unit := by
    rw [hsome]
    show s1.declarationOf unit = _
    rw [Compiler.declarationOf, Compiler.declarationOf, h1.functions]
  exact compileFunction_leads hk h1.orderly (hspec.mono h1.le) hrecord1
    (hdeclaration ▸ hbody.mono h1.le) hunit1 hreserved
    fun hexact d hd => hkeep hexact d (hdeclaration ▸ hd)

/-- Compiles a function whose unit is named here. -/
theorem createFunction_fresh_leads (hnone : spec.unit = none) (hspec : spec.Ok G)
    (hrecord : ∀ r, spec.record = some r → r.index < G.records) :
    Leads W G s (createFunction k spec)
      (fun G' v _ => v.Proper G'.IsRecord (G'.MadeAt W.depth)) := by
  have hnew : G.unit (generatedUnit s.names.units) = none := h.freshUnit _ (Nat.le_refl _)
  let use : UnitUse :=
    .body spec.kind (W.depth + 1) (generatedUnit s.names.units) (some none)
  -- the fresh unit is not reserved, which nobody can ask for
  refine LeadsIn.weaken
    (W := { W with toTerms := W.toTerms.without (generatedUnit s.names.units) })
    (Q := fun G' v _ => v.Proper G'.IsRecord (G'.MadeAt W.depth)) ?_
    (fun _ _ h => h.of_without hnew) fun _ _ _ _ h => h
  have h0 := h.withTerms (W.toTerms.without (generatedUnit s.names.units))
  have h1 : Advances false { W with toTerms := W.toTerms.without (generatedUnit s.names.units) }
    G s _ _ := .freshUnit use h0
  have huse := Uses.withUnit_self (G := G) (generatedUnit s.names.units) use
  have hunit : Pending (W.toTerms.without (generatedUnit s.names.units))
      (G.withUnit (generatedUnit s.names.units) use)
      { s with names.units := s.names.units + 1 } (generatedUnit s.names.units) use :=
    ⟨huse, h.freshUnit_ne, fun _ => h.has_eq_false hnew⟩
  unfold createFunction
  refine LeadsIn.ite (fun _ => .throw h0) fun _ => LeadsIn.ite (fun _ => .throw h0) fun _ => ?_
  rw [hnone]
  refine Ends.ok rfl ?_
  refine ((functionRecord_or_leads (h1.orderly.withTerms _) hrecord).pending hunit).bind_after h1
    fun G2 record s2 h2 hsettles2 ⟨hrecord2, hunit2⟩ => ?_
  have hbody : BodyOf G2 (generatedUnit s.names.units) spec.kind (W.depth + 1)
      (spec.unit.bind s2.declarationOf) := by
    rw [hnone]
    exact BodyOf.mono ⟨⟨_, huse⟩, _, huse, .inl rfl⟩ h2.le
  refine (compileFunction_leads hk h2.orderly (hspec.mono (h1.trans h2).le) hrecord2 hbody hunit2
    (fun _ h => h.2 rfl) fun _ d hd => ?_).after (h1.trans h2)
    fun G3 v s3 h3 hsettles3 ⟨hv, hhas⟩ => ⟨(hsettles2.trans hsettles3).of_withUnit _ hhas, hv⟩
  simp [hnone] at hd

theorem functionSlot_leads (hunit : spec.unit = none) (hrecord : spec.record = none)
    (hspec : spec.Ok G) :
    Leads W G s (functionSlot k spec) (fun G' a _ => W.Result G' a) :=
  (createFunction_fresh_leads hk h hunit hspec fun r hr => by simp [hrecord] at hr).bind
    fun _ _ _ h1 hliteral => literalSlot_leads h1.orderly hliteral

/-! ### Function expressions and declarations -/

theorem lowerFunction_leads :
    Leads W G s (lowerFunction k fn) (fun G' v _ => v.Readable W G') := by
  have hok : ∀ G', (fn.spec .function none none fn.span).Ok G' :=
    fun _ => FunctionSpec.ok_of_none (by simp [Function.spec]) rfl
  unfold lowerFunction
  dsimp only
  split
  · exact (functionSlot_leads hk h rfl rfl (hok G)).bind
      fun G1 a s1 h1 ha => .pure h1.orderly (ha.reads _)
  · refine inScope_leads h ?_
    refine (declare_variable_leads (openScope_orderly h)).bind
      fun G1 binding s1 h1 hbinding => ?_
    refine (functionSlot_leads hk h1.orderly rfl rfl (hok G1)).bind fun G2 a s2 h2 ha => ?_
    refine (assign_leads (v := .slot a) h2.orderly (hbinding.mono h2.le).takes (ha.reads _)).bind
      fun G3 _ s3 h3 _ => ?_
    exact .pure h3.orderly ((ha.mono h3.le).reads _)

theorem lowerArrow_leads {params : List Param} {body : ArrowBody} {isAsync : Bool} {span : Span} :
    Leads W G s (lowerArrow k params body isAsync span) (fun G' v _ => v.Readable W G') :=
  (functionSlot_leads hk h rfl rfl (FunctionSpec.ok_of_none (by simp) rfl)).bind
    fun _ _ _ h1 ha => .pure h1.orderly (ha.reads _)

/-- The declaration of a function inside of something. -/
theorem declareInner_leads {id : Ident} (hinner : s.atTopLevel = false) :
    GoesOn W G s (declareFunction k id fn) := by
  refine LeadsIn.read rfl ?_
  rw [hinner]
  refine (declare_variable_leads h).bind fun G1 binding s1 h1 hbinding => ?_
  refine LeadsIn.read rfl ?_
  have hok : (fn.spec .function none none fn.span).Ok G1 :=
    FunctionSpec.ok_of_none (by simp [Function.spec]) rfl
  refine (createFunction_fresh_leads hk h1.orderly rfl hok nofun).bind
    fun G2 literal s2 h2 hliteral => ?_
  exact (set_slot_leads h2.orderly (hbinding.mono h2.le).takes
    (Uses.offers_literal hliteral)).imp fun _ _ _ _ _ => trivial

end Compile

end PackScript
