import PackScript.Compile.Script
import PackScript.Proofs.Uses.Statement

namespace PackScript

/-!
# Top-level statements

Between top-level statements no unit but the entry is under construction. A statement builds on
that state, and one that fails is taken back.

* `AtTop` — the shape of the state between top-level statements.
* `Extends` — what a top-level statement does to it, also one that fails. The functions may grow
  here, which they do nowhere else.
* `statement_extends` — all top-level statements, from `lowering_leads` and, for the declaration of
  a function, `declareFunction_extends`.
* `hoistBody_ok` — at the top level, binding names ahead of their declarations cannot fail.
-/

variable {s : Compiler} {fn : Function} {id : Ident} {G : Uses}

/-! ### Between statements -/

/-- Only the entry is under construction, and no function is. -/
structure AtTop (G : Uses) (s : Compiler) : Prop where
  orderly : ∀ t, Orderly (.top t) G s
  context : s.context = .script
  parents : s.parents = []
  outer : s.outer = []
  name : s.current.name = entryUnit
  kind : s.current.info.kind = .script
  chain : s.current.scopes = [globalScope]
  acyclic : NoCircle s.calls

/-- Every top-level function has its unit. -/
def Declared (s : Compiler) : Prop :=
  ∀ e ∈ s.functions, s.units.has e.2.unit = true

/-- No unit is missing that code refers to. -/
def Settled (G : Uses) (s : Compiler) : Prop :=
  ∀ n, ¬ Debt G s n

/-- The statement declares a function whose unit has the name of one that is there. -/
def Compiler.clashes (s : Compiler) : Stmt → Bool
  | .function id _ => s.units.has (unitNameOf id.name) && !s.functions.has id.name
  | _ => false

/-- The terms for a top-level statement: the calls of the functions that are there are kept. -/
def Compiler.terms (s : Compiler) (exact : Prop) : Terms :=
  ⟨exact, s.functions.has, fun _ => False⟩

namespace AtTop

variable {G : Uses} {s : Compiler}

theorem entry_free (h : AtTop G s) : s.units.has s.current.name = false := by
  have horderly := h.orderly (s.terms True)
  rw [← Table.find?_eq_none_iff]
  cases hfind : s.units.find? s.current.name with
  | none => rfl
  | some u =>
    have hmem := Table.mem_of_find? hfind
    obtain ⟨site, _, hname, _, hkind, hcode⟩ := horderly.units _ hmem
    obtain ⟨use, huse, _, hkind1⟩ := hcode.unit
    obtain ⟨use0, huse0, _, hkind0⟩ := horderly.current.unit
    rw [hname] at huse
    obtain rfl : use = use0 := Option.some.inj (huse.symm.trans huse0)
    have hscript : u.info.kind = .script :=
      (hkind1.trans hkind).symm.trans (hkind0.trans h.kind)
    exact absurd hscript (horderly.inner _ hmem)

theorem stmtOk (h : AtTop G s) (t : Terms) : StmtOk (.top t) s := by
  refine ⟨⟨?_, ?_⟩, ?_⟩
  · rw [h.kind]
    decide
  · unfold MayReturn
    rw [h.context]
    exact fun hasync => (nomatch hasync)
  · rw [h.context]
    exact fun hpos => absurd hpos (Nat.lt_irrefl 0)

theorem atTopLevel (h : AtTop G s) : s.atTopLevel = true := by
  simp [Compiler.atTopLevel, h.context, h.parents, h.chain, FunctionContext.script]

theorem global (h : AtTop G s) : globalScope < s.scopes.list.length :=
  ((h.orderly (s.terms True)).scopes.valid globalScope (by simp [h.chain, Watch.top])).1

end AtTop

/-! ### What a statement does -/

/-- What a top-level statement does to the state, also one that fails. -/
structure Extends (t : Terms) (G : Uses) (s : Compiler) (G' : Uses) (s' : Compiler) : Prop where
  le : G ≤ G'
  orderly : Orderly (.top t) G' s'
  ns : s'.ns = s.ns
  names : s.names.Le s'.names
  parents : s'.parents = s.parents
  outer : s'.outer = s.outer
  context : s'.context = s.context
  name : s'.current.name = s.current.name
  info : s'.current.info = s.current.info
  depth : s'.current.depth = s.current.depth
  chain : s'.current.scopes = s.current.scopes
  instrs : s.current.instrs.toList <+: s'.current.instrs.toList
  scopes : s.scopes.Grows s.current.scopes s'.scopes
  functions : s.functions <+: s'.functions
  unitNames : s.units.names <+: s'.units.names
  units : t.exact → s.units <+: s'.units
  calls : t.exact →
    List.filter (fun e => t.keep e.1) s'.calls = List.filter (fun e => t.keep e.1) s.calls
  grows : Relation.ReflTransGen AddsCall s.calls s'.calls
  tracked : Tracked G s.functions s.calls → Tracked G' s'.functions s'.calls

section

variable {t : Terms} {G G' G'' : Uses} {s s' s'' : Compiler}

theorem Extends.trans (h : Extends t G s G' s') (h' : Extends t G' s' G'' s'') :
    Extends t G s G'' s'' where
  le := Uses.le_trans h.le h'.le
  orderly := h'.orderly
  ns := h'.ns.trans h.ns
  names := h.names.trans h'.names
  parents := h'.parents.trans h.parents
  outer := h'.outer.trans h.outer
  context := h'.context.trans h.context
  name := h'.name.trans h.name
  info := h'.info.trans h.info
  depth := h'.depth.trans h.depth
  chain := h'.chain.trans h.chain
  instrs := h.instrs.trans h'.instrs
  scopes := h.scopes.trans (h.chain ▸ h'.scopes)
  functions := h.functions.trans h'.functions
  unitNames := h.unitNames.trans h'.unitNames
  units hexact := (h.units hexact).trans (h'.units hexact)
  calls hexact := (h'.calls hexact).trans (h.calls hexact)
  grows := h.grows.trans h'.grows
  tracked := h'.tracked ∘ h.tracked

theorem Extends.atTop (h : Extends t G s G' s') (hs : AtTop G s) : AtTop G' s' where
  orderly := h.orderly.withTerms
  context := h.context.trans hs.context
  parents := h.parents.trans hs.parents
  outer := h.outer.trans hs.outer
  name := h.name.trans hs.name
  kind := (congrArg UnitInfo.kind h.info).trans hs.kind
  chain := h.chain.trans hs.chain
  acyclic := hs.acyclic.grows h.grows

/-- A step of the compiler outside of all functions. -/
theorem AtTop.extends (hs : AtTop G s) (h : Advances false (.top t) G s G' s') :
    Extends t G s G' s' := by
  have hscript : s.context.kind = .script := by
    rw [hs.context]
    rfl
  have hcurrent : s'.current.name = s.current.name ∧
      s.current.instrs.toList <+: s'.current.instrs.toList := by
    cases h.current with
    | same hname _ hcode =>
      obtain ⟨is, hnew, _⟩ := hcode
      exact ⟨hname, is, hnew.symm⟩
    | rest hasync _ _ _ _ _ =>
      rw [hs.context] at hasync
      cases hasync
  exact
    { h with
      context := h.context rfl
      name := hcurrent.1
      info := h.script hscript
      instrs := hcurrent.2
      functions := h.functions ▸ List.prefix_rfl
      units := fun hexact => ((h.adds hexact).free hs.entry_free).1
      calls := fun hexact => (h.adds hexact).calls fun d hd => by
        rw [hs.context] at hd
        cases hd }

end

/-! ### Top-level functions -/

/-- What a top-level statement does: it extends the state, and if it succeeds, no unit is left
    behind and every new function has its unit. -/
def Compile.ExtendsBy (t : Terms) (G : Uses) (s : Compiler) (c : Compile Unit) : Prop :=
  match c s with
  | .ok _ s' => ∃ G', Extends t G s G' s' ∧ Settles G s G' s' ∧
      ∀ e ∈ s'.functions, e ∈ s.functions ∨ s'.units.has e.2.unit = true
  | .error _ s' => ∃ G', Extends t G s G' s'

/-- The uses with one more top-level function, whose unit has its use. -/
def Uses.withFunction (G : Uses) (name : String) (f : Signature) : Uses :=
  { G with function := fun g sig => G.function g sig ∨ g = name ∧ sig = f }

theorem Uses.le_withFunction (G : Uses) (name : String) (f : Signature) :
    G ≤ G.withFunction name f :=
  { G.le_refl with function := fun _ _ h => .inl h }

section

variable {t : Terms} {W : Watch} {G : Uses} {s : Compiler} {name : String} {f : Signature}

/-- The unit of a top-level function has a use before the function is known. -/
theorem Advances.announce (h : Orderly W G s) (name : String) :
    Advances false W G s (G.withUnit (unitNameOf name) (.declared (unitNameOf name))) s := by
  have hle : G ≤ G.withUnit (unitNameOf name) (.declared (unitNameOf name)) := by
    refine { G.le_refl with unit := fun n u hn => ?_ }
    by_cases heq : n = unitNameOf name
    · -- two names may lead to one unit, which then has the same use
      rw [heq] at hn ⊢
      rw [h.declaredUnit name u hn]
      exact Uses.withUnit_self _ _
    · simpa [Uses.withUnit, heq] using hn
  refine .withNames h hle (h.withNames hle s.names ⟨Nat.le_refl _, fun n hn => (h.freshSlot n hn).1⟩
    h.freshChannel (fun n hn => ?_) h.records fun n u hu => ?_) (.refl _) rfl rfl
  · have hne : generatedUnit n ≠ unitNameOf name := (unitNameOf_ne_generatedUnit name n).symm
    simpa [Uses.withUnit, hne] using h.freshUnit n hn
  · by_cases heq : unitNameOf n = unitNameOf name
    · rw [heq] at hu ⊢
      exact Option.some.inj (hu.symm.trans (Uses.withUnit_self _ _))
    · exact h.declaredUnit n u (by simpa [Uses.withUnit, heq] using hu)

/-- A function is known from here on. -/
theorem register_extends (hs : AtTop G s) (hunit : f.unit = unitNameOf name)
    (huse : G.unit f.unit = some (.declared f.unit)) (hnew : s.functions.has name = false)
    (hbinds : Compile.Binds s globalScope name f.binding) :
    Extends t G s (G.withFunction name f) { s with functions := s.functions.put name f } := by
  have hle := G.le_withFunction name f
  have hpre : s.functions <+: s.functions.put name f := Table.prefix_put _ hnew
  have h := hs.orderly t
  have hnamed : Orderly (.top t) (G.withFunction name f) s :=
    h.withNames hle s.names ⟨Nat.le_refl _, fun n hn => (h.freshSlot n hn).1⟩ h.freshChannel
      h.freshUnit h.records h.declaredUnit
  exact
    { AtTop.extends hs (.refl h) with
      le := hle
      orderly :=
        { hnamed with
          scopes := { hnamed.scopes with }
          functions := fun e he => by
            rcases Table.mem_put he with rfl | he
            · exact ⟨.inr ⟨rfl, rfl⟩, huse, hunit⟩
            · exact hnamed.functions e he
          declared := fun e he => by
            rcases Table.mem_put he with rfl | he
            · exact hbinds
            · exact h.declared e he
          declaration := fun d hd => Table.has_of_prefix hpre (h.declaration d hd)
          callers := fun e he => Table.has_of_prefix hpre (h.callers e he) }
      functions := hpre
      tracked := fun ht =>
        { ht with
          function := fun g sig hg => by
            rcases hg with hg | ⟨rfl, rfl⟩
            · exact Table.find?_of_prefix hpre (ht.function g sig hg)
            · exact Table.find?_put_self _ _ _ } }

end

namespace Compile

variable {k : Lowering} {t : Terms} {G : Uses} {s : Compiler}

theorem extendsBy_of_leads {c : Compile Unit} (hs : AtTop G s)
    (h : GoesOn (.top t) G s c) : ExtendsBy t G s c := by
  unfold GoesOn Leads LeadsIn Ends at h
  unfold ExtendsBy
  cases hc : c s with
  | error d s' =>
    rw [hc] at h
    obtain ⟨G', h⟩ := h
    exact ⟨G', hs.extends h⟩
  | ok a s' =>
    rw [hc] at h
    obtain ⟨G', h, hsettles, _⟩ := h
    exact ⟨G', hs.extends h, hsettles, fun e he => .inl (h.functions ▸ he)⟩

/-- What is left to do for a top-level function that is known. -/
def createDeclared (k : Lowering) (id : Ident) (fn : Function) (binding : Slot) : Compile Unit := do
  let literal ← createFunction k (fn.spec .function (some (unitNameOf id.name)) none fn.span)
  set (.slot binding) (.literal literal)

/-- The body of a top-level function, after the function was announced. -/
theorem createDeclared_leads (hk : k.Leads) (fn : Function) {binding : Slot}
    {e : String × Signature} (hs : AtTop G s) (he : e ∈ s.functions)
    (hunit : e.2.unit = unitNameOf id.name) (hbinding : (Watch.top t).Variable G binding)
    (hpending : Pending t G s (unitNameOf id.name) (.declared (unitNameOf id.name)))
    (hreserved : ∀ n, ¬ t.reserved n)
    (hkeep : t.exact → ∀ d, s.declarationOf (unitNameOf id.name) = some d → t.keep d = false) :
    Leads (.top t) G s (createDeclared k id fn binding)
      (fun _ _ s' => s'.units.has (unitNameOf id.name) = true) := by
  have hok : (fn.spec .function (some (unitNameOf id.name)) none fn.span).Ok G :=
    FunctionSpec.ok_of_none (by simp [Function.spec]) rfl
  refine (createFunction_leads hk (hs.orderly t) rfl hok (by simp [Function.spec])
    (hunit ▸ (hs.orderly t).bodyOf_declarationOf he) hpending (fun _ => hreserved _) hkeep).bind
    fun G1 literal s1 h1 hmade => ?_
  exact (set_slot_leads h1.orderly (hbinding.mono h1.le).takes (Uses.offers_literal hmade.1)).imp
    fun _ _ s' h2 _ => unitNames_has h2.unitNames hmade.2

/-- The signature that a top-level function is announced with. -/
def signatureOf (id : Ident) (fn : Function) (binding : Slot) : Signature :=
  ⟨unitNameOf id.name, paramNames fn.params, fn.isAsync, binding⟩

theorem declareFunction_run (htop : s.atTopLevel = true) :
    declareFunction k id fn s = match declare id.name .function id.span s with
      | .error d s1 => .error d s1
      | .ok binding s1 =>
        if s1.functions.has id.name then
          malformed ("Identifier '" ++ id.name ++ "' has already been declared") id.span s1
        else createDeclared k id fn binding
          { s1 with functions := s1.functions.put id.name (signatureOf id fn binding) } := by
  refine (bind_of_ok rfl).trans ?_
  rw [htop]
  cases hc : declare id.name .function id.span s with
  | error d s1 => exact bind_of_error hc
  | ok binding s1 =>
    refine (bind_of_ok hc).trans ?_
    simp only [↓reduceIte]
    cases hold : s1.functions.has id.name with
    | true =>
      simp only [↓reduceIte]
      have hregister : registerFunction id fn binding s1 =
          malformed ("Identifier '" ++ id.name ++ "' has already been declared") id.span s1 := by
        refine (bind_of_ok rfl).trans ?_
        rw [hold]
        rfl
      exact bind_of_error (bind_of_error hregister)
    | false =>
      simp only [Bool.false_eq_true, ↓reduceIte]
      have hregister : registerFunction id fn binding s1 = .ok (unitNameOf id.name)
          { s1 with functions := s1.functions.put id.name (signatureOf id fn binding) } := by
        refine (bind_of_ok rfl).trans ?_
        rw [hold]
        rfl
      exact bind_of_ok (bind_of_ok hregister)

/-- The first function with the unit of an announced one is that function, unless a finished unit
    has the name. -/
theorem declarationOf_put {name d : String} {f : Signature} (hdeclared : Declared s)
    (hfree : s.units.has f.unit = false)
    (hd : { s with functions := s.functions.put name f }.declarationOf f.unit = some d) :
    d = name := by
  obtain ⟨e, he, rfl⟩ := Option.map_eq_some_iff.1 hd
  have hunit : e.2.unit = f.unit := by simpa using List.find?_some he
  rcases Table.mem_put (List.mem_of_find?_eq_some he) with rfl | hmem
  · rfl
  · exact absurd (hunit ▸ hdeclared e hmem) (by simp [hfree])

/-- A function that is there is not declared again. -/
theorem declareAgain_extends (hs : AtTop G s) (hold : s.functions.has id.name = true) :
    ExtendsBy t G s (declareFunction k id fn) := by
  have hdeclare : Leads (.top t) G s (declare id.name .function id.span) _ :=
    declare_leads (hs.orderly t)
  unfold Leads LeadsIn Ends at hdeclare
  unfold ExtendsBy
  rw [declareFunction_run hs.atTopLevel]
  cases hc : declare id.name .function id.span s with
  | error d s1 =>
    rw [hc] at hdeclare
    obtain ⟨G1, h1⟩ := hdeclare
    exact ⟨G1, hs.extends h1⟩
  | ok binding s1 =>
    rw [hc] at hdeclare
    obtain ⟨G1, h1, _⟩ := hdeclare
    dsimp only
    rw [h1.functions, hold]
    exact ⟨G1, hs.extends h1⟩

/-- The declaration of a function at the top level. -/
theorem declareFunction_extends (hk : k.Leads) (hs : AtTop G s) (hdeclared : Declared s) :
    ExtendsBy (s.terms (s.clashes (.function id fn) = false)) G s (declareFunction k id fn) := by
  cases hold : s.functions.has id.name with
  | true => exact declareAgain_extends hs hold
  | false =>
    let t := s.terms (s.clashes (.function id fn) = false)
    let unit := unitNameOf id.name
    have h0 := Advances.announce (hs.orderly t) id.name
    have hpending : Pending t (G.withUnit unit (.declared unit)) s unit (.declared unit) := by
      refine ⟨Uses.withUnit_self _ _, hs.name ▸ unitNameOf_ne_entryUnit _, fun hexact => ?_⟩
      have hclash : (s.units.has unit && !s.functions.has id.name) = false := hexact
      simpa [hold] using hclash
    have hdeclare : Leads (.top t) _ s (declare id.name .function id.span) _ :=
      LeadsIn.pending hpending (declare_leads (h0.orderly.withTerms _))
    unfold Leads LeadsIn Ends at hdeclare
    unfold ExtendsBy
    rw [declareFunction_run hs.atTopLevel]
    cases hc : declare id.name .function id.span s with
    | error d s1 =>
      rw [hc] at hdeclare
      obtain ⟨G1, h1⟩ := hdeclare
      exact ⟨G1, hs.extends (h0.trans h1)⟩
    | ok binding s1 =>
      rw [hc] at hdeclare
      obtain ⟨G1, h1, hsettles1, ⟨hbinding, hbinds⟩, hpending1⟩ := hdeclare
      have hext1 := hs.extends (h0.trans h1)
      have hs1 := hext1.atTop hs
      have hold1 : s1.functions.has id.name = false := h1.functions ▸ hold
      have hglobal : Binds s1 globalScope id.name binding :=
        hbinds (by decide) globalScope (by rw [hs.chain]; rfl)
      have hext2 : Extends t G1 s1 _ _ := register_extends (f := signatureOf id fn binding) hs1 rfl
        hpending1.use hold1 hglobal
      have hkeep : t.exact → ∀ d, Compiler.declarationOf
          { s1 with functions := s1.functions.put id.name (signatureOf id fn binding) }
          (unitNameOf id.name) = some d → t.keep d = false := by
        intro hexact d hd
        have hdeclared1 : Declared s1 := fun e he =>
          unitNames_has h1.unitNames (hdeclared e (h1.functions ▸ he))
        rw [declarationOf_put hdeclared1 (hpending1.free hexact) hd]
        exact hold
      have hs2 := hext2.atTop hs1
      have hbody : Leads (.top t) _ _ (createDeclared k id fn binding) _ :=
        createDeclared_leads hk fn hs2 (Table.mem_put_self _ _ _) rfl
          { hbinding.mono hext2.le with }
          ⟨hpending1.use, hpending1.ne, hpending1.free⟩ (fun _ h => h) hkeep
      unfold Leads LeadsIn Ends at hbody
      simp only [hold1, Bool.false_eq_true, ↓reduceIte]
      cases hb : createDeclared k id fn binding
        { s1 with functions := s1.functions.put id.name (signatureOf id fn binding) } with
      | error d s3 =>
        rw [hb] at hbody
        obtain ⟨G3, h3⟩ := hbody
        exact ⟨G3, hext1.trans (hext2.trans (hs2.extends h3))⟩
      | ok _ s3 =>
        rw [hb] at hbody
        obtain ⟨G3, h3, hsettles3, hhas⟩ := hbody
        refine ⟨G3, hext1.trans (hext2.trans (hs2.extends h3)), ?_, fun e he => ?_⟩
        · have hsettles2 : Settles G1 s1 G3 s3 := hsettles3
          exact Settles.of_withUnit s.names (hsettles1.trans hsettles2) hhas
        · rw [h3.functions] at he
          rcases Table.mem_put he with rfl | he
          · exact .inr hhas
          · exact .inl (h1.functions ▸ he)

end Compile

/-! ### All top-level statements -/

theorem statement_extends (hs : AtTop G s) (hdeclared : Declared s) (stmt : Stmt) :
    Compile.ExtendsBy (s.terms (s.clashes stmt = false)) G s (Compile.statement stmt) := by
  cases hfunction : stmt.isFunction with
  | false =>
    exact Compile.extendsBy_of_leads hs
      ((lowering_leads _).stmt _ G s stmt (hs.orderly _) (hs.stmtOk _) (.inr hfunction))
  | true =>
    cases stmt with
    | function id fn => exact Compile.declareFunction_extends (lowering_leads _) hs hdeclared
    | _ => cases hfunction

/-! ### Names that are bound ahead -/

namespace Compile

variable {s : Compiler}

/-- The present code is that of the script. -/
def SeesGlobal (s : Compiler) : Prop :=
  s.current.scopes = [globalScope] ∧ globalScope < s.scopes.list.length

theorem declareIn_ok {name : String} {kind : BindingKind} {span : Span} (hs : SeesGlobal s)
    (hnew : (s.scopes.own? globalScope name).isNone = true) :
    Answers s (declareIn globalScope name kind span) (fun _ => SeesGlobal) := by
  obtain ⟨table, htable⟩ : ∃ table, s.scopes.get? globalScope = some table :=
    ⟨_, List.getElem?_eq_getElem hs.2⟩
  have hfind : table.find? name = none := by
    simpa [Scopes.own?, htable] using hnew
  have hdeclare : s.scopes.declare globalScope name ⟨⟨s.names.slots⟩, kind⟩ =
      .ok (⟨⟨s.names.slots⟩, kind⟩,
        ⟨s.scopes.list.set globalScope (table.put name ⟨⟨s.names.slots⟩, kind⟩)⟩) := by
    rw [Scopes.declare, htable]
    simp only [hfind]
  exact ⟨_, _, declareIn_run span hdeclare, hs.1, by simpa [Compiler.declaring] using hs.2⟩

theorem hoistVar_ok (hs : SeesGlobal s) :
    Answers s (hoistVar globalScope id) (fun _ => SeesGlobal) := by
  refine .ok rfl ?_
  split
  · next hnew => exact (declareIn_ok hs hnew).bind fun slot _ hs' => ⟨(), _, rfl, hs'⟩
  · exact .pure hs

theorem hoistName_ok {kind : BindingKind} (hs : SeesGlobal s) :
    Answers s (hoistName globalScope kind id) (fun _ => SeesGlobal) := by
  refine .ok rfl ?_
  split
  · next hnew => exact (declareIn_ok hs hnew).bind fun _ _ hs' => ⟨(), _, rfl, hs'⟩
  · exact .pure hs

/-- At the top level, binding names ahead of their declarations cannot fail. -/
theorem hoistBody_ok (body : List Stmt) (hs : SeesGlobal s) :
    Answers s (hoistBody body) (fun _ => SeesGlobal) := by
  have hinnermost : ∀ s, SeesGlobal s → innermostScope? s = .ok (some globalScope) s := by
    intro s hs
    refine (bind_of_ok rfl).trans ?_
    rw [hs.1]
    rfl
  refine .ok (hinnermost s hs) ((Answers.forM SeesGlobal hs fun _ _ => hoistVar_ok).bind
    fun _ s1 hs1 => ?_)
  exact .ok (hinnermost s1 hs1) (Answers.forM SeesGlobal hs1 fun _ _ => hoistName_ok)

end Compile

/-- Binding names ahead leaves a state between statements, and no unit behind. -/
theorem hoist_extends (hs : AtTop G s) (body : List Stmt) :
    ∃ G', Extends (s.terms True) G s G' (s.hoist body) ∧ Settles G s G' (s.hoist body) ∧
      (s.hoist body).functions = s.functions := by
  obtain ⟨_, s', hrun, _⟩ := Compile.hoistBody_ok body ⟨hs.chain, hs.global⟩
  have h : Compile.GoesOn (.top (s.terms True)) G s (Compile.hoistBody body) :=
    Compile.hoistBody_leads (hs.orderly _)
  unfold Compile.GoesOn Compile.Leads Compile.LeadsIn Compile.Ends at h
  rw [Compiler.hoist, hrun]
  rw [hrun] at h
  obtain ⟨G', h, hsettles, _⟩ := h
  exact ⟨G', hs.extends h, hsettles, h.functions⟩

end PackScript
