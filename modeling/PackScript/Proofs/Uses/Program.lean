import PackScript.Proofs.Rollback
import PackScript.Proofs.Uses.Views

namespace PackScript

/-!
# Programs keep to the uses

* `ProgramOrderly` — all units of a program keep to uses of names.
* `Uses.Complete` — every unit that has a use is there.
* `CallsTracked` — direct calls between top-level functions have no circle.
* `Compiler.keepsUnits` — no statement failed after it had written over the unit of another
  function. Two names of functions can lead to the same unit.
* `compileSources_orderly` — every program that the compiler makes keeps to uses, is complete if the
  units were kept, and its direct calls have no circle if nothing was reported.
-/

/-! ### Programs -/

/-- All units of a program keep to the uses. -/
structure ProgramOrderly (G : Uses) (p : Program) : Prop where
  ns : G.ns = p.ns
  records : G.records = p.heapBase
  entry : G.unit p.entry = some .script
  units : ∀ e ∈ p.units, UnitKept G e.1 e.2
  functions : ∀ e ∈ p.functions, G.function e.1 e.2 ∧
    G.unit e.2.unit = some (.declared e.2.unit) ∧
    ∃ kind loop, G.slot e.2.binding = some (.variable_ kind loop)

/-- Every unit that has a use is there. -/
def Uses.Complete (G : Uses) (p : Program) : Prop :=
  ∀ n u, G.unit n = some u → p.units.has n = true

/-- The top-level functions are those of the program, their calls are recorded, and the calls have
    no circle. -/
structure CallsTracked (G : Uses) (p : Program) : Prop where
  functions : ∀ f sig, G.function f sig → p.functions.find? f = some sig
  acyclic : ∀ f, ¬ Relation.TransGen G.calls f f

section

variable {G : Uses} {s : Compiler}

/-- The entry unit has the use of the script. -/
theorem AtTop.entry (hs : AtTop G s) : G.unit entryUnit = some .script := by
  obtain ⟨u, hu, hstanding, hkind⟩ := (hs.orderly (s.terms True)).current.unit
  obtain ⟨u', hu', howner⟩ := (hs.orderly (s.terms True)).current.owned
  obtain rfl : u = u' := Option.some.inj (hu.symm.trans hu')
  have hname : (s.site (.top (s.terms True))).unit = entryUnit := hs.name
  have hscript : u.kind = .script := hkind.trans hs.kind
  have howner' : u.owner = some none := by
    rcases howner with howner | ⟨_, f, _, hf, _⟩
    · rw [howner]
      exact congrArg (some ∘ FunctionContext.declaration) hs.context
    · have hnone : (s.site (.top (s.terms True))).owner = none :=
        congrArg FunctionContext.declaration hs.context
      cases hnone.symm.trans hf
  rw [← hname, hu]
  obtain ⟨standing, kind, owner⟩ := u
  simp only at hstanding hscript howner'
  rw [hstanding, hscript, howner']
  rfl

/-- Every variable has the use of one. -/
theorem AtTop.binding (hs : AtTop G s) {t : Table Binding} (ht : t ∈ s.scopes.list)
    {e : String × Binding} (he : e ∈ t) :
    G.slot e.2.slot = some (.variable_ e.2.kind (s.loopBindings.lookup e.2.slot)) :=
  ((hs.orderly (s.terms True)).scopes.bindings t ht e he).slot

theorem AtTop.finish (hs : AtTop G s) : ProgramOrderly G s.finish := by
  have h := hs.orderly (s.terms True)
  exact
    { ns := h.ns
      records := h.records
      entry := hs.entry
      units := fun e he => by
        rcases Table.mem_put he with rfl | he
        · exact ⟨_, _, hs.name, h.isAsync.symm, rfl, h.current⟩
        · exact h.units e he
      functions := fun e he => by
        obtain ⟨hfunction, hunit, _⟩ := h.functions e he
        obtain ⟨b, hb, hslot⟩ := h.declared e he
        exact ⟨hfunction, hunit, _, _, hslot ▸ (h.own hb).slot⟩ }

theorem AtTop.complete (hs : AtTop G s) (hsettled : Settled G s) : G.Complete s.finish := by
  intro n u hu
  show (s.units.put entryUnit s.current.finish).has n = true
  rw [Table.has_put]
  by_cases hn : entryUnit = n
  · simp [hn]
  · cases hhas : s.units.has n with
    | true => simp
    | false =>
      exact absurd ⟨⟨u, hu⟩, hhas, fun h => hn (hs.name.symm.trans h.symm), by simp [hs.parents]⟩
        (hsettled n)

theorem AtTop.callsTracked (hs : AtTop G s) (h : Tracked G s.functions s.calls) :
    CallsTracked G s.finish where
  functions := h.function
  acyclic f hcircle := hs.acyclic f (hcircle.lift id h.call)

end

/-! ### Many statements and many sources -/

namespace Compiler

/-- The statement does not fail after it may have written over the unit of another function. -/
def keepsUnit (s : Compiler) (stmt : Stmt) : Bool :=
  !s.clashes stmt || (s.statement stmt).2.isEmpty

/-- None of the statements fails after it may have written over the unit of another function. -/
def keepsUnits (s : Compiler) : List Stmt → Bool
  | [] => true
  | stmt :: rest => s.keepsUnit stmt && (s.statement stmt).1.keepsUnits rest

@[inherit_doc keepsUnits]
def sourceKeepsUnits (s : Compiler) (text : String) : Bool :=
  match parseScript text with
  | .ok script => (s.hoist script.body).keepsUnits (functionsFirst script.body)
  | .error _ => true

@[inherit_doc keepsUnits]
def sourcesKeepUnits (s : Compiler) : List String → Bool
  | [] => true
  | text :: rest => s.sourceKeepsUnits text && (s.source text).1.sourcesKeepUnits rest

end Compiler

/-- The state is one between statements. If the flag is set, it lacks no unit, and if it is clean,
    calls are tracked. -/
def Stands (keeps : Bool) (clean : Prop) (s : Compiler) : Prop :=
  ∃ G, AtTop G s ∧ Declared s ∧ (keeps = true → Settled G s) ∧
    (clean → Tracked G s.functions s.calls)

theorem stands_start (ns : String) : Stands true True (.start ns) :=
  ⟨.start ns, start_atTop ns, nofun, fun _ => start_settled ns, fun _ => ⟨nofun, nofun⟩⟩

section

variable {s : Compiler} {keeps : Bool} {clean : Prop}

section

variable (h : Stands keeps clean s)

include h

theorem Stands.statement (stmt : Stmt) :
    Stands (keeps && s.keepsUnit stmt) (clean ∧ (s.statement stmt).2 = [])
      (s.statement stmt).1 := by
  obtain ⟨G, hs, hdeclared, hsettled, htracked⟩ := h
  obtain ⟨G', hs', hdeclared', hsettled', htracked'⟩ := statement_atTop hs hdeclared stmt
  refine ⟨G', hs', hdeclared', fun hkeeps => ?_, fun hclean =>
    htracked' hclean.2 (htracked hclean.1)⟩
  rw [Bool.and_eq_true] at hkeeps
  refine hsettled' ?_ (hsettled hkeeps.1)
  simpa [Compiler.keepsUnit] using hkeeps.2

theorem Stands.statements (body : List Stmt) :
    Stands (keeps && s.keepsUnits body) (clean ∧ (s.statements body).2 = [])
      (s.statements body).1 := by
  induction body generalizing s keeps clean with
  | nil => simpa [Compiler.keepsUnits, Compiler.statements] using h
  | cons stmt rest ih =>
    have hrest := ih (h.statement stmt)
    rw [Bool.and_assoc] at hrest
    simpa only [Compiler.keepsUnits, Compiler.statements, List.append_eq_nil_iff, and_assoc]
      using hrest

theorem Stands.hoist (body : List Stmt) : Stands keeps clean (s.hoist body) := by
  obtain ⟨G, hs, hdeclared, hsettled, htracked⟩ := h
  obtain ⟨G', hext, hsettles, hfunctions⟩ := hoist_extends hs body
  exact ⟨G', hext.atTop hs, fun e he =>
    unitNames_has hext.unitNames (hdeclared e (hfunctions ▸ he)),
    fun hkeeps n hn => hsettled hkeeps n (hsettles n hn),
    fun hclean => hext.tracked (htracked hclean)⟩

theorem Stands.source (text : String) :
    Stands (keeps && s.sourceKeepsUnits text) (clean ∧ (s.source text).2 = [])
      (s.source text).1 := by
  unfold Compiler.source Compiler.sourceKeepsUnits
  cases parseScript text with
  | ok script => exact (h.hoist script.body).statements _
  | error d =>
    obtain ⟨G, hs, hdeclared, hsettled, _⟩ := h
    exact ⟨G, hs, hdeclared, by simpa using hsettled, fun hclean => (nomatch hclean.2)⟩

theorem Stands.sources (texts : List String) :
    Stands (keeps && s.sourcesKeepUnits texts) (clean ∧ (s.sources texts).2 = [])
      (s.sources texts).1 := by
  induction texts generalizing s keeps clean with
  | nil => simpa [Compiler.sourcesKeepUnits, Compiler.sources] using h
  | cons text rest ih =>
    have hrest := ih (h.source text)
    rw [Bool.and_assoc] at hrest
    simpa only [Compiler.sourcesKeepUnits, Compiler.sources, List.append_eq_nil_iff, and_assoc]
      using hrest

end

end

/-! ### Finished programs -/

/-- The state of the compiler after sources. -/
def Compiler.after (ns : String) (texts : List String) : Compiler :=
  ((Compiler.start ns).sources texts).1

/-- Every program that the compiler makes keeps to uses of names, and so does the state of the
    compiler. It is complete if no statement failed after it had written over the unit of another
    function. If nothing was reported, the direct calls between top-level functions have no
    circle. -/
theorem compileSources_orderly (ns : String) (texts : List String) :
    ∃ G, ProgramOrderly G (compileSources ns texts).program ∧ AtTop G (Compiler.after ns texts) ∧
      ((Compiler.start ns).sourcesKeepUnits texts = true →
        G.Complete (compileSources ns texts).program) ∧
      ((compileSources ns texts).diagnostics = [] →
        CallsTracked G (compileSources ns texts).program) := by
  obtain ⟨G, hs, _, hsettled, htracked⟩ := (stands_start ns).sources texts
  exact ⟨G, hs.finish, hs, fun hkeeps => hs.complete (hsettled (by simpa using hkeeps)),
    fun hclean => hs.callsTracked (htracked ⟨trivial, hclean⟩)⟩

end PackScript
