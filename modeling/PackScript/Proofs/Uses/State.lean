import PackScript.Proofs.CallGraph
import PackScript.Proofs.Steps
import PackScript.Proofs.Uses.Piece

namespace PackScript

/-!
# The compiler keeps to the uses of names

What a step of the compiler does to the state, said once for all lowering rules.

* `Orderly` — the variables, the context and all code of a state of the compiler keep to the uses.
* `Prolongs` — further code of a unit keeps to the uses and writes no slots but some.
* `Tracked` — top-level functions and the calls between them are recorded.
* `Adds` — what was there stays, as far as a clash of unit names would break it.
* `Advances` — what a step of the compiler does, also one that fails: code is added at the end,
  scopes and tables get further entries, and the units and functions around the present ones wait
  unchanged. It may hand out further names.
* `Settles` — no unit is left behind that code refers to and that is not there.
* `Compile.Ends`, `Compile.LeadsIn`, `Compile.Leads` — a computation advances, and if it succeeds it
  answers what it should and leaves no unit behind.

A `Watch` says what is known of the code that is compiled, and what a step is measured by. It tells
which slots may be written: with `Watch.top` any, and with another one the code that is emitted from
some point on writes no others.
-/

/-! ### What is compiled -/

/-- What a step is measured by. -/
structure Terms where
  /-- No unit is written over -/
  exact : Prop
  /-- The functions whose calls must not change -/
  keep : String → Bool
  /-- Names that must not get a unit if they have none -/
  reserved : String → Prop

/-- Which code is compiled, and what it may write. -/
structure Watch extends Standing, Terms where
  /-- The slots that code may write -/
  writes : Slot → Prop
  /-- How many of the scopes in sight belong to functions around the present one -/
  base : Nat

/-- Code of the script that may write any slot. -/
def Watch.top (t : Terms) : Watch :=
  { UnitUse.script, t with writes := fun _ => True, base := 0 }

variable {s s' s0 : Compiler} {n : String} {G G' G0 : Uses} {W : Watch}

/-! ### States -/

/-- The slots of a context keep to their uses. They belong to no loop. -/
structure ContextOrderly (G : Uses) (c : FunctionContext) : Prop where
  that : ∀ s, c.that = some s → ∀ depth, G.Reads depth s
  newTarget : ∀ s, c.newTarget = some s → ∀ depth, G.Reads depth s
  promise : ∀ s, c.promise = some s → ∀ depth, G.Reads depth s
  parentClass : ∀ s, c.parentClass = some s → ∀ depth, G.Reads depth s
  parentProto : ∀ s, c.parentProto = some s → ∀ depth, G.Reads depth s
  returnAddress : ∀ s, c.returnAddress = some s → G.slot s = some .address
  script : c.kind = .script → c.isAsync = false

theorem ContextOrderly.mono {c : FunctionContext} (h : ContextOrderly G c) (hle : G ≤ G') :
    ContextOrderly G' c where
  that s hs depth := (h.that s hs depth).mono hle
  newTarget s hs depth := (h.newTarget s hs depth).mono hle
  promise s hs depth := (h.promise s hs depth).mono hle
  parentClass s hs depth := (h.parentClass s hs depth).mono hle
  parentProto s hs depth := (h.parentProto s hs depth).mono hle
  returnAddress s hs := hle.slot _ _ (h.returnAddress s hs)
  script := h.script

/-- A unit that is no part of another one has what its kind says. -/
def Site.Fixed (site : Site) : Prop :=
  site.kind.isPart = false →
    site.home = none ∧ site.breakable = false ∧ (site.depth = 0 ↔ site.kind = .script) ∧
      (site.depth ≠ 0 → site.fed = true)

/-- The instructions keep to the uses, as code of a unit. -/
structure CodeKept (G : Uses) (site : Site) (is : List Instr) (b : Option Slot) : Prop where
  unit : ∃ u, G.unit site.unit = some u ∧ u.toStanding = site.toStanding ∧ u.kind = site.kind
  owned : G.Owned site.unit site.owner
  fixed : site.Fixed
  code : G.Pieces site (fun _ => True) site.home is b

theorem CodeKept.mono {site : Site} {is : List Instr} {b : Option Slot} (h : CodeKept G site is b)
    (hle : G ≤ G') : CodeKept G' site is b where
  unit := by
    obtain ⟨u, hu, hsite⟩ := h.unit
    exact ⟨u, hle.unit _ _ hu, hsite⟩
  owned := h.owned.mono hle
  fixed := h.fixed
  code := h.code.mono hle fun _ h => h

/-- The instructions of a finished unit keep to the uses. -/
def UnitKept (G : Uses) (name : String) (u : CodeUnit) : Prop :=
  ∃ (site : Site) (b : Option Slot), site.unit = name ∧ site.isAsync = u.info.isAsync ∧
    site.kind = u.info.kind ∧ CodeKept G site u.instrs b

theorem UnitKept.mono {name : String} {u : CodeUnit} (h : UnitKept G name u) (hle : G ≤ G') :
    UnitKept G' name u := by
  obtain ⟨site, b, hname, hasync, hkind, hcode⟩ := h
  exact ⟨site, b, hname, hasync, hkind, hcode.mono hle⟩

namespace Compiler

/-- The place of the present code. -/
def site (s : Compiler) (W : Watch) : Site :=
  ⟨W.toStanding, s.current.name, s.current.info.kind, s.context.declaration, s.context.isAsync⟩

/-- The instructions of the unit under construction. -/
def code (s : Compiler) : List Instr :=
  s.current.instrs.toList

/-- The slot with the return address of the present function. One that may wait answers a promise
    at its start, and has no use for the address afterwards. -/
def home (s : Compiler) : Option Slot :=
  if s.context.isAsync then none else s.context.returnAddress

/-- The slot that is sure to hold the return address behind the code of the present unit. Of a
    function that may wait only the first unit can rely on the slot. -/
def address? (s : Compiler) : Option Slot :=
  if s.context.isAsync && (s.current.depth != 0 || s.current.info.kind == .continuation) then none
  else s.context.returnAddress

theorem address?_of_sync (h : s.context.isAsync = false) :
    s.address? = s.context.returnAddress := by
  simp [address?, h]

end Compiler

/-- The binding keeps to the use of its slot. Only some are noted as those of a loop. -/
structure BindingOrderly (W : Watch) (G : Uses) (loops : List (Slot × Nat)) (b : Binding) :
    Prop where
  slot : G.slot b.slot = some (.variable_ b.kind (loops.lookup b.slot))
  writes : W.writes b.slot
  loop : ∀ depth, loops.lookup b.slot = some depth → b.kind = .let_ ∨ b.kind = .const_

/-- The bindings and the scopes in sight keep to the uses. -/
structure ScopesOrderly (W : Watch) (G : Uses) (s : Compiler) : Prop where
  chain : s.current.scopes.head? = some globalScope
  base : W.base < s.current.scopes.length
  /-- The global scope belongs to the script -/
  valid : ∀ scope ∈ s.current.scopes.drop W.base,
    scope < s.scopes.list.length ∧ (scope = globalScope → W.depth = 0)
  /-- What the present function declares may be mentioned in it -/
  sees : ∀ scope ∈ s.current.scopes.drop W.base, ∀ name b,
    s.scopes.own? scope name = some b → G.Sees W.depth b.slot
  /-- No loop declares a global name -/
  loops : s.current.scopes.getLast? = some globalScope → s.context.loops = 0
  globals : ∀ name b, s.scopes.own? globalScope name = some b →
    s.loopBindings.lookup b.slot = none
  bindings : ∀ t ∈ s.scopes.list, ∀ e ∈ t, BindingOrderly W G s.loopBindings e.2
  noted : ∀ e ∈ s.loopBindings, e.1.index < s.names.slots

theorem ScopesOrderly.mono (h : ScopesOrderly W G s) (hle : G ≤ G') : ScopesOrderly W G' s :=
  { h with
    sees := fun scope hscope name b hb => (h.sees scope hscope name b hb).mono hle
    bindings := fun t ht e he =>
      { h.bindings t ht e he with slot := hle.slot _ _ (h.bindings t ht e he).slot } }

/-- The state keeps to the uses of names. -/
structure Orderly (W : Watch) (G : Uses) (s : Compiler) : Prop where
  ns : G.ns = s.ns
  freshSlot : ∀ n, s.names.slots ≤ n → G.slot ⟨n⟩ = none ∧ W.writes ⟨n⟩
  freshChannel : ∀ n, s.names.channels ≤ n → G.channel ⟨n⟩ = none
  freshUnit : ∀ n, s.names.units ≤ n → G.unit (generatedUnit n) = none
  records : G.records = s.names.records
  declaredUnit : ∀ name u, G.unit (unitNameOf name) = some u → u = .declared (unitNameOf name)
  scopes : ScopesOrderly W G s
  context : ContextOrderly G s.context
  isAsync : s.current.info.isAsync = s.context.isAsync
  depth : W.depth = s.outer.length
  script : W.depth = 0 ↔ s.context.kind = .script
  part : s.current.depth = 0 ↔ s.current.info.kind.isPart = false
  functions : ∀ e ∈ s.functions, G.function e.1 e.2 ∧
    G.unit e.2.unit = some (.declared e.2.unit) ∧ e.2.unit = unitNameOf e.1
  declared : ∀ e ∈ s.functions, ∃ b, s.globalBinding? e.1 = some b ∧ b.slot = e.2.binding
  declaration : ∀ d, s.context.declaration = some d → s.functions.has d = true
  callers : ∀ e ∈ s.calls, s.functions.has e.1 = true
  current : CodeKept G (s.site W) s.code s.address?
  units : ∀ e ∈ s.units, UnitKept G e.1 e.2
  inner : ∀ e ∈ s.units, e.2.info.kind ≠ .script

/-- The slot takes script values from the present code. -/
structure Watch.Takes (W : Watch) (G : Uses) (s : Slot) : Prop where
  takes : G.Takes W.root s
  sees : G.Sees W.depth s
  writes : W.writes s

/-- The slot is an intermediate result of the present function, which may be written. -/
def Watch.Result (W : Watch) (G : Uses) (s : Slot) : Prop :=
  G.slot s = some (.result W.root) ∧ W.writes s

/-- The slot is that of a variable, which may be written. -/
structure Watch.Variable (W : Watch) (G : Uses) (s : Slot) : Prop where
  slot : ∃ kind loop, G.slot s = some (.variable_ kind loop)
  sees : G.Sees W.depth s
  writes : W.writes s

/-- The slot is a flag of the present function, which may be written. -/
def Watch.Flag (W : Watch) (G : Uses) (s : Slot) : Prop :=
  G.slot s = some (.flag W.root) ∧ W.writes s

namespace Watch

variable {W : Watch} {G G' : Uses} {s : Slot}

theorem Takes.mono (h : W.Takes G s) (hle : G ≤ G') : W.Takes G' s :=
  ⟨h.takes.mono hle, h.sees.mono hle, h.writes⟩

theorem Result.mono (h : W.Result G s) (hle : G ≤ G') : W.Result G' s :=
  ⟨hle.slot _ _ h.1, h.2⟩

theorem Result.takes (h : W.Result G s) : W.Takes G s :=
  ⟨.inr h.1, Uses.sees_of_slot h.1 rfl _, h.2⟩

/-- Intermediate results belong to no loop. -/
theorem Result.reads (h : W.Result G s) (depth : Nat) : G.Reads depth s :=
  Uses.reads_of_slot h.1 rfl rfl depth

theorem Variable.mono (h : W.Variable G s) (hle : G ≤ G') : W.Variable G' s := by
  obtain ⟨⟨kind, loop, hs⟩, hsees, hwrites⟩ := h
  exact ⟨⟨kind, loop, hle.slot _ _ hs⟩, hsees.mono hle, hwrites⟩

theorem Variable.takes (h : W.Variable G s) : W.Takes G s :=
  ⟨.inl h.slot, h.sees, h.writes⟩

theorem Takes.reads (h : W.Takes G s) : G.Reads W.depth s :=
  ⟨h.takes.isValue, h.sees⟩

theorem Flag.mono (h : W.Flag G s) (hle : G ≤ G') : W.Flag G' s :=
  ⟨hle.slot _ _ h.1, h.2⟩

theorem Flag.sees (h : W.Flag G s) (depth : Nat) : G.Sees depth s :=
  Uses.sees_of_slot h.1 rfl depth

end Watch

/-! ### Calls between top-level functions -/

/-- What was declared and called is kept, as long as nothing is taken back. -/
structure Tracked (G : Uses) (functions : Table Signature) (calls : Table (List String)) :
    Prop where
  function : ∀ f sig, G.function f sig → functions.find? f = some sig
  call : ∀ f g, G.calls f g → Calls calls f g

/-! ### Steps -/

/-- The code of a unit goes on, from a point where the first return address is written to one where
    the second is. -/
def Prolongs (G : Uses) (site : Site) (writes : Slot → Prop) (a : Option Slot)
    (old new : List Instr) (b : Option Slot) : Prop :=
  ∃ is, new = old ++ is ∧ G.Pieces site writes a is b

section

variable {G G' : Uses} {site : Site} {writes : Slot → Prop} {a b c : Option Slot}
  {old new last : List Instr}

theorem Prolongs.refl (G : Uses) (site : Site) (writes : Slot → Prop) (a : Option Slot)
    (old : List Instr) : Prolongs G site writes a old old a :=
  ⟨[], by simp, .nil⟩

theorem Prolongs.mono (h : Prolongs G site writes a old new b) (hle : G ≤ G') :
    Prolongs G' site writes a old new b := by
  obtain ⟨is, hnew, his⟩ := h
  exact ⟨is, hnew, his.mono hle fun _ h => h⟩

theorem Prolongs.trans (h : Prolongs G site writes a old new b)
    (h' : Prolongs G site writes b new last c) : Prolongs G site writes a old last c := by
  obtain ⟨is, rfl, his⟩ := h
  obtain ⟨js, rfl, hjs⟩ := h'
  exact ⟨is ++ js, List.append_assoc old is js, his.append hjs⟩

theorem CodeKept.prolong (h : CodeKept G site old a) (h' : Prolongs G site writes a old new b) :
    CodeKept G site new b := by
  obtain ⟨is, rfl, his⟩ := h'
  exact { h with code := h.code.append (his.mono G.le_refl fun _ _ => trivial) }

end

/-- The present unit goes on, or an `await` has cut it off and it is finished. -/
inductive CurrentGrows (W : Watch) (G : Uses) (s : Compiler) (G' : Uses) (s' : Compiler) : Prop
  | same (hname : s'.current.name = s.current.name)
      (hkind : s'.current.info.kind = s.current.info.kind)
      (hcode : Prolongs G' (s.site W) W.writes s.address? s.code s'.code s'.address?)
  | rest (hasync : s.context.isAsync = true) (hdepth : s.current.depth = 0)
      (hkind : s'.current.info.kind = .continuation) (hhas : s'.units.has s.current.name = true)
      (hnew : G.unit s'.current.name = none)
      (hcode : G'.Pieces (s'.site W) W.writes W.home s'.code s'.address?)

/-- The units that were there stay as they are, and so do the calls that are kept. -/
structure Adds (t : Terms) (G : Uses) (s s' : Compiler) : Prop where
  free : s.units.has s.current.name = false →
    s.units <+: s'.units ∧ s'.units.has s'.current.name = false
  reserved : ∀ n u, t.reserved n → G.unit n = some u → n ≠ s.current.name →
    s.units.has n = false → s'.units.has n = false
  calls : (∀ d, s.context.declaration = some d → t.keep d = false) →
    List.filter (fun e => t.keep e.1) s'.calls = List.filter (fun e => t.keep e.1) s.calls

/-- What a step of the compiler does, also one that fails. The context is left as it was, unless
    the step is one of those that open a function. -/
structure Advances (opens : Bool) (W : Watch) (G : Uses) (s : Compiler) (G' : Uses)
    (s' : Compiler) : Prop where
  le : G ≤ G'
  orderly : Orderly W G' s'
  ns : s'.ns = s.ns
  names : s.names.Le s'.names
  parents : s'.parents = s.parents
  outer : s'.outer = s.outer
  functions : s'.functions = s.functions
  kind : s'.context.kind = s.context.kind
  isAsync : s'.context.isAsync = s.context.isAsync
  declaration : s'.context.declaration = s.context.declaration
  breakables : s'.context.breakables = s.context.breakables
  context : opens = false → s'.context = s.context
  chain : s'.current.scopes = s.current.scopes
  depth : s'.current.depth = s.current.depth
  current : CurrentGrows W G s G' s'
  script : s.context.kind = .script → s'.current.info = s.current.info
  scopes : s.scopes.Grows (s.current.scopes.drop W.base) s'.scopes
  /-- Names are noted ahead of their declaration in the innermost scope and in new ones -/
  ahead : ∀ e : ScopeId × String, e.1 < s.scopes.list.length →
    s.current.scopes.getLast? ≠ some e.1 → (e ∈ s'.hoisted ↔ e ∈ s.hoisted)
  unitNames : s.units.names <+: s'.units.names
  units : ∀ e ∈ s'.units, e ∈ s.units ∨ (e.1 = s.current.name ∧
    ∃ b, Prolongs G' (s.site W) W.writes s.address? s.code e.2.instrs b) ∨
    ∃ site a b, G'.Pieces site W.writes a e.2.instrs b
  grows : Relation.ReflTransGen AddsCall s.calls s'.calls
  tracked : Tracked G s.functions s.calls → Tracked G' s'.functions s'.calls
  adds : W.exact → Adds W.toTerms G s s'

/-- Code may refer to the unit, which is neither there nor under construction. -/
def Debt (G : Uses) (s : Compiler) (n : String) : Prop :=
  (∃ u, G.unit n = some u) ∧ s.units.has n = false ∧ n ≠ s.current.name ∧
    n ∉ s.parents.map (·.name)

/-- No unit is left behind that code refers to. -/
def Settles (G : Uses) (s : Compiler) (G' : Uses) (s' : Compiler) : Prop :=
  ∀ n, Debt G' s' n → Debt G s n

/-! ### Steps compose -/

theorem Uses.Le.unit_none (h : G ≤ G') (hn : G'.unit n = none) : G.unit n = none := by
  cases hu : G.unit n with
  | none => rfl
  | some u => simp [h.unit _ _ hu] at hn

theorem Adds.refl (t : Terms) (G : Uses) (s : Compiler) : Adds t G s s where
  free h := ⟨List.prefix_rfl, h⟩
  reserved _ _ _ _ _ h := h
  calls _ := rfl

theorem Advances.refl {opens : Bool} (h : Orderly W G s) :
    Advances opens W G s G s where
  le := G.le_refl
  orderly := h
  ns := rfl
  names := .refl _
  parents := rfl
  outer := rfl
  functions := rfl
  kind := rfl
  isAsync := rfl
  declaration := rfl
  breakables := rfl
  context _ := rfl
  chain := rfl
  depth := rfl
  current := .same rfl rfl (.refl _ _ _ _ _)
  script _ := rfl
  scopes := .refl _ _
  ahead _ _ _ := Iff.rfl
  unitNames := List.prefix_rfl
  units _ he := .inl he
  grows := .refl
  tracked := id
  adds _ := .refl _ _ _

section

variable {opens : Bool} {W : Watch} {G G' G'' : Uses} {s s' s'' : Compiler}

section

variable (h : Advances opens W G s G' s')

include h

/-- Code never goes on in a unit that was known before. -/
theorem Advances.ne_current {u : UnitUse} (hn : G.unit n = some u) (hne : n ≠ s.current.name) :
    n ≠ s'.current.name := by
  cases h.current with
  | same hname _ _ => rwa [hname]
  | rest _ _ _ _ hnew _ =>
    rintro rfl
    simp [hn] at hnew

/-- The place of the code is the same as long as the unit is. -/
theorem Advances.site (hname : s'.current.name = s.current.name)
    (hkind : s'.current.info.kind = s.current.info.kind) : s'.site W = s.site W := by
  rw [Compiler.site, Compiler.site, hname, hkind, h.declaration, h.isAsync]

/-- Only an `await` goes on in another unit. -/
theorem Advances.stays (hstays : s.context.isAsync = false ∨ s.current.depth ≠ 0) :
    s'.current.name = s.current.name ∧ s'.current.info.kind = s.current.info.kind := by
  cases h.current with
  | same hname hkind _ => exact ⟨hname, hkind⟩
  | rest hasync hdepth _ _ _ _ =>
    rcases hstays with hsync | hpart
    · simp [hsync] at hasync
    · exact absurd hdepth hpart

theorem CurrentGrows.trans (h' : Advances opens W G' s' G'' s'') : CurrentGrows W G s G'' s'' := by
  cases h.current with
  | same hname hkind hcode =>
    cases h'.current with
    | same hname' hkind' hcode' =>
      rw [h.site hname hkind] at hcode'
      exact .same (hname'.trans hname) (hkind'.trans hkind) ((hcode.mono h'.le).trans hcode')
    | rest hasync hdepth hkind' hhas hnew hcode' =>
      exact .rest (h.isAsync ▸ hasync) (h.depth ▸ hdepth) hkind' (hname ▸ hhas)
        (h.le.unit_none hnew) hcode'
  | rest hasync hdepth hkind hhas hnew hcode =>
    have hhas' := unitNames_has h'.unitNames hhas
    cases h'.current with
    | same hname' hkind' hcode' =>
      refine .rest hasync hdepth (hkind'.trans hkind) hhas' (hname' ▸ hnew) ?_
      rw [h'.site hname' hkind']
      obtain ⟨is, hnew', his⟩ := hcode'
      rw [hnew']
      exact (hcode.mono h'.le fun _ h => h).append his
    | rest _ _ hkind' _ hnew' hcode' =>
      exact .rest hasync hdepth hkind' hhas' (h.le.unit_none hnew') hcode'

theorem Advances.units_trans (h' : Advances opens W G' s' G'' s'') (e : String × CodeUnit)
    (he : e ∈ s''.units) :
    e ∈ s.units ∨ (e.1 = s.current.name ∧
      ∃ b, Prolongs G'' (s.site W) W.writes s.address? s.code e.2.instrs b) ∨
      ∃ site a b, G''.Pieces site W.writes a e.2.instrs b := by
  rcases h'.units e he with hold | ⟨hname', b, hcode'⟩ | hcode'
  · rcases h.units e hold with hold | ⟨hname, b, hcode⟩ | ⟨site, a, b, hcode⟩
    · exact .inl hold
    · exact .inr (.inl ⟨hname, b, hcode.mono h'.le⟩)
    · exact .inr (.inr ⟨site, a, b, hcode.mono h'.le fun _ h => h⟩)
  · cases h.current with
    | same hname hkind hcode =>
      rw [h.site hname hkind] at hcode'
      exact .inr (.inl ⟨hname'.trans hname, b, (hcode.mono h'.le).trans hcode'⟩)
    | rest _ _ _ _ _ hcode =>
      obtain ⟨is, hnew', his⟩ := hcode'
      refine .inr (.inr ⟨s'.site W, W.home, b, ?_⟩)
      rw [hnew']
      exact (hcode.mono h'.le fun _ h => h).append his
  · exact .inr (.inr hcode')

theorem Adds.trans (hadds : Adds W.toTerms G s s') (hadds' : Adds W.toTerms G' s' s'') :
    Adds W.toTerms G s s'' where
  free hfree := by
    obtain ⟨hpre, hfree'⟩ := hadds.free hfree
    obtain ⟨hpre', hfree''⟩ := hadds'.free hfree'
    exact ⟨hpre.trans hpre', hfree''⟩
  reserved n u hreserved hn hne hhas :=
    hadds'.reserved n u hreserved (h.le.unit _ _ hn) (h.ne_current hn hne)
      (hadds.reserved n u hreserved hn hne hhas)
  calls hkeep := (hadds'.calls (h.declaration ▸ hkeep)).trans (hadds.calls hkeep)

theorem Advances.trans (h' : Advances opens W G' s' G'' s'') :
    Advances opens W G s G'' s'' where
  le := Uses.le_trans h.le h'.le
  orderly := h'.orderly
  ns := h'.ns.trans h.ns
  names := h.names.trans h'.names
  parents := h'.parents.trans h.parents
  outer := h'.outer.trans h.outer
  functions := h'.functions.trans h.functions
  kind := h'.kind.trans h.kind
  isAsync := h'.isAsync.trans h.isAsync
  declaration := h'.declaration.trans h.declaration
  breakables := h'.breakables.trans h.breakables
  context hopens := (h'.context hopens).trans (h.context hopens)
  chain := h'.chain.trans h.chain
  depth := h'.depth.trans h.depth
  current := .trans h h'
  script hscript := (h'.script (h.kind.trans hscript)).trans (h.script hscript)
  scopes := h.scopes.trans (h.chain ▸ h'.scopes)
  ahead e hold hne :=
    (h'.ahead e (Nat.lt_of_lt_of_le hold h.scopes.length) (h.chain ▸ hne)).trans
      (h.ahead e hold hne)
  unitNames := h.unitNames.trans h'.unitNames
  units := h.units_trans h'
  grows := h.grows.trans h'.grows
  tracked := h'.tracked ∘ h.tracked
  adds hexact := .trans h (h.adds hexact) (h'.adds hexact)

end

theorem Advances.opening (h : Advances false W G s G' s') : Advances true W G s G' s' :=
  { h with context := nofun }

theorem Advances.atTopLevel (h : Advances opens W G s G' s') : s'.atTopLevel = s.atTopLevel := by
  simp [Compiler.atTopLevel, h.kind, h.parents, h.chain]

theorem Settles.refl : Settles G s G s :=
  fun _ h => h

theorem Settles.trans (h : Settles G s G' s') (h' : Settles G' s' G'' s'') :
    Settles G s G'' s'' :=
  fun n hn => h n (h' n hn)

end

/-! ### Computations -/

namespace Compile

variable {α β : Type} {opens : Bool} {W : Watch} {G : Uses} {s : Compiler}

/-- The state at the end has advanced from the given one. If the computation succeeds, the answer is
    what it should be and no unit is left behind that was not lacking before. -/
def Ends (opens : Bool) (W : Watch) (G : Uses) (s : Compiler)
    (r : EStateM.Result Diagnostic Compiler α) (Q : Uses → α → Compiler → Prop) : Prop :=
  match r with
  | .ok a s' => ∃ G', Advances opens W G s G' s' ∧ Settles G s G' s' ∧ Q G' a s'
  | .error _ s' => ∃ G', Advances opens W G s G' s'

/-- Advances, and answers what it should if it succeeds. -/
def LeadsIn (opens : Bool) (W : Watch) (G : Uses) (s : Compiler) (c : Compile α)
    (Q : Uses → α → Compiler → Prop) : Prop :=
  Ends opens W G s (c s) Q

/-- Advances without a change of the context. -/
abbrev Leads (W : Watch) (G : Uses) (s : Compiler) (c : Compile α)
    (Q : Uses → α → Compiler → Prop) : Prop :=
  LeadsIn false W G s c Q

/-- The same, whatever it answers. -/
abbrev GoesOn (W : Watch) (G : Uses) (s : Compiler) (c : Compile α) : Prop :=
  Leads W G s c fun _ _ _ => True

/-- A computation whose outcome is known comes first. -/
theorem Ends.ok {c : Compile α} {f : α → Compile β} {a : α} {Q : Uses → β → Compiler → Prop}
    (hc : c s = .ok a s') (h : Ends opens W G0 s0 (f a s') Q) :
    Ends opens W G0 s0 ((c >>= f) s) Q := by
  rw [bind_of_ok hc]
  exact h

theorem LeadsIn.pure {a : α} {Q : Uses → α → Compiler → Prop} (h : Orderly W G s) (hQ : Q G a s) :
    LeadsIn opens W G s (Pure.pure a) Q :=
  ⟨G, .refl h, .refl, hQ⟩

/-- A computation whose outcome is known. -/
theorem LeadsIn.of_ok {c : Compile α} {a : α} {Q : Uses → α → Compiler → Prop} (hc : c s = .ok a s')
    (h : Advances opens W G s G' s') (hsettles : Settles G s G' s') (hQ : Q G' a s') :
    LeadsIn opens W G s c Q := by
  unfold LeadsIn
  rw [hc]
  exact ⟨G', h, hsettles, hQ⟩

theorem LeadsIn.throw {d : Diagnostic} {Q : Uses → α → Compiler → Prop} (h : Orderly W G s) :
    LeadsIn opens W G s (throw d) Q :=
  ⟨G, .refl h⟩

/-- A further computation, with all that was done since some state. -/
theorem LeadsIn.bind_after {c : Compile α} {f : α → Compile β} {Q : Uses → α → Compiler → Prop}
    {R : Uses → β → Compiler → Prop} (h : LeadsIn opens W G s c Q) (h0 : Advances opens W G0 s0 G s)
    (hf : ∀ G' a s', Advances opens W G s G' s' → Settles G s G' s' → Q G' a s' →
      Ends opens W G0 s0 (f a s') R) : Ends opens W G0 s0 ((c >>= f) s) R := by
  unfold LeadsIn Ends at h
  cases hc : c s with
  | error d s' =>
    rw [hc] at h
    rw [bind_of_error hc]
    obtain ⟨G', h'⟩ := h
    exact ⟨G', h0.trans h'⟩
  | ok a s' =>
    rw [hc] at h
    rw [bind_of_ok hc]
    obtain ⟨G', h', hsettles, hQ⟩ := h
    exact hf G' a s' h' hsettles hQ

/-- The last computation, which leaves no unit behind that was not lacking at the start. -/
theorem LeadsIn.after {c : Compile α} {Q R : Uses → α → Compiler → Prop}
    (h : LeadsIn opens W G s c Q) (h0 : Advances opens W G0 s0 G s)
    (hend : ∀ G' a s', Advances opens W G s G' s' → Settles G s G' s' → Q G' a s' →
      Settles G0 s0 G' s' ∧ R G' a s') : Ends opens W G0 s0 (c s) R := by
  unfold LeadsIn Ends at *
  cases hc : c s with
  | error d s' =>
    rw [hc] at h
    obtain ⟨G', h'⟩ := h
    exact ⟨G', h0.trans h'⟩
  | ok a s' =>
    rw [hc] at h
    obtain ⟨G', h', hsettles, hQ⟩ := h
    exact ⟨G', h0.trans h', hend G' a s' h' hsettles hQ⟩

/-- Computations run one after the other, the second from wherever the first may lead. -/
theorem LeadsIn.bind {c : Compile α} {f : α → Compile β} {Q : Uses → α → Compiler → Prop}
    {R : Uses → β → Compiler → Prop} (h : LeadsIn opens W G s c Q)
    (hf : ∀ G' a s', Advances opens W G s G' s' → Q G' a s' → LeadsIn opens W G' s' (f a) R) :
    LeadsIn opens W G s (c >>= f) R := by
  cases hc : c s with
  | error d s' =>
    unfold LeadsIn Ends at h ⊢
    rw [bind_of_error hc]
    rw [hc] at h
    exact h
  | ok a s' =>
    unfold LeadsIn Ends at h
    rw [hc] at h
    obtain ⟨G', h', hsettles, hQ⟩ := h
    exact Ends.ok hc ((hf G' a s' h' hQ).after h'
      fun _ _ _ _ hsettles' hR => ⟨hsettles.trans hsettles', hR⟩)

/-- What is measured in one way is measured in another one that asks for less, and the answer is
    anything that follows from what it should be. -/
theorem LeadsIn.weaken {opens' : Bool} {W' : Watch} {c : Compile α}
    {Q R : Uses → α → Compiler → Prop} (h : LeadsIn opens W G s c Q)
    (hstep : ∀ G' s', Advances opens W G s G' s' → Advances opens' W' G s G' s')
    (hQR : ∀ G' a s', Advances opens W G s G' s' → Q G' a s' → R G' a s') :
    LeadsIn opens' W' G s c R := by
  unfold LeadsIn Ends at h ⊢
  cases hc : c s with
  | error d s' =>
    rw [hc] at h
    obtain ⟨G', h⟩ := h
    exact ⟨G', hstep G' s' h⟩
  | ok a s' =>
    rw [hc] at h
    obtain ⟨G', h, hsettles, hQ⟩ := h
    exact ⟨G', hstep G' s' h, hsettles, hQR G' a s' h hQ⟩

theorem LeadsIn.imp {c : Compile α} {Q R : Uses → α → Compiler → Prop} (h : LeadsIn opens W G s c Q)
    (hQR : ∀ G' a s', Advances opens W G s G' s' → Q G' a s' → R G' a s') :
    LeadsIn opens W G s c R :=
  h.weaken (fun _ _ h => h) hQR

/-- What is known of the outcome by itself. -/
theorem LeadsIn.noting {c : Compile α} {Q : Uses → α → Compiler → Prop} {R : α → Compiler → Prop}
    (h : LeadsIn opens W G s c Q) (hrun : ∀ a s', c s = .ok a s' → R a s') :
    LeadsIn opens W G s c (fun G' a s' => Q G' a s' ∧ R a s') := by
  unfold LeadsIn Ends at h ⊢
  cases hc : c s with
  | error d s' => rwa [hc] at h
  | ok a s' =>
    rw [hc] at h
    obtain ⟨G', h', hsettles, hQ⟩ := h
    exact ⟨G', h', hsettles, hQ, hrun a s' hc⟩

/-- What leaves the context as it is may run where a function is opened. -/
theorem LeadsIn.opening {c : Compile α} {Q : Uses → α → Compiler → Prop}
    (h : LeadsIn false W G s c Q) :
    LeadsIn true W G s c (fun G' a s' => Q G' a s' ∧ s'.context = s.context) :=
  h.weaken (fun _ _ h => h.opening) fun _ _ _ h hQ => ⟨hQ, h.context rfl⟩

/-- Looking at the state does nothing. -/
theorem LeadsIn.read {c : Compile α} {f : α → Compile β} {a : α} {Q : Uses → β → Compiler → Prop}
    (hc : c s = .ok a s) (h : LeadsIn opens W G s (f a) Q) : LeadsIn opens W G s (c >>= f) Q :=
  Ends.ok hc h

theorem LeadsIn.ite {p : Prop} [Decidable p] {c d : Compile α} {Q : Uses → α → Compiler → Prop}
    (hc : p → LeadsIn opens W G s c Q) (hd : ¬ p → LeadsIn opens W G s d Q) :
    LeadsIn opens W G s (if p then c else d) Q := by
  split
  · next hp => exact hc hp
  · next hp => exact hd hp

/-- One computation for each item of a list, all from the same kind of state. -/
theorem LeadsIn.forM {items : List β} {f : β → Compile PUnit} (P : Uses → Compiler → Prop)
    (h : Orderly W G s) (hP : P G s)
    (hf : ∀ b ∈ items, ∀ G1 s1, Advances opens W G s G1 s1 → P G1 s1 →
      LeadsIn opens W G1 s1 (f b) (fun G' _ s' => P G' s')) :
    LeadsIn opens W G s (items.forM f) (fun G' _ s' => P G' s') := by
  induction items generalizing G s with
  | nil => exact .pure h hP
  | cons b rest ih =>
    refine (hf b List.mem_cons_self G s (.refl h) hP).bind fun G1 _ s1 h1 hP1 => ?_
    refine ih h1.orderly hP1 fun b' hb' G2 s2 h2 hP2 => ?_
    exact hf b' (List.mem_cons_of_mem b hb') G2 s2 (h1.trans h2) hP2

end Compile

end PackScript
