import PackScript.Proofs.Uses.Script

namespace PackScript

/-!
# Taking a statement back

A top-level statement that fails may have left units, names and code behind. `Compiler.rollback`
cuts everything to the length it had, so it goes back to the state before the statement if nothing
that was there was changed in place.

* `Scopes.Grows.rollback` — scopes that have only grown are cut to what they were.
* `Extends.rollback_eq` — what is left of a statement that is taken back: the names it used up, and
  the units and calls that it may have written over.
* `Between` — the states between top-level statements, and `Between.typed`, their invariant.
* `rollback_restores` — the state is the one before, unless the statement declares a function whose
  unit has the name of one that is there.
-/

/-! ### What is cut off -/

theorem Scopes.Grows.rollback {a b : Scopes} (h : a.Grows [globalScope] b) :
    b.rollback globalScope (a.mark globalScope) = a := by
  have hlist : (b.list.take a.list.length).modify globalScope
      (·.take ((a.get? globalScope).getD []).length) = a.list := by
    refine List.ext_getElem? fun i => ?_
    rw [List.getElem?_modify, List.getElem?_take]
    cases htable : a.list[i]? with
    | none =>
      have hi : ¬ i < a.list.length := Nat.not_lt.2 (List.getElem?_eq_none_iff.1 htable)
      simp [hi]
    | some table =>
      have hi : i < a.list.length := (List.getElem?_eq_some_iff.1 htable).1
      obtain ⟨table', htable', hpre, heq⟩ := h.tables i table htable
      rw [if_pos hi, htable']
      by_cases hglobal : globalScope = i
      · -- the global scope is cut to the names it had
        have hlength : ((a.get? globalScope).getD []).length = table.length := by
          rw [hglobal, Scopes.get?, htable]
          rfl
        have htake : List.take table.length table' = table := (List.prefix_iff_eq_take.1 hpre).symm
        rw [hlength]
        simp [hglobal, htake]
      · simp [hglobal, heq (by simpa using Ne.symm hglobal) (Ne.symm hglobal)]
  rw [Scopes.rollback, Scopes.mark, hlist]

section

variable {t : Terms} {G G' : Uses} {s s' : Compiler}

/-- What is left of a statement that is taken back. -/
def Compiler.leftBy (s s' : Compiler) : Compiler :=
  { s with
    names := s'.names
    units := s'.units.take s.units.length
    calls := List.filter (fun e => s.functions.has e.1) s'.calls
    loopBindings := s'.loopBindings
    classProtos := s'.classProtos
    hoisted := s'.hoisted }

section

variable (h : Extends t G s G' s')

include h

theorem Extends.draft_eq :
    { s'.current with
      instrs := s'.current.instrs.take s.current.instrs.size
      scopes := s.current.scopes } = s.current := by
  have hinstrs : s'.current.instrs.take s.current.instrs.size = s.current.instrs := by
    apply Array.ext'
    simpa using (List.prefix_iff_eq_take.1 h.instrs).symm
  have hname := h.name
  have hinfo := h.info
  have hdepth := h.depth
  revert hinstrs hname hinfo hdepth
  cases s.current
  cases s'.current
  simp +contextual

theorem Extends.rollback_eq (hs : AtTop G s) : s'.rollback s.checkpoint = s.leftBy s' := by
  have hunit : s'.unitAt s.checkpoint = s'.current := by
    simp [Compiler.unitAt, Compiler.checkpoint, h.parents]
  have hscopes : s'.scopes.rollback globalScope (s.scopes.mark globalScope) = s.scopes :=
    (hs.chain ▸ h.scopes).rollback
  have hfunctions : s'.functions.take s.functions.length = s.functions :=
    (List.prefix_iff_eq_take.1 h.functions).symm
  rw [Compiler.rollback, hunit]
  simp only [Compiler.checkpoint, h.draft_eq, h.parents, h.outer, h.ns, hscopes, hfunctions,
    Nat.sub_self, List.drop_zero]
  rfl

theorem Extends.names_leftBy : (s.leftBy s').units.names = s.units.names := by
  have hlength : s.units.names.length = s.units.length := List.length_map ..
  show (s'.units.take s.units.length).map (·.1) = s.units.names
  rw [List.map_take, ← hlength]
  exact (List.prefix_iff_eq_take.1 h.unitNames).symm

theorem Extends.leftBy_declared (hdeclared : Declared s) : Declared (s.leftBy s') := by
  intro e he
  rw [Table.has_iff_mem_names, h.names_leftBy, ← Table.has_iff_mem_names]
  exact hdeclared e he

/-- The variables of a loop that are noted for bindings that were there stay the same. -/
theorem Extends.lookup_eq (hs : AtTop G s) {table : Table Binding} {e : String × Binding}
    (htable : table ∈ s.scopes.list) (he : e ∈ table) :
    s'.loopBindings.lookup e.2.slot = s.loopBindings.lookup e.2.slot := by
  obtain ⟨i, hi⟩ := List.mem_iff_getElem?.1 htable
  obtain ⟨table', htable', hpre, _⟩ := h.scopes.tables i table hi
  have hold := h.le.slot _ _ ((hs.orderly t).scopes.bindings table htable e he).slot
  have hnew := (h.orderly.scopes.bindings table' (List.mem_of_getElem? htable') e
    (hpre.subset he)).slot
  simpa using hnew.symm.trans hold

/-- What is left keeps to uses that the names and units which are left keep to. -/
theorem Extends.leftBy_atTop {G₀ : Uses} (hs : AtTop G s)
    (hnamed : Orderly (.top t) G₀ { s with names := s'.names })
    (hunits : ∀ e ∈ s'.units.take s.units.length, UnitKept G₀ e.1 e.2) :
    AtTop G₀ (s.leftBy s') := by
  have horderly : Orderly (.top t) G₀ (s.leftBy s') :=
    { hnamed with
      scopes := { hnamed.scopes with
        globals := fun name b hb => by
          obtain ⟨table, htable, hmem⟩ := Scopes.mem_of_own? hb
          exact (h.lookup_eq hs htable hmem).trans (hnamed.scopes.globals name b hb)
        bindings := fun table htable e he => by
          have hlookup := h.lookup_eq hs htable he
          have hbinding := hnamed.scopes.bindings table htable e he
          exact { hbinding with
            slot := hlookup ▸ hbinding.slot
            loop := fun depth hdepth => hbinding.loop depth (hlookup ▸ hdepth) }
        noted := h.orderly.scopes.noted }
      callers := fun _ he => (List.mem_filter.1 he).2
      units := hunits
      inner := fun e he => h.orderly.inner e (List.mem_of_mem_take he) }
  exact { hs with
    orderly := horderly.withTerms
    acyclic := (hs.acyclic.grows h.grows).filter _ }

/-- What is left keeps to the uses that the statement has handed out, also where units were written
    over. -/
theorem Extends.leftBy_kept (hs : AtTop G s) : AtTop G' (s.leftBy s') := by
  have h₀ := hs.orderly t
  refine h.leftBy_atTop hs (h₀.withNames h.le _ ⟨h.names.slots, fun n hn =>
    (h.orderly.freshSlot n hn).1⟩ h.orderly.freshChannel h.orderly.freshUnit h.orderly.records
    h.orderly.declaredUnit) fun e he => h.orderly.units e (List.mem_of_mem_take he)

/-- Where nothing was written over, what is left keeps to the uses that were there. Only the heap
    records are used up. -/
theorem Extends.leftBy_restored (hs : AtTop G s) (hexact : t.exact) :
    AtTop { G with records := s'.names.records } (s.leftBy s') := by
  have h₀ := hs.orderly t
  have hle : G ≤ { G with records := s'.names.records } :=
    { G.le_refl with records := h₀.records ▸ h.names.records }
  have hunits : s'.units.take s.units.length = s.units :=
    (List.prefix_iff_eq_take.1 (h.units hexact)).symm
  refine h.leftBy_atTop hs (h₀.withNames hle _ ⟨h.names.slots, fun n hn => ?_⟩ (fun n hn => ?_)
    (fun n hn => ?_) rfl h₀.declaredUnit) fun e he => (h₀.units e (hunits ▸ he)).mono hle
  · exact (h₀.freshSlot n (Nat.le_trans h.names.slots hn)).1
  · exact h₀.freshChannel n (Nat.le_trans h.names.channels hn)
  · exact h₀.freshUnit n (Nat.le_trans h.names.units hn)

end

/-- The second state is the first one, apart from names that were used up. -/
structure Compiler.Restores (s s' : Compiler) : Prop where
  ns : s'.ns = s.ns
  units : s'.units = s.units
  functions : s'.functions = s.functions
  calls : s'.calls = s.calls
  current : s'.current = s.current
  parents : s'.parents = s.parents
  context : s'.context = s.context
  outer : s'.outer = s.outer
  scopes : s'.scopes = s.scopes
  names : s.names.Le s'.names

/-- Where nothing was written over, nothing else is left. -/
theorem Extends.leftBy_restores {exact : Prop} (h : Extends (s.terms exact) G s G' s')
    (hs : AtTop G s) (hexact : exact) : s.Restores (s.leftBy s') where
  ns := rfl
  units := (List.prefix_iff_eq_take.1 (h.units hexact)).symm
  functions := rfl
  calls := by
    have hall : List.filter (fun e => s.functions.has e.1) s.calls = s.calls :=
      List.filter_eq_self.2 (hs.orderly (s.terms exact)).callers
    exact (h.calls hexact).trans hall
  current := rfl
  parents := rfl
  context := rfl
  outer := rfl
  scopes := rfl
  names := h.names

theorem Compiler.Restores.settled (h : s.Restores s') (hsettled : Settled G s) : Settled G s' := by
  rintro n ⟨hrole, hhas, hne, hparents⟩
  exact hsettled n ⟨hrole, h.units ▸ hhas, h.current ▸ hne, h.parents ▸ hparents⟩

end

/-! ### One statement -/

section

variable {G : Uses} {s after : Compiler} {stmt : Stmt} {d : Diagnostic}

theorem Compiler.statement_of_ok (h : Compile.statement stmt s = .ok () after) :
    s.statement stmt = (after, []) := by
  rw [Compiler.statement, h]

theorem Compiler.statement_of_error (h : Compile.statement stmt s = .error d after) :
    s.statement stmt = (after.rollback s.checkpoint, [d]) := by
  rw [Compiler.statement, h]

/-- A statement that fails leaves what `Compiler.leftBy` says. -/
theorem failed_statement (hs : AtTop G s) (hdeclared : Declared s)
    (hfail : Compile.statement stmt s = .error d after) :
    ∃ G', Extends (s.terms (s.clashes stmt = false)) G s G' after ∧
      s.statement stmt = (s.leftBy after, [d]) := by
  have h := statement_extends hs hdeclared stmt
  rw [Compile.ExtendsBy, hfail] at h
  obtain ⟨G', h⟩ := h
  exact ⟨G', h, by rw [Compiler.statement_of_error hfail, h.rollback_eq hs]⟩

/-- The state after a statement is one between statements. It lacks no unit, unless a statement
    failed that had written over one, and if nothing was reported, calls are tracked. -/
theorem statement_atTop (hs : AtTop G s) (hdeclared : Declared s) (stmt : Stmt) :
    ∃ G', AtTop G' (s.statement stmt).1 ∧ Declared (s.statement stmt).1 ∧
      (s.clashes stmt = false ∨ (s.statement stmt).2 = [] → Settled G s →
        Settled G' (s.statement stmt).1) ∧
      ((s.statement stmt).2 = [] → Tracked G s.functions s.calls →
        Tracked G' (s.statement stmt).1.functions (s.statement stmt).1.calls) := by
  cases hrun : Compile.statement stmt s with
  | ok _ after =>
    have h := statement_extends hs hdeclared stmt
    rw [Compile.ExtendsBy, hrun] at h
    obtain ⟨G', hext, hsettles, hfunctions⟩ := h
    rw [Compiler.statement_of_ok hrun]
    refine ⟨G', hext.atTop hs, fun e he => ?_, fun _ hsettled n hn => hsettled n (hsettles n hn),
      fun _ => hext.tracked⟩
    rcases hfunctions e he with hold | hnew
    · exact unitNames_has hext.unitNames (hdeclared e hold)
    · exact hnew
  | error d after =>
    obtain ⟨G', hext, hstatement⟩ := failed_statement hs hdeclared hrun
    rw [hstatement]
    by_cases hclash : s.clashes stmt = false
    · have hrestores := hext.leftBy_restores hs hclash
      exact ⟨_, hext.leftBy_restored hs hclash, hext.leftBy_declared hdeclared,
        fun _ hsettled => hrestores.settled hsettled, nofun⟩
    · refine ⟨G', hext.leftBy_kept hs, hext.leftBy_declared hdeclared, fun h => ?_, nofun⟩
      rcases h with h | h
      · exact absurd h hclash
      · cases h

end

/-! ### All states between statements -/

/-- The states of the compiler between top-level statements, whatever it was given before. -/
inductive Between : Compiler → Prop where
  | start (ns : String) : Between (.start ns)
  | hoist {s : Compiler} (body : List Stmt) : Between s → Between (s.hoist body)
  | statement {s : Compiler} (stmt : Stmt) : Between s → Between (s.statement stmt).1

/-- The uses at the start. -/
def Uses.start (ns : String) : Uses where
  ns := ns
  slot _ := none
  channel _ := none
  unit n := if n = entryUnit then some .script else none
  function _ _ := False
  calls _ _ := False
  records := 0

theorem Uses.start_unit {ns n : String} (hn : n ≠ entryUnit) : (Uses.start ns).unit n = none :=
  if_neg hn

theorem Uses.start_entry (ns : String) : (Uses.start ns).unit entryUnit = some .script := by
  simp [start]

theorem start_orderly (ns : String) (t : Terms) : Orderly (.top t) (.start ns) (.start ns) where
  ns := rfl
  freshSlot _ _ := ⟨rfl, trivial⟩
  freshChannel _ _ := rfl
  freshUnit n _ := Uses.start_unit (generatedUnit_ne_entryUnit n)
  records := rfl
  declaredUnit name u hu := by
    cases (Uses.start_unit (unitNameOf_ne_entryUnit name)).symm.trans hu
  scopes :=
    { chain := rfl
      base := Nat.zero_lt_one
      valid := by simp [Compiler.start, Draft.start, Watch.top, UnitUse.script, globalScope]
      sees := by
        simp [Compiler.start, Draft.start, Watch.top, Scopes.own?, Scopes.get?, Table.find?,
          globalScope]
      loops := fun _ => rfl
      globals := by simp [Compiler.start, Scopes.own?, Scopes.get?]
      bindings := by simp [Compiler.start]
      noted := nofun }
  context := ⟨nofun, nofun, nofun, nofun, nofun, nofun, fun _ => rfl⟩
  isAsync := rfl
  depth := rfl
  script := ⟨fun _ => rfl, fun _ => rfl⟩
  part := ⟨fun _ => rfl, fun _ => rfl⟩
  functions := nofun
  declared := nofun
  declaration := nofun
  callers := nofun
  current :=
    { unit := ⟨_, Uses.start_entry ns, rfl, rfl⟩
      owned := ⟨_, Uses.start_entry ns, .inl rfl⟩
      fixed := fun _ => ⟨rfl, rfl, ⟨fun _ => rfl, fun _ => rfl⟩, fun h => absurd rfl h⟩
      code := .nil }
  units := nofun
  inner := nofun

theorem start_atTop (ns : String) : AtTop (.start ns) (.start ns) := by
  refine ⟨start_orderly ns, rfl, rfl, rfl, rfl, rfl, rfl, fun f hcircle => ?_⟩
  obtain ⟨g, hcall, _⟩ := Relation.TransGen.head'_iff.1 hcircle
  simp [Calls, Compiler.start, Table.find?] at hcall

theorem start_settled (ns : String) : Settled (.start ns) (.start ns) := by
  rintro n ⟨⟨u, hu⟩, _, hne, _⟩
  cases (Uses.start_unit hne).symm.trans hu

/-- Every state between top-level statements has uses that its code keeps to. -/
theorem Between.typed {s : Compiler} (h : Between s) : ∃ G, AtTop G s ∧ Declared s := by
  induction h with
  | start ns => exact ⟨.start ns, start_atTop ns, nofun⟩
  | hoist body _ ih =>
    obtain ⟨G, hs, hdeclared⟩ := ih
    obtain ⟨G', hext, _, hfunctions⟩ := hoist_extends hs body
    exact ⟨G', hext.atTop hs, fun e he =>
      unitNames_has hext.unitNames (hdeclared e (hfunctions ▸ he))⟩
  | statement stmt _ ih =>
    obtain ⟨G, hs, hdeclared⟩ := ih
    obtain ⟨G', hs', hdeclared', _⟩ := statement_atTop hs hdeclared stmt
    exact ⟨G', hs', hdeclared'⟩

/-- A top-level statement that fails is taken back: the state is the one before it, apart from the
    names it used up. A function declaration is an exception if its unit has the name of a
    finished one and its own name is new, since that unit was written over. -/
theorem rollback_restores {s after : Compiler} {stmt : Stmt} {d : Diagnostic} (hs : Between s)
    (hclash : s.clashes stmt = false) (hfail : Compile.statement stmt s = .error d after) :
    s.statement stmt = (after.rollback s.checkpoint, [d]) ∧
      s.Restores (after.rollback s.checkpoint) := by
  obtain ⟨G, htop, hdeclared⟩ := hs.typed
  obtain ⟨G', hext, _⟩ := failed_statement htop hdeclared hfail
  refine ⟨Compiler.statement_of_error hfail, ?_⟩
  rw [hext.rollback_eq htop]
  exact hext.leftBy_restores htop hclash

/-- `function NAME() { while (f) { if (f) { break; } } LAST }`. -/
def loopingFunction (name : String) (last : Stmt) : Stmt :=
  let f : Expr := .ident ⟨"f", .origin⟩
  let round : Stmt := .branch f (.breaking none .origin) none .origin
  let body : Block := ⟨[.whileLoop f (.block ⟨[round], .origin⟩) .origin, last], .origin⟩
  .function ⟨name, .origin⟩ ⟨some ⟨name, .origin⟩, [], body, false, false, .origin⟩

/-- The state after a function that could be compiled. -/
def afterLoopingFunction : Compiler :=
  ((Compiler.start "pack").statement (loopingFunction "f" (.empty .origin))).1

/-- A second function fails behind a loop that was compiled. -/
def failingFunction : Stmt :=
  loopingFunction "g" (.unsupported "try statement" .origin)

theorem rollback_restores_failingFunction :
    (afterLoopingFunction.statement failingFunction).2.length = 1 ∧
      afterLoopingFunction.Restores (afterLoopingFunction.statement failingFunction).1 := by
  have hfail : (afterLoopingFunction.statement failingFunction).2.length = 1 := by decide +kernel
  refine ⟨hfail, ?_⟩
  cases hrun : Compile.statement failingFunction afterLoopingFunction with
  | ok _ after => simp [Compiler.statement_of_ok hrun] at hfail
  | error d after =>
    have hclash : afterLoopingFunction.clashes failingFunction = false := by decide +kernel
    have hbetween : Between afterLoopingFunction := .statement _ (.start "pack")
    obtain ⟨heq, hrestores⟩ := rollback_restores hbetween hclash hrun
    rw [heq]
    exact hrestores

end PackScript
