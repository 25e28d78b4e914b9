import PackScript.Proofs.Names
import PackScript.Proofs.Uses.Program

namespace PackScript

/-!
# Variables of loops stay in their function

A variable that a loop declares has one slot for all rounds, so a closure over it would see the
value of the last round. The slot is noted with the number of functions around the loop, and code
inside of more functions leaves it alone.

* `Program.Nests` — the functions that the code of a unit is inside of, counted along the code of
  the program: parts, rounds of loops and what follows an `await` belong to the function they are
  in.
* `CodeUnit.Spares` — code that neither reads nor writes a slot, nor hands its key to anyone.
* `Uses.Piece.stays` — the code of a unit refers to units at their depths.
* `declareIn_noted` — a `let` or `const` with a loop around it is noted.
* `loop_bindings_stay_inside` — no function inside of the one that declares a variable that is noted
  mentions the slot of the variable.
-/

variable {c : Channel} {entries : Compile.Entries} {guard : Guard} {s : Slot} {source : Source}
  {use : UnitUse}

/-! ### Functions inside of functions -/

/-- The instruction writes a function whose code is the unit. -/
def Instr.makes (ns unit : String) : Instr → Bool
  | .set _ _ (.literal v) => (v.get? "function").bind Nbt.text? = some (functionId ns unit)
  | _ => false

/-- The instruction enters the unit as a part of the present one, or names it as the body of a loop
    over an array. -/
def Instr.entersPart (ns unit : String) : Instr → Bool
  | .invoke _ callee none _ => callee = .unit unit
  | .set _ ⟨.channel _, ["function"]⟩ source => source.isText (functionId ns unit)
  | _ => false

/-- Some instruction of the unit passes the test. -/
def Program.codeHas (p : Program) (unit : String) (test : Instr → Bool) : Bool :=
  (p.units.find? unit).any fun u => u.instrs.any test

/-- The unit is code inside of so many functions. -/
inductive Program.Nests (p : Program) : Nat → String → Prop
  | entry : Nests p 0 p.entry
  | declared {f sig} (hf : (f, sig) ∈ p.functions) : Nests p 1 sig.unit
  | part {depth unit part} (h : Nests p depth unit)
      (hpart : p.codeHas unit (·.entersPart p.ns part) = true) : Nests p depth part
  /-- What follows an `await` is a function to the machine, but not to the script -/
  | made {depth unit inner kind} (h : Nests p depth unit)
      (hmade : p.codeHas unit (·.makes p.ns inner) = true)
      (hkind : (p.units.find? inner).map (·.info.kind) = some kind) :
      Nests p (if kind = .continuation then depth else depth + 1) inner

/-- All but to mention a slot is permitted. -/
def Permits.allBut (s : Slot) : Permits :=
  ⟨(· ≠ s), True, fun _ => True, fun _ => True, fun _ => True⟩

/-- The code of the unit neither reads nor writes the slot, nor hands its key to a routine or a
    function. -/
def CodeUnit.Spares (u : CodeUnit) (s : Slot) : Prop :=
  Chunks (.allBut s) u.instrs

/-! ### Depths of units -/

namespace Uses

/-- The instruction of code inside of so many functions refers to units at their depths. -/
structure Stays (G : Uses) (depth : Nat) (i : Instr) : Prop where
  makes : ∀ n, i.makes G.ns n = true → G.MadeAt depth (functionId G.ns n)
  enters : ∀ n, i.entersPart G.ns n = true → ∃ u, G.unit n = some u ∧ u.depth = depth

section

variable {G : Uses} {S : Standing} {site : Site} {writes : Slot → Prop} {a b : Option Slot}
  {is : List Instr}

/-- A write that names no body of a loop. -/
theorem stays_set {target : Place} (hsource : (G.permits S).source source)
    (hround : ∀ n, (Instr.set guard target source).entersPart G.ns n = false) :
    G.Stays S.depth (.set guard target source) where
  makes n hn := by
    cases source with
    | literal v => exact hsource _ (by simpa [Instr.makes] using hn)
    | copy _ => cases hn
    | param _ => cases hn
  enters n hn := by
    rw [hround n] at hn
    cases hn

theorem stays_slot {path : List String} (hsource : (G.permits S).source source) :
    G.Stays S.depth (.set guard ⟨.slot s, path⟩ source) :=
  stays_set hsource fun _ => rfl

/-- The key of a slot is no id of a function. -/
theorem addressOf_ne_functionId (s : Slot) (ns n : String) :
    Source.addressOf s ≠ .text (functionId ns n) := by
  intro h
  have hkey : s.key = functionId ns n := Nbt.string.inj (Source.literal.inj h)
  exact s.colon_notMem_key (by simp [hkey, functionId])

/-- What a channel is filled with. -/
theorem stays_fill
    (h : ∀ e ∈ entries, (G.permits S).source e.2 ∧ (e.1 = "function" → ∃ s, e.2 = .addressOf s)) :
    ∀ i ∈ fillCode c entries, G.Stays S.depth i := by
  intro i hi
  rcases List.mem_cons.1 hi with rfl | hi
  · exact stays_set (S := S) nofun fun _ => rfl
  · obtain ⟨⟨name, source⟩, he, rfl⟩ := List.mem_map.1 hi
    obtain ⟨hsource, hfunction⟩ := h _ he
    refine stays_set hsource fun n => ?_
    by_cases hname : name = "function"
    · subst hname
      obtain ⟨s, rfl⟩ := hfunction rfl
      refine Bool.eq_false_iff.2 fun htext => ?_
      exact addressOf_ne_functionId s G.ns n (Source.isText_iff.1 htext)
    · simp [Instr.entersPart, Place.entry, hname]

theorem stays_invoke {callee : Callee} {store : Option Place} (depth : Nat) :
    G.Stays depth (.invoke guard callee (some c) store) :=
  ⟨nofun, nofun⟩

theorem Supplies.stays {r : Routine} {target : Option Slot} (h : G.Supplies S r target entries) :
    ∀ e ∈ entries, (G.permits S).source e.2 ∧
      (e.1 = "function" → ∃ s, e.2 = .addressOf s) := by
  obtain ⟨layout, hsupplied, haccepts⟩ := h
  intro e he
  obtain ⟨shape, hmem, hfits⟩ := hsupplied.shape he
  refine ⟨hfits.seen, fun hname => ?_⟩
  have huse : (r.argUse "function").admits shape = true := hname ▸ haccepts.uses _ hmem
  have hshape : shape = .value := by
    simpa [Routine.argUse, ArgUse.admits] using huse
  subst hshape
  obtain ⟨s, _, hs⟩ := hfits
  exact ⟨s, hs⟩

theorem CallEntries.stays {result : Slot} (h : G.CallEntries S result entries) :
    ∀ e ∈ entries, (G.permits S).source e.2 ∧
      (e.1 = "function" → ∃ s, e.2 = .addressOf s) := by
  intro e he
  rcases h.fits e he with ⟨hname, hoffers⟩ | ⟨hname, hsource⟩
  · exact ⟨hoffers.seen, fun hfunction => absurd hfunction (valueEntry_ne hname).2.2.2.2.2.1⟩
  · exact ⟨hsource ▸ nofun, fun _ => ⟨result, hsource⟩⟩

theorem Piece.stays (h : G.Piece site writes a is) : ∀ i ∈ is, G.Stays site.depth i := by
  have hone : ∀ {i : Instr}, G.Stays site.depth i → ∀ j ∈ [i], G.Stays site.depth j := by
    rintro i hi j hj
    rwa [List.mem_singleton.1 hj]
  cases h with
  | value _ _ _ _ hsource => exact hone (stays_slot hsource.seen)
  | flag _ _ v => exact hone (stays_slot (S := site.toStanding) (v.calls _))
  | raised _ _ _ hsource => exact hone (stays_slot hsource)
  | listener _ _ hid =>
    refine hone (stays_slot (S := site.toStanding) (Nbt.calls_slot _ _ ?_))
    rintro _ ⟨⟩
    exact hid
  | code _ _ _ => exact hone (stays_slot (S := site.toStanding) nofun)
  | @record _ p _ _ =>
    refine hone (stays_set (S := site.toStanding) ?_ fun _ => rfl)
    cases p <;> exact nofun
  | property _ hsource => exact hone (stays_set hsource.seen fun _ => rfl)
  | returnIf _ _ | returnWith _ | raw => exact hone ⟨nofun, nofun⟩
  | @scalar _ v _ _ _ hpayloads =>
    intro i hi
    rcases List.mem_cons.1 hi with rfl | hi
    · exact stays_slot (S := site.toStanding) (v.calls _)
    · obtain ⟨e, he, rfl⟩ := List.mem_map.1 hi
      exact stays_slot (hpayloads e he).2.1
  | library _ _ hentries | call _ _ _ hentries _ _ _ =>
    exact List.forall_mem_append.2 ⟨stays_fill hentries.stays, hone (stays_invoke _)⟩
  | @through _ _ _ callee _ _ _ _ _ hentries _ =>
    refine List.forall_mem_append.2 ⟨stays_fill hentries.stays,
      List.forall_mem_append.2 ⟨stays_fill (S := site.toStanding) ?_, hone (stays_invoke _)⟩⟩
    simp only [List.forall_mem_cons, List.not_mem_nil, false_implies, implies_true, and_true]
    exact ⟨⟨nofun, fun _ => ⟨callee, rfl⟩⟩, nofun, nofun⟩
  | part _ hunit _ _ =>
    refine hone ⟨nofun, fun n hn => ?_⟩
    obtain rfl := Callee.unit.inj (of_decide_eq_true hn)
    exact ⟨_, hunit.unit, hunit.depth⟩
  | @each c d array cell unit u _ _ _ hunit _ _ _ =>
    -- the body of the loop is named in one entry; the other instructions are as elsewhere
    have hround : G.Stays site.depth
        (.set .always (.entry c "function") (.text (functionId G.ns unit))) := by
      refine ⟨nofun, fun n hn => ?_⟩
      obtain rfl :=
        functionId_injective (Nbt.string.inj (Source.literal.inj (Source.isText_iff.1 hn)))
      exact ⟨u, hunit.unit, hunit.depth⟩
    have hfill : ∀ i ∈ fillCode c [("array", .addressOf array), ("channel", .text d.key)],
        G.Stays site.depth i := by
      refine stays_fill (S := site.toStanding) ?_
      simp only [List.forall_mem_cons, List.not_mem_nil, false_implies, implies_true, and_true]
      exact ⟨⟨nofun, nofun⟩, nofun, nofun⟩
    simp only [fillCode, List.map_cons, List.map_nil, List.cons_append, List.nil_append,
      List.forall_mem_cons, List.not_mem_nil, false_implies, implies_true, and_true] at hfill ⊢
    exact ⟨hfill.1, hfill.2.1, hround, hfill.2.2, stays_slot (S := site.toStanding) nofun,
      stays_invoke _⟩
  | @answer c d s _ hd _ _ _ =>
    have hfill : ∀ i ∈ fillCode c [("target", .valueOf d), ("source", .addressOf s)],
        G.Stays site.depth i := by
      refine stays_fill (S := site.toStanding) ?_
      simp only [List.forall_mem_cons, List.not_mem_nil, false_implies, implies_true, and_true]
      exact ⟨⟨sees_of_slot hd rfl _, nofun⟩, nofun, nofun⟩
    exact List.forall_mem_append.2 ⟨hfill, hone (stays_invoke _)⟩

/-- The code of a unit refers to units at their depths. -/
theorem Pieces.stays (h : G.Pieces site writes a is b) : ∀ i ∈ is, G.Stays site.depth i := by
  induction h with
  | nil => exact nofun
  | cons his _ ih => exact List.forall_mem_append.2 ⟨his.stays, ih⟩
  | address _ _ hfed _ ih =>
    exact List.forall_mem_cons.2 ⟨stays_slot (S := site.toStanding) nofun,
      List.forall_mem_cons.2 ⟨stays_slot (S := site.toStanding) hfed, ih⟩⟩

end

end Uses

/-! ### Programs -/

section

variable {G : Uses} {p : Program}

theorem ProgramOrderly.stays (hp : ProgramOrderly G p) {unit : String}
    (huse : G.unit unit = some use) {test : Instr → Bool} (h : p.codeHas unit test = true) :
    ∃ i, test i = true ∧ G.Stays use.depth i := by
  obtain ⟨u, hu, hany⟩ := (Option.any_eq_true _ _).1 h
  obtain ⟨i, hi, htest⟩ := List.any_eq_true.1 hany
  obtain ⟨site, b, rfl, _, _, hcode⟩ := hp.units _ (Table.mem_of_find? hu)
  obtain ⟨use', huse', hstanding, _⟩ := hcode.unit
  obtain rfl := Option.some.inj (huse.symm.trans huse')
  exact ⟨i, htest, hstanding ▸ hcode.code.stays i hi⟩

/-- Code inside of so many functions has a use at that depth. -/
theorem Program.Nests.depth (hp : ProgramOrderly G p) {depth : Nat} {unit : String}
    (h : p.Nests depth unit) : ∃ u, G.unit unit = some u ∧ u.depth = depth := by
  induction h with
  | entry => exact ⟨_, hp.entry, rfl⟩
  | declared hf => exact ⟨_, (hp.functions _ hf).2.1, rfl⟩
  | part _ hpart ih =>
    obtain ⟨use, huse, rfl⟩ := ih
    obtain ⟨i, hi, hstays⟩ := hp.stays huse hpart
    exact hstays.enters _ (hp.ns ▸ hi)
  | @made _ _ inner kind _ hmade hkind ih =>
    obtain ⟨outer, houter, rfl⟩ := ih
    obtain ⟨i, hi, hstays⟩ := hp.stays houter hmade
    obtain ⟨name, use, hid, huse, _, hdepth⟩ := hstays.makes inner (hp.ns ▸ hi)
    obtain rfl := functionId_injective hid
    refine ⟨use, huse, hdepth.trans ?_⟩
    obtain ⟨v, hv, rfl⟩ := Option.map_eq_some_iff.1 hkind
    obtain ⟨site, b, hname, _, hsite, hcode⟩ := hp.units _ (Table.mem_of_find? hv)
    obtain ⟨use', huse', _, hkind'⟩ := hcode.unit
    rw [hname] at huse'
    obtain rfl := Option.some.inj (huse.symm.trans huse')
    rw [hkind', hsite]

/-- A slot that a loop declares is not mentioned inside of further functions. -/
theorem UnitKept.spares {unit : String} {u : CodeUnit} {kind : BindingKind} {k : Nat}
    (h : UnitKept G unit u) (huse : G.unit unit = some use)
    (hs : G.slot s = some (.variable_ kind (some k))) (hk : k < use.depth) : u.Spares s := by
  obtain ⟨site, b, rfl, _, _, hcode⟩ := h
  obtain ⟨use', huse', hstanding, _⟩ := hcode.unit
  obtain rfl := Option.some.inj (huse.symm.trans huse')
  refine hcode.code.chunks.mono
    ⟨?_, fun _ => trivial, fun _ _ => trivial, fun _ _ => trivial, fun _ _ => trivial⟩
  rintro _ ⟨use', hslot, hloop⟩ rfl
  obtain rfl := Option.some.inj (hs.symm.trans hslot)
  have hle := hloop k rfl
  rw [hstanding] at hk
  exact absurd hle (Nat.not_le_of_lt hk)

end

/-- A `let` or `const` with a loop of its function around it is noted, with the number of functions
    around it. -/
theorem declareIn_noted {scope : ScopeId} {name : String} {kind : BindingKind} {span : Span}
    {s s' : Compiler} {slot : Slot} (h : Compile.declareIn scope name kind span s = .ok slot s')
    (hloops : 0 < s.context.loops) (hkind : kind = .let_ ∨ kind = .const_) :
    s'.loopBindings.lookup slot = some s.outer.length := by
  cases hdeclare : s.scopes.declare scope name ⟨⟨s.names.slots⟩, kind⟩ with
  | error e =>
    obtain ⟨d, hrun⟩ := Compile.declareIn_run_error span hdeclare
    cases hrun.symm.trans h
  | ok r =>
    cases (Compile.declareIn_run span hdeclare).symm.trans h
    have hloop : s.loopOf kind = some s.outer.length := by
      simp [Compiler.loopOf, hloops, hkind]
    simp [Compiler.declaring, hloop]

/-- Variables that are noted stay in their function: no code inside of more functions than are
    noted for it reads or writes the slot of a variable, or hands out the key of the slot. -/
theorem loop_bindings_stay_inside (ns : String) (texts : List String) {scope : ScopeId}
    {name : String} {b : Binding} {k : Nat}
    (hb : (Compiler.after ns texts).scopes.own? scope name = some b)
    (hnoted : (Compiler.after ns texts).loopBindings.lookup b.slot = some k) {depth : Nat}
    {unit : String} {u : CodeUnit} (hk : k < depth)
    (hnests : (compileSources ns texts).program.Nests depth unit)
    (hu : (compileSources ns texts).program.units.find? unit = some u) : u.Spares b.slot := by
  obtain ⟨G, hp, hs, -⟩ := compileSources_orderly ns texts
  have hslot : G.slot b.slot = some (.variable_ b.kind (some k)) :=
    hnoted ▸ ((hs.orderly ((Compiler.after ns texts).terms True)).own hb).slot
  obtain ⟨use, huse, rfl⟩ := hnests.depth hp
  exact (hp.units _ (Table.mem_of_find? hu)).spares huse hslot hk

end PackScript
