import PackScript.Proofs.Machine.Alarm
import PackScript.Proofs.Machine.Halting
import PackScript.Proofs.Uses.Reached

namespace PackScript

/-!
# Return codes

A unit answers `Instr.normal`, or one of the two codes that tell the unit around it that a `break`
or `return` is on its way. This module says how far those two can get.

* `Run.steps_returns` — instructions answer `normal` or a code that one of them names.
* `Uses.Pieces.allows` — compiled code names only codes that the role of its unit allows.
* `CodeUnit.mayAnswer` — what a unit may answer, by the units around it that are executed.
  `Run.audited`: execution that ends with an error where a unit answers anything else.
* `Uses.Stands` — the role of the innermost unit agrees with the units around it. Units are entered
  so that this is kept.
* `return_codes_stay_inside` — so no answer is ever anything else.
-/

/-! ### Codes that a unit can answer -/

/-- The code that the instruction may end its unit with. -/
def Instr.code? : Instr → Option Int32
  | .returnIf _ code | .returnWith code => some code
  | _ => none

namespace Run

variable {call : Executor} {channel : Option String} {m m' : Machine} {code : Int32}

theorem step_returns {i : Instr} (h : step call channel i m = .ok (some code) m') :
    i.code? = some code := by
  cases i with
  | set guard target source =>
    rw [step_set] at h
    split at h
    · obtain ⟨_, _, _, h⟩ := bind_eq_ok h
      cases h
    · cases h
  | append target source =>
    rw [step_append] at h
    split at h
    · obtain ⟨_, _, _, h⟩ := bind_eq_ok h
      cases h
    · cases h
  | invoke guard target args store =>
    rw [step_invoke] at h
    split at h
    · obtain ⟨_, _, _, h⟩ := bind_eq_ok h
      obtain ⟨_, _, _, h⟩ := bind_eq_ok h
      cases h
    · cases h
  | returnIf guard c =>
    rw [step_returnIf] at h
    split at h
    · cases h
      rfl
    · cases h
  | returnWith c =>
    cases h
    rfl
  | raw text => cases h

/-- Instructions answer `normal` or a code that one of them names. -/
theorem steps_returns {is : List Instr} (h : steps call channel is m = .ok code m') :
    code = Instr.normal ∨ ∃ i ∈ is, i.code? = some code := by
  induction is generalizing m with
  | nil =>
    cases h
    exact .inl rfl
  | cons i rest ih =>
    rw [steps_cons] at h
    split at h
    · next hstep =>
      cases h
      exact .inr ⟨i, List.mem_cons_self, step_returns hstep⟩
    · refine (ih h).imp_right fun ⟨j, hj, hreturns⟩ => ?_
      exact ⟨j, List.mem_cons_of_mem i hj, hreturns⟩
    · cases h

end Run

/-! ### Codes of compiled code -/

section

variable {G : Uses} {site : Site} {writes : Slot → Prop} {a b : Option Slot} {is : List Instr}
  {i : Instr} {code : Int32}

theorem Uses.Piece.allows (h : G.Piece site writes a is) (hmem : i ∈ is)
    (hi : i.code? = some code) : site.role.Allows code := by
  cases i with
  | returnIf guard c =>
    cases hi
    cases h with
    | returnIf _ hcode =>
      cases List.mem_singleton.1 hmem
      exact hcode
    | _ => simp [fillCode] at hmem
  | returnWith c =>
    cases hi
    cases h with
    | returnWith hcode =>
      cases List.mem_singleton.1 hmem
      exact hcode
    | _ => simp [fillCode] at hmem
  | _ => cases hi

/-- Compiled code names only codes that the role of its unit allows. -/
theorem Uses.Pieces.allows (h : G.Pieces site writes a is b) (hmem : i ∈ is)
    (hi : i.code? = some code) : site.role.Allows code := by
  induction h with
  | nil => cases hmem
  | cons hpiece _ ih =>
    rcases List.mem_append.1 hmem with hmem | hmem
    · exact hpiece.allows hmem hi
    · exact ih hmem
  | address _ _ _ _ ih =>
    rcases List.mem_cons.1 hmem with rfl | hmem
    · cases hi
    · rcases List.mem_cons.1 hmem with rfl | hmem
      · cases hi
      · exact ih hmem

end

/-! ### Where units stand -/

namespace CodeUnit

/-- The innermost of the units is a piece of a function, not of the script. A part is a piece of
    what the unit around it is a piece of. -/
def inFunction : List CodeUnit → Bool
  | [] => false
  | u :: around => if u.info.kind.isPart then inFunction around else u.info.kind != .script

/-- The innermost of the units is a loop or a case of a switch, or stands inside of one that is a
    piece of the same function. -/
def inLoop : List CodeUnit → Bool
  | [] => false
  | u :: around => u.info.kind.isPart && (u.info.kind.takesBreak || inLoop around)

/-- The innermost of the units may answer the code. The script, bodies of functions, what follows an
    `await` and expressions answer `normal` only. Blocks, loops and cases may also answer the code
    of `return` if they stand in a function, and that of `break` if they stand in a loop or switch
    of it. -/
def mayAnswer : List CodeUnit → Int32 → Bool
  | [], code => code = Instr.normal
  | u :: around, code => code = Instr.normal ||
    ([UnitKind.block, .loop, .case].contains u.info.kind &&
      (code = Instr.returnCode && inFunction (u :: around) ||
        code = Instr.breakCode && inLoop (u :: around)))

end CodeUnit

namespace Run

/-- Executes a unit inside of others, and judges what each unit answers. The run ends with the error
    where a unit answers what it may not. -/
def audited (e : MachineError) : Nat → List CodeUnit → Executor
  | 0, _, name, _ => do
    let _ ← findUnit name
    throw (.depthExceeded (← get).maxDepth)
  | levels + 1, around, name, channel => do
    let u ← findUnit name
    let code ← deeper (steps (audited e levels (u :: around)) channel u.instrs)
    if CodeUnit.mayAnswer (u :: around) code then return code else throw e

/-- Executes a unit from outside of all units, and judges what each unit answers. -/
def auditedFromHost (e : MachineError) : Executor := fun name channel => do
  audited e (← get).maxDepth [] name channel

end Run

/-- The units of the frames. -/
def Program.unitsOf? (p : Program) (frames : List Frame) : Option (List CodeUnit) :=
  frames.mapM fun f => p.units.find? f.unit

theorem Program.unitsOf?_cons {p : Program} {f : Frame} {frames : List Frame}
    {units : List CodeUnit} : p.unitsOf? (f :: frames) = some units ↔
      ∃ u around, p.units.find? f.unit = some u ∧ p.unitsOf? frames = some around ∧
        units = u :: around := by
  simp only [unitsOf?, List.mapM_cons, Option.bind_eq_bind, Option.bind_eq_some_iff,
    Option.pure_def, Option.some.injEq]
  constructor
  · rintro ⟨u, hu, around, haround, rfl⟩
    exact ⟨u, around, hu, haround, rfl⟩
  · rintro ⟨u, around, hu, haround, rfl⟩
    exact ⟨u, hu, around, haround, rfl⟩

/-- Ends a run where a unit has an instruction that names a code which the unit may not answer. -/
def Check.leaking (p : Program) (e : MachineError) : Check := fun frames _ _ =>
  match p.unitsOf? frames with
  | some (u :: around) =>
    if u.instrs.all fun i => i.code?.all (CodeUnit.mayAnswer (u :: around)) then none else some e
  | _ => none

theorem Check.leaking_raises (p : Program) (e : MachineError) : (Check.leaking p e).Raises e := by
  intro frames is m e' h
  unfold leaking at h
  split at h
  · split at h
    · cases h
    · exact (Option.some.inj h).symm
  · cases h

/-! ### Runs that are audited -/

namespace Run

variable {α β : Type} {p : Program} {e : MachineError}

/-- With a program, the first run is the second one and leaves the program as it is, unless it ends
    with the error. -/
def SameOf (p : Program) (e : MachineError) (c c' : Run α) : Prop :=
  ∀ m, m.program = p →
    (c m = c' m ∧ (final (c m)).program = p) ∨ ∃ m', c m = .error e m'

namespace SameOf

theorem of_agrees {c c' : Run α} (h : ∀ b, Agrees True b c c') : SameOf p e c c' := by
  intro m hm
  obtain ⟨hsame, hbounds, _⟩ := h m.bounds m rfl
  exact .inl ⟨hsame, (congrArg Prod.fst hbounds).trans hm⟩

theorem bind {c c' : Run α} {f f' : α → Run β} (h : SameOf p e c c')
    (hf : ∀ a, SameOf p e (f a) (f' a)) : SameOf p e (c >>= f) (c' >>= f') := by
  intro m hm
  rcases h m hm with ⟨hsame, hprogram⟩ | ⟨m', hends⟩
  · cases hc : c m with
    | ok a m1 =>
      rw [hc] at hprogram
      rw [bind_of_ok hc, bind_of_ok (hsame.symm.trans hc)]
      exact hf a m1 hprogram
    | error e' m1 =>
      rw [hc] at hprogram
      rw [bind_of_error hc, bind_of_error (hsame.symm.trans hc)]
      exact .inl ⟨rfl, hprogram⟩
  · exact .inr ⟨m', bind_of_error hends⟩

theorem deeper {c c' : Run α} (h : SameOf p e c c') :
    SameOf p e (Run.deeper c) (Run.deeper c') := by
  intro m hm
  unfold Run.deeper
  rcases h { m with depth := m.depth + 1 } hm with ⟨hsame, hprogram⟩ | ⟨m', hends⟩
  · left
    rw [← hsame]
    cases hc : c { m with depth := m.depth + 1 } with
    | ok a m1 =>
      rw [hc] at hprogram
      exact ⟨rfl, hprogram⟩
    | error e' m1 =>
      rw [hc] at hprogram
      exact ⟨rfl, hprogram⟩
  · rw [hends]
    exact .inr ⟨_, rfl⟩

end SameOf

theorem pairwise_sameOf : Pairwise (SameOf p e) where
  bind := .bind
  look h := .of_agrees fun _ => .look h
  write st path value := .of_agrees fun _ => .write st path value
  append path value := .of_agrees fun _ => .append .heap path value
  alone call a _ hr := .of_agrees fun _ => pairwise_agrees.alone call a hr
  clock _ _ hf m hm := hf m _ hm

theorem step_sameOf {call call' : Executor}
    (hcall : ∀ name channel, SameOf p e (call name channel) (call' name channel))
    (channel : Option String) (i : Instr) :
    SameOf p e (step call channel i) (step call' channel i) := by
  have hquiet : ∀ b, Agrees True b (step (fun _ _ => pure 0) channel i)
      (step (fun _ _ => pure 0) channel i) := fun _ =>
    step_agrees (fun _ _ => .pure _) channel fun _ => trivial
  cases i with
  | invoke guard callee args store =>
    refine pairwise_sameOf.get fun m => ?_
    dsimp only
    split
    · refine SameOf.bind ?_ fun code => .of_agrees fun _ => ?_
      · cases callee with
        | unit name => exact hcall name _
        | library r =>
          refine pairwise_sameOf.get fun m => pairwise_sameOf.routine hcall fun _ => ?_
          exact pairwise_sameOf.loopArrayRoutine hcall
            (.of_agrees fun _ _ hm => ⟨rfl, hm, fun _ => trivial⟩)
      · cases store with
        | none => exact .pure _
        | some place => exact (Agrees.write _ _ _).bind fun _ => .pure _
    · exact pairwise_sameOf.pure _
  | _ => exact .of_agrees hquiet

/-- A check that raises one error does nothing, unless it raises the error. -/
theorem stopIf_sameOf {check : Machine → Option MachineError} {c c' : Run α}
    (hcheck : ∀ m e', check m = some e' → e' = e) (h : SameOf p e c c') :
    SameOf p e (stopIf check >>= fun _ => c) c' := by
  intro m hm
  rcases stopIf_sameUnless hcheck (.refl c) m with hsame | hends
  · rw [hsame]
    exact h m hm
  · exact .inr hends

theorem checkedSteps_sameOf {check : List Instr → Machine → Option MachineError}
    {call : Bool → Executor} {call' : Executor}
    (hcheck : ∀ is m e', check is m = some e' → e' = e)
    (hcall : ∀ direct name channel, SameOf p e (call direct name channel) (call' name channel))
    (channel : Option String) (is : List Instr) :
    SameOf p e (checkedSteps check call channel is) (steps call' channel is) := by
  induction is with
  | nil => exact stopIf_sameOf (hcheck []) (pairwise_sameOf.pure _)
  | cons i rest ih =>
    refine stopIf_sameOf (hcheck (i :: rest)) ?_
    refine (step_sameOf (hcall i.isDirect) channel i).bind fun code => ?_
    cases code with
    | none => exact ih
    | some code => exact pairwise_sameOf.pure _

/-- A check that ends every run of a unit ends it before its first instruction. -/
theorem checkedSteps_ends {check : List Instr → Machine → Option MachineError}
    (h : ∀ is m, check is m = some e) (call : Bool → Executor) (channel : Option String)
    (is : List Instr) (m : Machine) : ∃ m', checkedSteps check call channel is m = .error e m' := by
  have hstop : ∀ is, stopIf (check is) m = .error e m := fun is => by
    refine (bind_of_ok rfl).trans ?_
    rw [h]
    rfl
  cases is with
  | nil => exact ⟨m, bind_of_error (hstop [])⟩
  | cons i rest => exact ⟨m, bind_of_error (hstop (i :: rest))⟩

theorem eq_ok_of_deeper {c : Run α} {m m' : Machine} {a : α} (h : deeper c m = .ok a m') :
    ∃ m1, c { m with depth := m.depth + 1 } = .ok a m1 := by
  unfold deeper at h
  split at h
  · next hc =>
    cases h
    exact ⟨_, hc⟩
  · cases h

/-- Where the units name no codes that they may not answer, they do not answer such codes. -/
theorem checked_audited (e' : MachineError) (levels : Nat) {frames : List Frame}
    {around : List CodeUnit} (hframes : p.unitsOf? frames = some around) (direct : Bool)
    (name : String) (channel : Option String) :
    SameOf p e (checked (.leaking p e) levels frames direct name channel)
      (audited e' levels around name channel) := by
  induction levels generalizing frames around direct name channel with
  | zero =>
    refine SameOf.bind (pairwise_sameOf.look fun _ => findUnit_looks) fun _ => ?_
    exact pairwise_sameOf.get fun m => .of_agrees fun _ _ hm => ⟨rfl, hm, fun _ => trivial⟩
  | succ levels ih =>
    intro m hm
    cases hu : m.program.units.find? name with
    | none =>
      have hfind : findUnit name m = .error (.unknownUnit name) m := by rw [findUnit_run, hu]
      exact .inl ⟨(bind_of_error hfind).trans (bind_of_error hfind).symm,
        (congrArg (Machine.program ∘ final) (bind_of_error hfind)).trans hm⟩
    | some u =>
      have hfind : findUnit name m = .ok u m := by rw [findUnit_run, hu]
      have hinside : p.unitsOf? (⟨name, direct⟩ :: frames) = some (u :: around) :=
        Program.unitsOf?_cons.2 ⟨u, around, hm ▸ hu, hframes, rfl⟩
      have hsame := (checkedSteps_sameOf (Check.leaking_raises p e (⟨name, direct⟩ :: frames))
        (ih hinside) channel u.instrs).deeper m hm
      rw [show checked (.leaking p e) (levels + 1) frames direct name channel m = _ from
        bind_of_ok hfind, show audited e' (levels + 1) around name channel m = _ from
        bind_of_ok hfind]
      rcases hsame with ⟨hsame, hprogram⟩ | hends
      · refine .inl ⟨?_, hprogram⟩
        cases hc : deeper (steps (audited e' levels (u :: around)) channel u.instrs) m with
        | error e₁ m1 => rw [hsame, hc, bind_of_error hc]
        | ok code m1 =>
          have hmay : CodeUnit.mayAnswer (u :: around) code = true := by
            obtain ⟨_, hsteps⟩ := eq_ok_of_deeper hc
            rcases steps_returns hsteps with rfl | ⟨i, hi, hcode⟩
            · simp [CodeUnit.mayAnswer]
            · by_contra hnot
              -- the check sees the instruction before the unit runs
              have hleaks : ∀ is m, Check.leaking p e (⟨name, direct⟩ :: frames) is m = some e := by
                intro is m
                unfold Check.leaking
                rw [hinside]
                refine if_neg fun hall => hnot ?_
                simpa [hcode] using List.all_eq_true.1 hall i hi
              obtain ⟨_, hchecked⟩ := eq_ok_of_deeper (hsame.trans hc)
              obtain ⟨_, hends⟩ := checkedSteps_ends hleaks _ channel u.instrs _
              cases hends.symm.trans hchecked
          rw [hsame, hc, bind_of_ok hc, if_pos hmay]
          rfl
      · exact .inr hends

theorem watched_audited (e' : MachineError) (name : String) (channel : Option String) :
    SameOf p e (watched (.leaking p e) name channel) (auditedFromHost e' name channel) :=
  pairwise_sameOf.get fun m => checked_audited e' m.maxDepth rfl false name channel

end Run

/-! ### Units that are entered -/

section

variable {G : Uses} {p : Program} {name : String} {f : Frame} {frames : List Frame}

/-- The role of a unit, by its use. -/
def Uses.role (G : Uses) (name : String) : Option UnitRole :=
  (G.unit name).map UnitUse.role

/-- The code of a unit, and the role that the unit has by its kind. -/
theorem ProgramOrderly.unit (h : ProgramOrderly G p) {u : CodeUnit}
    (hu : p.units.find? name = some u) : ∃ site e, G.role name = some site.role ∧
      site.kind = u.info.kind ∧ site.Fixed ∧
      G.Pieces site (fun _ => True) site.home u.instrs e := by
  obtain ⟨site, e, rfl, _, hkind, hcode⟩ := h.units _ (Table.mem_of_find? hu)
  obtain ⟨use, huse, hstanding, hunit⟩ := hcode.unit
  refine ⟨site, e, ?_, hkind, hcode.fixed, hcode.code⟩
  simp [Uses.role, huse, UnitUse.role, Site.role, hstanding, hunit]

/-- The innermost unit stands where its role says, by the units around it. -/
def Uses.Stands (G : Uses) (p : Program) : List Frame → Prop
  | [] => True
  | f :: frames => ∀ units r, p.unitsOf? (f :: frames) = some units → G.role f.unit = some r →
    (r.ofFunction = true → CodeUnit.inFunction units = true) ∧
      (r.breakable = true → CodeUnit.inLoop units = true)

/-- A function stands in itself, whatever it is called from. -/
theorem ProgramOrderly.stands_of_called (h : ProgramOrderly G p) (hname : G.IsCalled name)
    {direct : Bool} : G.Stands p (⟨name, direct⟩ :: frames) := by
  intro units r hunits hr
  obtain ⟨u, around, hu, _, rfl⟩ := Program.unitsOf?_cons.1 hunits
  obtain ⟨use, huse, hpart, _⟩ := hname
  obtain ⟨site, _, hrole, hkind, hfixed, _⟩ := h.unit hu
  obtain rfl := Option.some.inj (hrole.symm.trans hr)
  have hnone : site.kind.isPart = false := by
    rw [Uses.role, huse, Option.map_some] at hrole
    exact (congrArg (UnitKind.isPart ∘ UnitRole.kind) (Option.some.inj hrole)).symm.trans hpart
  obtain ⟨_, hbreakable, hdepth, _⟩ := hfixed hnone
  rw [hkind] at hnone hdepth
  constructor
  · intro hfunction
    have hscript : u.info.kind ≠ .script := fun hk => by
      simp [Site.role, hdepth.2 hk] at hfunction
    simp [CodeUnit.inFunction, hnone, hscript]
  · intro hbreak
    cases hbreakable.symm.trans hbreak

/-- A part stands where the unit stands that it is entered from. -/
theorem ProgramOrderly.stands_of_entered (h : ProgramOrderly G p) (hf : G.Stands p (f :: frames))
    (henters : G.Enters f.unit name) : G.Stands p (⟨name, true⟩ :: f :: frames) := by
  obtain ⟨_, _, ⟨part, hunit, hpart, _, outer, houter, hroles⟩ | ⟨hcalled, _⟩⟩ := henters
  · intro units r hunits hr
    obtain ⟨u, around, hu, haround, rfl⟩ := Program.unitsOf?_cons.1 hunits
    obtain ⟨site, _, hrole, hkind, _⟩ := h.unit hu
    obtain rfl := Option.some.inj (hrole.symm.trans hr)
    have hsite : part.role = site.role := by
      rw [Uses.role, hunit] at hrole
      exact Option.some.inj hrole
    rw [hsite] at hroles
    have hisPart : u.info.kind.isPart = true := by
      rw [← hkind, ← hpart]
      exact (congrArg (UnitKind.isPart ∘ UnitRole.kind) hsite).symm
    obtain ⟨hfunction, hloop⟩ := hf around outer.role haround (by rw [Uses.role, houter]; rfl)
    refine ⟨fun hof => ?_, fun hbreak => ?_⟩
    · rw [CodeUnit.inFunction, if_pos hisPart]
      exact hfunction (hroles.ofFunction ▸ hof)
    · rw [CodeUnit.inLoop, hisPart, Bool.true_and, Bool.or_eq_true, ← hkind]
      exact (hroles.breakable hbreak).imp id hloop
  · exact h.stands_of_called hcalled

/-- A code that the role of a unit allows may be answered where the unit stands. -/
theorem UnitRole.Allows.mayAnswer {r : UnitRole} {code : Int32} {u : CodeUnit}
    {around : List CodeUnit} (h : r.Allows code) (hkind : r.kind = u.info.kind)
    (hfunction : r.ofFunction = true → CodeUnit.inFunction (u :: around) = true)
    (hloop : r.breakable = true → CodeUnit.inLoop (u :: around) = true) :
    CodeUnit.mayAnswer (u :: around) code = true := by
  rcases h with rfl | ⟨hpart, hexpr, hcode⟩
  · simp [CodeUnit.mayAnswer]
  · have hplace : [UnitKind.block, .loop, .case].contains u.info.kind = true := by
      rw [hkind] at hpart hexpr
      cases hk : u.info.kind <;> simp_all [UnitKind.isPart]
    rcases hcode with ⟨rfl, hbreak⟩ | ⟨rfl, hof⟩
    · rw [CodeUnit.mayAnswer, hplace, hloop hbreak]
      simp
    · rw [CodeUnit.mayAnswer, hplace, hfunction hof]
      simp

/-- Units that stand where their roles say name no codes that they may not answer. -/
theorem ProgramOrderly.leaking_quiet (h : ProgramOrderly G p) (hframes : G.Stands p frames)
    (e : MachineError) (is : List Instr) (m : Machine) :
    Check.leaking p e frames is m = none := by
  unfold Check.leaking
  split
  · next u around hunits =>
    refine if_pos (List.all_eq_true.2 fun i hi => ?_)
    cases frames with
    | nil => cases hunits
    | cons f frames =>
      obtain ⟨_, _, hu, _, heq⟩ := Program.unitsOf?_cons.1 hunits
      cases heq
      obtain ⟨site, _, hrole, hkind, _, hcode⟩ := h.unit hu
      obtain ⟨hfunction, hloop⟩ := hframes _ _ hunits hrole
      cases hreturns : i.code? with
      | none => rfl
      | some code => exact (hcode.allows hi hreturns).mayAnswer hkind hfunction hloop
  · rfl

end

/-- **Return codes stay inside.** In every run of a compiled program, each unit answers only what it
    may: a run that ends with an error where a unit answers anything else is the run itself,
    whatever the error is. Bodies of functions, the script, what follows an `await` and expressions
    answer `normal`; blocks, loops and cases may also answer the codes of `return` and `break`, but
    `return` only inside of a function and `break` only inside of a loop or switch of the same
    function. -/
theorem return_codes_stay_inside (ns : String) (texts : List String) (maxDepth : Nat)
    (before : List HostStep) (step : HostStep) (e : MachineError) :
    step.runBy (Run.auditedFromHost e)
        (before.foldl Machine.after (.start (compileSources ns texts).program maxDepth)) =
      step.run
        (before.foldl Machine.after (.start (compileSources ns texts).program maxDepth)) := by
  obtain ⟨G, hp, _⟩ := compileSources_orderly ns texts
  generalize (compileSources ns texts).program = p at *
  obtain ⟨hprogram, hquiet⟩ := step.runBy_ne_alarm
    (.leaking p (.depthExceeded (maxDepth + 1))) (G.Stands p)
    (fun _ _ _ hname => hp.stands_of_called hname) (fun _ _ _ => hp.stands_of_entered)
    (fun _ is m hframes => hp.leaking_quiet hframes _ is m) hp trivial maxDepth before
  have haudited : Run.SameOf p (.depthExceeded (maxDepth + 1)) (step.runBy (Run.watched _)) _ :=
    Run.pairwise_sameOf.runBy (Run.watched_audited e) step
  have hwatched := step.runBy_sameUnless (Check.leaking_raises p (.depthExceeded (maxDepth + 1)))
    (before.foldl Machine.after (.start p maxDepth))
  exact ((haudited _ hprogram).resolve_right hquiet).1.symm.trans (hwatched.resolve_right hquiet)

/-- A script that answers the code of `break` is found out. -/
example :
    Run.error? (HostStep.entry.runBy (Run.auditedFromHost .endlessLoop) (.start
      { (compileSources "pack" []).program with
        units := [("main", ⟨"main", ⟨.script, false, none, none, []⟩,
          [.returnWith Instr.breakCode]⟩)]
        entry := "main" } 1)) = some .endlessLoop := by
  decide +kernel

end PackScript
