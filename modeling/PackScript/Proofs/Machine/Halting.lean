import PackScript.Compile.Script
import PackScript.Proofs.Machine.Leaves

namespace PackScript

/-!
# Execution ends

`Run.execute` is told how many calls may be inside of each other. A machine is not: it counts the
calls that it is inside of, and a call fails where the count has reached the limit. `Run.counted`
executes units this way. Since units call each other, and themselves, without restriction, it is
evaluated to a number of nested calls only; an evaluation that is given up has the error of a loop
without end.

* `Run.Agrees` — two runs are the same one, which leaves the program, the limit and the count as
  they are, and ends unless there may be loops over arrays.
* `Run.counted_agrees` — execution by the count is execution by levels if the evaluation covers the
  levels.
* `host_steps_end` — no step from outside is given up, unless the program loops over arrays.
-/

/-- The instruction loops over an array. -/
def Instr.loopsOverArray : Instr → Bool
  | .invoke _ (.library .loopArray) _ _ => true
  | _ => false

/-- A unit of the program loops over an array. -/
def Program.loopsOverArrays (p : Program) : Bool :=
  p.units.any fun e => e.2.instrs.any Instr.loopsOverArray

/-- What decides how deep calls can be inside of each other. -/
def Machine.bounds (m : Machine) : Program × Nat × Nat :=
  (m.program, m.maxDepth, m.depth)

namespace Run

/-- Executes a unit unless the machine is inside of as many calls as it may be. The evaluation is
    given up after a number of calls inside of each other. -/
def counted : Nat → Executor
  | 0, _, _ => throw .endlessLoop
  | calls + 1, name, channel => do
    let u ← findUnit name
    let m ← get
    if m.maxDepth ≤ m.depth then throw (.depthExceeded m.maxDepth)
    else deeper (steps (counted calls) channel u.instrs)

variable {α β : Type} {p : Program} {limit depth : Nat} {b : Program × Nat × Nat} {loops : Prop}

/-- Both runs are the same one, which leaves the bounds of the machine as they are, and ends unless
    there may be loops over arrays. -/
def Agrees (loops : Prop) (b : Program × Nat × Nat) (c c' : Run α) : Prop :=
  ∀ m, m.bounds = b →
    c m = c' m ∧ (final (c m)).bounds = b ∧ (error? (c m) = some .endlessLoop → loops)

namespace Agrees

theorem bind {c c' : Run α} {f f' : α → Run β} (h : Agrees loops b c c')
    (hf : ∀ a, Agrees loops b (f a) (f' a)) : Agrees loops b (c >>= f) (c' >>= f') := by
  intro m hm
  obtain ⟨hsame, hbounds, hends⟩ := h m hm
  cases hc : c m with
  | ok a m₁ =>
    rw [hc] at hbounds
    rw [bind_of_ok hc, bind_of_ok (hsame.symm.trans hc)]
    exact hf a m₁ hbounds
  | error e m₁ =>
    rw [hc] at hbounds hends
    rw [bind_of_error hc, bind_of_error (hsame.symm.trans hc)]
    exact ⟨rfl, hbounds, hends⟩

/-- A run that looks at the machine. -/
theorem look {c : Run α} {Q : Machine → α → Prop} (h : ∀ m, Looks m c (Q m)) :
    Agrees loops b c c := by
  intro m hm
  have hlooks := h m
  unfold Looks at hlooks
  cases hc : c m with
  | ok a m' =>
    rw [hc] at hlooks
    exact ⟨rfl, hlooks.1 ▸ hm, nofun⟩
  | error e m' =>
    rw [hc] at hlooks
    refine ⟨rfl, hlooks.1 ▸ hm, fun he => ?_⟩
    cases he
    exact absurd hlooks.2 id

theorem pure (a : α) : Agrees loops b (Pure.pure a) (Pure.pure a) :=
  fun _ hm => ⟨rfl, hm, nofun⟩

theorem get {f f' : Machine → Run β} (hf : ∀ m, m.bounds = b → Agrees loops b (f m) (f' m)) :
    Agrees loops b (MonadState.get >>= f) (MonadState.get >>= f') :=
  fun m hm => hf m hm m hm

theorem modify {f : Machine → Machine} (hf : ∀ m, (f m).bounds = m.bounds) :
    Agrees loops b (modifyGet fun m => (PUnit.unit, f m) : Run PUnit)
      (modifyGet fun m => (.unit, f m)) :=
  fun m hm => ⟨rfl, (hf m).trans hm, nofun⟩

theorem write (st : Storage) (path : List String) (value : Nbt) :
    Agrees loops b (Run.write st path value) (Run.write st path value) := by
  intro m hm
  rw [write_run]
  cases (m.storage st).setPath path value with
  | none => exact ⟨rfl, hm, nofun⟩
  | some tree =>
    refine ⟨rfl, ?_, nofun⟩
    cases st <;> exact hm

theorem append (st : Storage) (path : List String) (value : Nbt) :
    Agrees loops b (Run.append st path value) (Run.append st path value) := by
  intro m hm
  rw [append_run]
  cases (m.storage st).appendPath path value with
  | none => exact ⟨rfl, hm, nofun⟩
  | some tree =>
    refine ⟨rfl, ?_, nofun⟩
    cases st <;> exact hm

/-- The count is the old one after a call. -/
theorem deeper {c c' : Run α} (h : Agrees loops (p, limit, depth + 1) c c') :
    Agrees loops (p, limit, depth) (Run.deeper c) (Run.deeper c') := by
  intro m hm
  obtain ⟨rfl, rfl, rfl⟩ : m.program = p ∧ m.maxDepth = limit ∧ m.depth = depth := by
    simpa [Machine.bounds] using hm
  obtain ⟨hsame, hbounds, hends⟩ := h { m with depth := m.depth + 1 } rfl
  unfold Run.deeper
  rw [← hsame]
  refine ⟨rfl, ?_⟩
  cases hc : c { m with depth := m.depth + 1 } with
  | ok a m' =>
    rw [hc] at hbounds
    simp_all [final, Machine.bounds, error?]
  | error e m' =>
    rw [hc] at hbounds hends
    simp_all [final, Machine.bounds, error?]

end Agrees

theorem stepwise_agrees : Stepwise fun c => Agrees loops b c c where
  bind := .bind
  look := .look
  slot := fun key value => .write .slots [key] value
  heap := .write .heap
  record := fun _ hm => ⟨rfl, hm, nofun⟩
  command := fun _ => .modify fun _ => rfl

/-! ### Routines -/

theorem scheduleRoutine_agrees (a : Args) :
    Agrees loops b (scheduleRoutine a) (scheduleRoutine a) := by
  refine stepwise_agrees.slotArgument.bind fun function => ?_
  refine stepwise_agrees.scalarArgument.bind fun ticks => ?_
  split
  · exact .pure _
  · exact (Agrees.look fun _ => unitOf_looks).bind fun _ => .get fun _ _ => .modify fun _ => rfl

theorem pairwise_agrees : Pairwise (Agrees loops b) where
  bind := .bind
  look := .look
  write := .write
  append := .append .heap
  alone call a r hr := by
    by_cases hschedule : r = .schedule
    · rw [hschedule]
      exact (scheduleRoutine_agrees a).bind fun _ => .pure _
    · exact stepwise_agrees.routine call hr hschedule
  clock _ _ hf m hm := hf m _ hm

/-! ### Units -/

section

variable {call call' : Executor}
  (hcall : ∀ name channel, Agrees loops b (call name channel) (call' name channel))

include hcall

theorem step_agrees (channel : Option String) {i : Instr} (hi : i.loopsOverArray = true → loops) :
    Agrees loops b (step call channel i) (step call' channel i) := by
  cases i with
  | set guard target source =>
    refine .get fun m _ => ?_
    dsimp only
    split
    · cases m.take channel source with
      | none => exact .pure _
      | some value => exact (Agrees.write _ _ _).bind fun _ => .pure _
    · exact .pure _
  | append target source =>
    refine .get fun m _ => ?_
    cases m.take channel source with
    | none => exact .pure _
    | some value => exact (Agrees.append _ _ _).bind fun _ => .pure _
  | invoke guard callee args store =>
    refine .get fun m _ => ?_
    dsimp only
    split
    · have hcallee : Agrees loops b (Run.callee call (args.map (·.key)) callee)
          (Run.callee call' (args.map (·.key)) callee) := by
        cases callee with
        | unit name => exact hcall name _
        | library r =>
          refine .get fun m _ => pairwise_agrees.routine hcall fun hr => ?_
          subst hr
          exact pairwise_agrees.loopArrayRoutine hcall fun _ hm => ⟨rfl, hm, fun _ => hi rfl⟩
      refine hcallee.bind fun code => ?_
      cases store with
      | none => exact .pure _
      | some place => exact (Agrees.write _ _ _).bind fun _ => .pure _
    · exact .pure _
  | returnIf guard code => exact .get fun m _ => .pure _
  | returnWith code => exact .pure _
  | raw text => exact (stepwise_agrees.command text).bind fun _ => .pure _

theorem steps_agree (channel : Option String) {is : List Instr}
    (his : is.any Instr.loopsOverArray = true → loops) :
    Agrees loops b (steps call channel is) (steps call' channel is) := by
  induction is with
  | nil => exact .pure _
  | cons i rest ih =>
    have hi : i.loopsOverArray = true → loops := fun h => his (by simp [h])
    refine (step_agrees hcall channel hi).bind fun code => ?_
    cases code with
    | none => exact ih fun h => his (by rw [List.any_cons, h, Bool.or_true])
    | some code => exact .pure _

end

theorem counted_succ {m : Machine} {calls : Nat} {name : String} {channel : Option String}
    {u : CodeUnit} (hu : m.program.units.find? name = some u) :
    counted (calls + 1) name channel m =
      if m.maxDepth ≤ m.depth then .error (.depthExceeded m.maxDepth) m
      else deeper (steps (counted calls) channel u.instrs) m := by
  have hfind : findUnit name m = .ok u m := by rw [findUnit_run, hu]
  rw [counted, bind_of_ok hfind]
  refine (bind_of_ok rfl).trans ?_
  split <;> rfl

theorem counted_missing {m : Machine} {calls : Nat} {name : String} {channel : Option String}
    (hu : m.program.units.find? name = none) :
    counted (calls + 1) name channel m = .error (.unknownUnit name) m := by
  have hfind : findUnit name m = .error (.unknownUnit name) m := by rw [findUnit_run, hu]
  exact bind_of_error hfind

/-- The count leaves as many levels as it is below the limit. -/
theorem counted_agrees (hp : p.loopsOverArrays = true → loops) {calls : Nat}
    (hcalls : limit - depth < calls)
    (name : String) (channel : Option String) :
    Agrees loops (p, limit, depth) (counted calls name channel)
      (execute (limit - depth) name channel) := by
  -- each call takes one of the levels that are left
  induction calls generalizing depth name channel with
  | zero => exact absurd hcalls (Nat.not_lt_zero _)
  | succ calls ih =>
    intro m hm
    obtain ⟨rfl, rfl, rfl⟩ : m.program = p ∧ m.maxDepth = limit ∧ m.depth = depth := by
      simpa [Machine.bounds] using hm
    cases hu : m.program.units.find? name with
    | none =>
      rw [execute_missing hu, counted_missing hu]
      exact ⟨rfl, rfl, nofun⟩
    | some u =>
      rw [counted_succ hu]
      by_cases hdeep : m.maxDepth ≤ m.depth
      · rw [if_pos hdeep, Nat.sub_eq_zero_of_le hdeep, execute_zero hu]
        exact ⟨rfl, rfl, nofun⟩
      · obtain ⟨levels, hlevels⟩ : ∃ levels, m.maxDepth - m.depth = levels + 1 :=
          ⟨m.maxDepth - m.depth - 1, by omega⟩
        have hloops : u.instrs.any Instr.loopsOverArray = true → loops := fun h =>
          hp (List.any_eq_true.2 ⟨_, Table.mem_of_find? hu, h⟩)
        have hinner : ∀ name channel, Agrees loops (m.program, m.maxDepth, m.depth + 1)
            (counted calls name channel) (execute levels name channel) := by
          have hleft : m.maxDepth - (m.depth + 1) = levels := by omega
          exact hleft ▸ ih (by omega)
        rw [if_neg hdeep, hlevels, execute_succ hu]
        exact (steps_agree hinner channel hloops).deeper m rfl

/-- From outside of all units, all levels are left. -/
theorem counted_agrees_fromHost (hp : p.loopsOverArrays = true → loops) {calls : Nat}
    (hcalls : limit < calls) (name : String) (channel : Option String) :
    Agrees loops (p, limit, 0) (counted calls name channel) (fromHost name channel) := by
  intro m hm
  have hlimit : m.maxDepth = limit := congrArg (·.2.1) hm
  have hhost : fromHost name channel m = execute limit name channel m := by
    rw [← hlimit]
    rfl
  rw [hhost]
  exact counted_agrees hp hcalls name channel m hm

end Run

/-! ### Steps from outside -/

/-- Every step from outside ends, in the same way however far evaluation would go on, and the
    machine has the same program, limit and count as before. The units of the program may call each
    other without restriction, but may not loop over arrays. -/
theorem host_steps_end (m : Machine) (step : HostStep)
    (hloops : m.program.loopsOverArrays = false) :
    ∃ r, Run.error? r ≠ some .endlessLoop ∧ (Run.final r).bounds = m.bounds ∧
      (∀ calls, m.maxDepth < calls → step.runBy (Run.counted calls) m = r) ∧
      (m.depth = 0 → step.run m = r) := by
  have hloops : m.program.loopsOverArrays = true → False := by simp [hloops]
  have hagrees : ∀ calls, m.maxDepth < calls → Run.Agrees False m.bounds
      (step.runBy (Run.counted calls)) (step.runBy (Run.execute (m.maxDepth - m.depth))) :=
    fun calls hcalls => Run.pairwise_agrees.runBy (Run.counted_agrees hloops (by omega)) step
  obtain ⟨hsame, hbounds, hends⟩ := hagrees (m.maxDepth + 1) (Nat.lt_succ_self _) m rfl
  refine ⟨_, hends, hbounds, fun calls hcalls => ?_, fun hdepth => ?_⟩
  · exact (hagrees calls hcalls m rfl).1.trans hsame.symm
  · have hhost : m.bounds = (m.program, m.maxDepth, 0) := by rw [Machine.bounds, hdepth]
    have hrun := Run.pairwise_agrees.runBy
      (Run.counted_agrees_fromHost hloops (Nat.lt_succ_self m.maxDepth)) step m hhost
    rw [step.runBy_fromHost] at hrun
    exact hrun.1.symm

/-- A loop without end. -/
def endlessText : String :=
  "while (true) \x7b\x7d\n"

theorem host_steps_end_endless :
    (Machine.start (compileSources "pack" [endlessText]).program 9).program.loopsOverArrays =
      false ∧
    ∃ r, Run.error? r ≠ some .endlessLoop ∧ Run.error? r = some (.depthExceeded 9) ∧
      ∀ calls, 9 < calls → HostStep.entry.runBy (Run.counted calls)
        (.start (compileSources "pack" [endlessText]).program 9) = r := by
  have hloops : (Machine.start (compileSources "pack" [endlessText]).program
      9).program.loopsOverArrays = false := by decide +kernel
  obtain ⟨r, hends, -, hcounted, hrun⟩ := host_steps_end _ .entry hloops
  refine ⟨hloops, r, hends, ?_, hcounted⟩
  rw [← hrun rfl]
  decide +kernel

end PackScript
