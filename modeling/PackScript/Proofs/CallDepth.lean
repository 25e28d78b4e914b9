import PackScript.Proofs.Machine.Halting

namespace PackScript

/-!
# The count of calls

A machine counts the calls that it is inside of. A call that fails passes its error on through all
calls around it, and each of them has to take back its own count.

* `Check.miscounted` — ends a run where the count is not the number of units that are executed, or
  is above the limit.
* `Run.checked_agrees` — this never happens.
* `call_depth_is_balanced` — the count between steps from outside and on the way.
-/

/-- Ends a run where the count of calls is not that of the units which are executed, or is above the
    limit. -/
def Check.miscounted (e : MachineError) : Check := fun frames _ m =>
  if m.depth = frames.length ∧ m.depth ≤ m.maxDepth then none else some e

namespace Run

variable {p : Program} {limit : Nat} {e : MachineError} {frames : List Frame}

/-- The instructions of the innermost unit go through if those of the units that it calls do. -/
theorem checkedSteps_agree {call : Bool → Executor} {call' : Executor}
    (hframes : frames.length ≤ limit)
    (hcall : ∀ direct name channel, Agrees True (p, limit, frames.length) (call direct name channel)
      (call' name channel)) (channel : Option String) (is : List Instr) :
    Agrees True (p, limit, frames.length)
      (checkedSteps (Check.miscounted e frames) call channel is) (steps call' channel is) := by
  -- the count is right at the check, since all that was done before left it as it was
  have hpass : ∀ (is : List Instr) (m : Machine), m.bounds = (p, limit, frames.length) →
      stopIf (Check.miscounted e frames is) m = .ok () m := by
    intro is m hm
    obtain ⟨rfl, rfl, hdepth⟩ : m.program = p ∧ m.maxDepth = limit ∧ m.depth = frames.length := by
      simpa [Machine.bounds] using hm
    exact stopIf_none (if_pos ⟨hdepth, hdepth ▸ hframes⟩)
  induction is with
  | nil =>
    intro m hm
    rw [checkedSteps, bind_of_ok (hpass [] m hm)]
    exact ⟨rfl, hm, fun _ => trivial⟩
  | cons i rest ih =>
    intro m hm
    rw [checkedSteps, bind_of_ok (hpass (i :: rest) m hm)]
    refine ((step_agrees (hcall i.isDirect) channel fun _ => trivial).bind fun code => ?_) m hm
    cases code with
    | none => exact ih
    | some code => exact .pure _

theorem checked_agrees (levels : Nat) (hlevels : frames.length + levels = limit) (direct : Bool)
    (name : String) (channel : Option String) :
    Agrees True (p, limit, frames.length)
      (checked (.miscounted e) levels frames direct name channel)
      (execute levels name channel) := by
  induction levels generalizing frames direct name channel with
  | zero =>
    refine .bind (.look fun _ => findUnit_looks) fun _ => .get fun m _ => ?_
    exact fun _ hm => ⟨rfl, hm, nofun⟩
  | succ levels ih =>
    refine .bind (.look fun _ => findUnit_looks) fun u => .deeper ?_
    have hinside : (⟨name, direct⟩ :: frames).length + levels = limit := by
      rw [List.length_cons]
      omega
    exact checkedSteps_agree (by omega) (fun direct' => ih hinside direct') channel u.instrs

theorem watched_agrees (name : String) (channel : Option String) :
    Agrees True (p, limit, 0) (watched (.miscounted e) name channel) (fromHost name channel) := by
  refine .get fun m hm => ?_
  have hlimit : m.maxDepth = limit := congrArg (·.2.1) hm
  have houtside : ([] : List Frame).length + limit = limit := Nat.zero_add limit
  rw [hlimit]
  exact checked_agrees limit houtside false name channel

end Run

/-- A step from outside by the count is the step by levels, and keeps the count at zero. -/
theorem HostStep.counted_step {m : Machine} (step : HostStep) (hdepth : m.depth = 0) (more : Nat) :
    step.runBy (Run.counted (m.maxDepth + more + 1)) m = step.run m ∧
      (Run.final (step.run m)).bounds = m.bounds := by
  have hhost : m.bounds = (m.program, m.maxDepth, 0) := by rw [Machine.bounds, hdepth]
  have hcounted : ∀ name channel, Run.Agrees True (m.program, m.maxDepth, 0)
      (Run.counted (m.maxDepth + more + 1) name channel) (Run.fromHost name channel) :=
    Run.counted_agrees_fromHost (fun _ => trivial) (by omega)
  have hagrees := Run.pairwise_agrees.runBy hcounted step m hhost
  rw [step.runBy_fromHost] at hagrees
  exact ⟨hagrees.1, hagrees.1 ▸ hagrees.2.1.trans hhost.symm⟩

theorem Machine.bounds_after {p : Program} {maxDepth : Nat} (steps : List HostStep) {m : Machine}
    (hm : m.bounds = (p, maxDepth, 0)) : (steps.foldl after m).bounds = (p, maxDepth, 0) := by
  induction steps generalizing m with
  | nil => exact hm
  | cons step rest ih =>
    refine ih ?_
    have hafter : m.after step = Run.final (step.run m) := by
      rw [after]
      cases step.run m <;> rfl
    rw [hafter]
    exact (step.counted_step (congrArg (·.2.2) hm) 0).2.trans hm

/-- **The count of calls is balanced.** Whatever steps were done from outside, with any program and
    any limit, and however they ended, the machine is inside of no call, and so it is again after
    the next step. At each instruction on the way the count is the number of units that are
    executed, and at most the limit: a check of this ends no run, whatever error it would raise. So
    a step that goes by the count gives what the same step gives that is told from the start how
    many levels there are. -/
theorem call_depth_is_balanced (p : Program) (maxDepth : Nat) (before : List HostStep)
    (step : HostStep) :
    let m := before.foldl Machine.after (.start p maxDepth)
    m.depth = 0 ∧ (m.after step).depth = 0 ∧
    (∀ e, step.runBy (Run.watched (.miscounted e)) m = step.run m) ∧
    ∀ more, step.runBy (Run.counted (maxDepth + more + 1)) m = step.run m := by
  intro m
  have hm : m.bounds = (p, maxDepth, 0) := Machine.bounds_after before rfl
  have hafter : (m.after step).bounds = (p, maxDepth, 0) := Machine.bounds_after [step] hm
  have hlimit : m.maxDepth = maxDepth := congrArg (·.2.1) hm
  refine ⟨congrArg (·.2.2) hm, congrArg (·.2.2) hafter, fun e => ?_, fun more => ?_⟩
  · have hagrees := Run.pairwise_agrees.runBy (Run.watched_agrees (e := e)) step m hm
    rw [step.runBy_fromHost] at hagrees
    exact hagrees.1
  · rw [← hlimit]
    exact (step.counted_step (congrArg (·.2.2) hm) more).1

end PackScript
