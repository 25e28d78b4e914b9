import PackScript.Machine.Host
import PackScript.Proofs.Machine.Step

namespace PackScript

/-!
# Execution that can be stopped

Statements about all machines on the way of a run, and about which units are executed at a time,
are made with an execution that a check may end at any point.

* `Frame` — a unit that is executed, and how it was entered.
* `Check` — before each instruction and at the end of each unit, a check sees the frames, the
  instructions that are left in the unit, and the machine.
* `Run.checked` — execution with a check. `Run.checked_never`: a check that never ends the run makes
  no difference.
* `HostStep` — what can be done with a machine from outside. `HostStep.runBy`: such a step, with
  another way of executing units.
* `Machine.Onward` — a machine that comes after another one, before a check ends a step from
  outside.
* `Machine.Reached` — a machine that is reached in some step from outside, at its end or on the way.
-/

/-! ### Checks -/

/-- A unit that is executed. -/
structure Frame where
  unit : String
  /-- It was entered by its name in the code, not as a value -/
  direct : Bool
deriving DecidableEq, Repr

/-- What is called are units with names that stand in the code. A loop over an array calls such a
    unit as well. -/
def Callee.isDirect : Callee → Bool
  | .unit _ => true
  | .library r => r = .loopArray

/-- The instruction enters units by their names. -/
def Instr.isDirect : Instr → Bool
  | .invoke _ callee _ _ => callee.isDirect
  | _ => false

/-- May end a run. The frames are the units that are executed, the innermost first, and the
    instructions are those of the innermost unit that are not executed yet. -/
def Check := List Frame → List Instr → Machine → Option MachineError

namespace Check

/-- Does not end a run. -/
def never : Check := fun _ _ _ => none

/-- Ends a run where one of two checks does. -/
def or (c c' : Check) : Check := fun frames is m => (c frames is m).or (c' frames is m)

/-- Ends a run where a unit is entered. -/
def entering (unit : String) : Check := fun frames _ _ =>
  if frames.head?.map (·.unit) = some unit then some .endlessLoop else none

end Check

namespace Run

/-- Ends the run if the check says so. -/
def stopIf (check : Machine → Option MachineError) : Run Unit := do
  match check (← get) with
  | some e => throw e
  | none => return

/-- Executes instructions with a check. Units are executed in one way if they are entered by their
    names, and in another way if they are not. -/
def checkedSteps (check : List Instr → Machine → Option MachineError) (call : Bool → Executor)
    (channel : Option String) : List Instr → Run Int32
  | [] => do
    stopIf (check [])
    return Instr.normal
  | i :: rest => do
    stopIf (check (i :: rest))
    match ← step (call i.isDirect) channel i with
    | some code => return code
    | none => checkedSteps check call channel rest

/-- Executes a unit with a check, inside of other ones. -/
def checked (check : Check) : Nat → List Frame → Bool → Executor
  | 0, _, _, name, _ => do
    let _ ← findUnit name
    throw (.depthExceeded (← get).maxDepth)
  | levels + 1, frames, direct, name, channel => do
    let u ← findUnit name
    let inside := ⟨name, direct⟩ :: frames
    deeper (checkedSteps (check inside) (checked check levels inside) channel u.instrs)

/-- Executes a unit with a check, from outside of all units. -/
def watched (check : Check) : Executor := fun name channel => do
  checked check (← get).maxDepth [] false name channel

theorem stopIf_none {check : Machine → Option MachineError} {m : Machine} (h : check m = none) :
    stopIf check m = .ok () m := by
  refine (bind_of_ok rfl).trans ?_
  rw [h]
  rfl

/-! ### Without a check -/

theorem checkedSteps_never (call : Executor) (channel : Option String) (is : List Instr) :
    checkedSteps (fun _ _ => none) (fun _ => call) channel is = steps call channel is := by
  induction is with
  | nil => rfl
  | cons i rest ih =>
    funext m
    have hrest : checkedSteps (fun _ _ => none) (fun _ => call) channel (i :: rest) m =
        (do
          match ← step call channel i with
          | some code => return code
          | none => checkedSteps (fun _ _ => none) (fun _ => call) channel rest) m :=
      bind_of_ok rfl
    exact hrest.trans (ih ▸ rfl)

/-- Without a check the run is not ended, whatever the frames are. -/
theorem checked_never (levels : Nat) (frames : List Frame) (direct : Bool) :
    checked .never levels frames direct = execute levels := by
  induction levels generalizing frames direct with
  | zero => rfl
  | succ levels ih =>
    funext name channel
    have hcall : checked .never levels (⟨name, direct⟩ :: frames) = fun _ => execute levels :=
      funext fun direct' => ih _ direct'
    rw [checked, execute]
    simp only [hcall]
    exact congrArg _ (funext fun u => congrArg deeper (checkedSteps_never _ _ _))

theorem watched_never : watched .never = fromHost := by
  funext name channel
  unfold watched fromHost
  simp only [checked_never]

/-! ### Steps from outside -/

/-- The error that a run ends with. -/
def error? {α : Type} : EStateM.Result MachineError Machine α → Option MachineError
  | .ok _ _ => none
  | .error e _ => some e

theorem eq_error_of_error? {α : Type} {r : EStateM.Result MachineError Machine α}
    {e : MachineError} (h : error? r = some e) : ∃ m', r = .error e m' := by
  cases r with
  | ok a m' => cases h
  | error e' m' =>
    cases h
    exact ⟨m', rfl⟩

/-- Runs the entry unit. -/
def entryBy (call : Executor) : Run Unit := do
  let _ ← call (← get).program.entry none

/-- Calls a top-level function. -/
def callGlobalBy (call : Executor) (name : String) (args : List Scalar) : Run Nbt := do
  match (← get).program.functions.find? name with
  | none => throw (.unknownUnit name)
  | some f =>
    write .channels [hostChannel] (.compound (hostEntries args))
    write .slots [hostResult] .undefinedSlot
    let _ ← call f.unit (some hostChannel)
    slot hostResult

/-- Runs a scheduled function. -/
def runTaskBy (call : Executor) (t : Task) : Run Unit := do
  write .channels [scheduleChannel] (.compound (frame scheduleChannel))
  let _ ← invokeFunction call t.function scheduleChannel

/-- Lets a tick pass. -/
def passTickBy (call : Executor) : Run Unit := do
  let m ← get
  let tick := m.tick + 1
  let (due, pending) := m.scheduled.partition (·.due ≤ tick)
  set { m with tick := tick, scheduled := pending }
  due.forM (runTaskBy call)

/-- Lets ticks pass. -/
def passTicksBy (call : Executor) : Nat → Run Unit
  | 0 => return
  | n + 1 => do
    passTickBy call
    passTicksBy call n

/-- Lets ticks pass until nothing is scheduled. -/
def untilIdleBy (call : Executor) : Nat → Run Unit
  | 0 => return
  | n + 1 => do
    if !(← get).scheduled.isEmpty then
      passTickBy call
      untilIdleBy call n

theorem passTicksBy_fromHost : passTicksBy fromHost = passTicks := by
  funext n
  induction n with
  | zero => rfl
  | succ n ih =>
    rw [passTicksBy, ih]
    rfl

theorem untilIdleBy_fromHost : untilIdleBy fromHost = untilIdle := by
  funext n
  induction n with
  | zero => rfl
  | succ n ih =>
    rw [untilIdleBy, ih]
    rfl

/-- The machine at the end of a run, whether it failed or not. -/
def final {α : Type} : EStateM.Result MachineError Machine α → Machine
  | .ok _ m => m
  | .error _ m => m

end Run

/-- What can be done with a machine. -/
inductive HostStep where
  /-- Runs the entry unit -/
  | entry
  /-- Calls a top-level function -/
  | call (name : String) (args : List Scalar)
  /-- Lets ticks pass -/
  | ticks (count : Nat)
  /-- Lets ticks pass until nothing is scheduled, or a number of them has passed -/
  | untilIdle (most : Nat)

namespace HostStep

/-- Runs a step. -/
def run : HostStep → Run Unit
  | .entry => Run.entry
  | .call name args => do
    let _ ← Run.callGlobal name args
  | .ticks count => Run.passTicks count
  | .untilIdle most => Run.untilIdle most

/-- The program has the function that the step calls. -/
def offered (p : Program) : HostStep → Bool
  | .call name _ => p.functions.has name
  | _ => true

end HostStep

/-- The machine after a step, whether it failed or not. -/
def Machine.after (m : Machine) (step : HostStep) : Machine :=
  match step.run m with
  | .ok _ m' => m'
  | .error _ m' => m'

namespace HostStep

/-- Runs a step with a way of executing units. -/
def runBy (call : Executor) : HostStep → Run Unit
  | .entry => Run.entryBy call
  | .call name args => do
    let _ ← Run.callGlobalBy call name args
  | .ticks count => Run.passTicksBy call count
  | .untilIdle most => Run.untilIdleBy call most

theorem runBy_fromHost (step : HostStep) : step.runBy Run.fromHost = step.run := by
  cases step with
  | entry => rfl
  | call name args => rfl
  | ticks count => rw [runBy, Run.passTicksBy_fromHost, run]
  | untilIdle most => rw [runBy, Run.untilIdleBy_fromHost, run]

/-- A check that does not end the run makes no difference. -/
theorem runBy_watched_never (step : HostStep) : step.runBy (Run.watched .never) = step.run := by
  rw [Run.watched_never, step.runBy_fromHost]

end HostStep

namespace Machine

/-- The machine after a step that a check may end. -/
def afterBy (limit : Check) (m : Machine) (step : HostStep) : Machine :=
  Run.final (step.runBy (Run.watched limit) m)

theorem afterBy_never : afterBy .never = after := by
  funext m step
  rw [afterBy, step.runBy_watched_never, after]
  cases step.run m <;> rfl

/-- The machine comes after another one, before the limit ends a step. The last step may be ended by
    another check as well. -/
def Onward (limit : Check) (m m' : Machine) : Prop :=
  ∃ (before : List HostStep) (step : HostStep) (check : Check),
    m' = (before.foldl (afterBy limit) m).afterBy (limit.or check) step

/-- The machine is reached with a program, at the end of a step from outside or on the way. -/
def Reached (m : Machine) (p : Program) (maxDepth : Nat) : Prop :=
  (Machine.start p maxDepth).Onward .never m

/-- The machine after a further step, or on the way. -/
theorem onward_afterBy (limit check : Check) (m : Machine) (step : HostStep) :
    m.Onward limit (m.afterBy (limit.or check) step) :=
  ⟨[], step, check, rfl⟩

/-- The machine between two steps. -/
theorem reached_afterAll (p : Program) (maxDepth : Nat) (steps : List HostStep) :
    Reached (steps.foldl after (.start p maxDepth)) p maxDepth := by
  refine ⟨steps, .ticks 0, .never, ?_⟩
  rw [afterBy_never]
  rfl

end Machine

end PackScript
