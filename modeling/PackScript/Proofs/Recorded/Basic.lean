import PackScript.Proofs.Machine.Checked

namespace PackScript

/-!
# Runs with a record of what happens

Statements about what happens in a run, and in which order, are made with a run that writes it down.
Nothing depends on what is written down.

* `Event` — what is written down.
* `Recorded` — a run with its events. The events of a run that fails are those up to the failure.
* `Recorded.act`, `Recorded.note` — a part that calls no unit is one event with the machines before
  and after it; what promises and the clock do has events of its own.
* `HostStep.recorded` — a step from outside with its events. `HostStep.run_recorded`: it is the
  step.
-/

/-! ### Events -/

/-- What happens in a run. -/
inductive Event where
  /-- Something was done that has no event of its own -/
  | moved (before after : Machine)
  /-- A function is to be called with the value of the promise in a record -/
  | awaits (address : String) (listener : Nbt)
  /-- The promise in a record is to be resolved, and gets a value unless it is resolved already -/
  | resolves (address : String) (value : Option Nbt)
  /-- The functions that waited for the promise were called -/
  | resolved (address : String)
  /-- A function is called with the value of the promise, by what resolves it or by what awaits
      it -/
  | tells (address : String) (settling : Bool) (listener value : Nbt)
  /-- A function is scheduled -/
  | schedules (tick delay : UInt64) (task : Task)
  /-- A scheduled function is run -/
  | runs (tick : UInt64) (task : Task)

/-- A run that writes down what happens. -/
def Recorded (α : Type) : Type :=
  Machine → EStateM.Result MachineError Machine α × List Event

namespace Recorded

variable {α β : Type}

/-- The run. -/
def run (c : Recorded α) : Run α := fun m => (c m).1

/-- What is written down. -/
def events (c : Recorded α) (m : Machine) : List Event := (c m).2

instance : Monad Recorded where
  pure a m := (.ok a m, [])
  bind c f m := match c m with
    | (.ok a m', events) => ((f a m').1, events ++ (f a m').2)
    | (.error e m', events) => (.error e m', events)

/-- Writes an event down. -/
def note (e : Event) : Recorded Unit := fun m => (.ok () m, [e])

/-- A part of a run without an event. -/
def lift (c : Run α) : Recorded α := fun m => (c m, [])

/-- A part of a run that has no event of its own. -/
def act (c : Run α) : Recorded α := fun m => (c m, [.moved m (Run.final (c m))])

/-! ### Routines -/

/-- Executes a unit with a channel. -/
abbrev Caller := String → Option String → Recorded Int32

/-- Calls a function value with a filled channel. -/
def invokeFunction (call : Caller) (callee : Nbt) (channel : String) : Recorded Int32 := do
  match ((callee.get? "function").bind Nbt.text?).filter (!·.isEmpty) with
  | none => return Instr.normal
  | some function =>
    let unit ← act (Run.unitOf function)
    match ← act (Run.boundThis callee) with
    | some bound => act (Run.write .channels [channel, "this"] bound)
    | none => pure ()
    call unit (some channel)

/-- Calls a function value in a slot. -/
def callFunction (call : Caller) (a : Args) : Recorded Int32 := do
  let callee ← act (Run.slotArgument a "function")
  invokeFunction call callee (← act (Run.argument a "channel"))

/-- Calls the unit of a loop for the elements of an array from an index on. -/
def eachElement (call : Caller) (address unit channel : String) : Nat → Nat → Recorded Int32
  | 0, _ => act (throw .endlessLoop)
  | rounds + 1, index => do
    match ((← act get).elements address)[index]? with
    | none => return Instr.normal
    | some element =>
      act (Run.write .channels [channel] (.compound (frame channel ++
        [("arg0", element), ("arg1", (Scalar.number (doubleOfNat index)).slot)])))
      let code ← call unit (some channel)
      if code = Instr.breakCode then return Instr.normal
      else if code = Instr.returnCode then return code
      else eachElement call address unit channel rounds (index + 1)

/-- A loop over an array. -/
def loopArray (call : Caller) (a : Args) : Recorded Int32 := do
  match ← act (Run.valueArgument a "array") with
  | .reference .array address =>
    let unit ← act (do Run.unitOf (← Run.argument a "function"))
    let channel ← act (Run.argument a "channel")
    eachElement call address unit channel maxRounds 0
  | _ => return Instr.normal

/-- Calls a function that waited for a promise. -/
def callListener (call : Caller) (channel : String) (value listener : Nbt) : Recorded Unit := do
  act (Run.write .channels [channel] (.compound (frame channel ++ [("arg0", value)])))
  let _ ← invokeFunction call listener channel

/-- Calls a function that waited for the promise in a record, which is being resolved. -/
def tell (call : Caller) (address channel : String) (value listener : Nbt) : Recorded Unit := do
  note (.tells address true listener value)
  callListener call channel value listener

/-- Resolves a promise, the first time, and calls those who wait. -/
def resolvePromise (call : Caller) (a : Args) : Recorded Unit := do
  match ← act (Run.valueArgument a "promise") with
  | .scalar _ => return
  | .reference _ address =>
    let state := (← act (Run.promise? address)).getD pendingPromise
    if !isResolved state then
      let value ← act (Run.slotArgument a "value")
      let listeners := ((state.get? "listeners").bind Nbt.items?).getD []
      note (.resolves address (some value))
      lift (Run.write .heap [address, "promise"] (promiseState [] true value))
      let channel ← act (Run.argument a "channel")
      listeners.forM (tell call address channel value)
      note (.resolved address)
    else note (.resolves address none)

/-- Calls a function when a promise is resolved. -/
def awaitPromise (call : Caller) (a : Args) : Recorded Unit := do
  let awaited ← act (Run.slotArgument a "promise")
  let listener ← act (Run.slotArgument a "listener")
  let channel ← act (Run.argument a "channel")
  match ← act (Run.awaitedPromise awaited) with
  | none => callListener call channel awaited listener
  | some (address, state) =>
    note (.awaits address listener)
    if isResolved state then
      let value := (state.get? "value").getD .undefinedSlot
      note (.tells address false listener value)
      callListener call channel value listener
    else lift (Run.append .heap [address, "promise", "listeners"] listener)

/-- Has a function run later. -/
def schedule (a : Args) : Recorded Unit := do
  let function ← act (Run.slotArgument a "function")
  let ticks ← act (Run.scalarArgument a "ticks")
  match (function.get? "function").bind Nbt.text? with
  | none => return
  | some id =>
    let _ ← act (Run.unitOf id)
    let tick := (← act get).tick
    let delay := delayTicks ticks.toNumber
    note (.schedules tick delay ⟨tick + delay, function⟩)
    lift (modify fun m => { m with scheduled := m.scheduled ++ [⟨tick + delay, function⟩] })

/-- A routine that answers the normal code. -/
def normally (c : Recorded Unit) : Recorded Int32 := do
  c
  return Instr.normal

/-- Executes no unit. -/
def callNothing : Executor := fun _ _ => return Instr.normal

/-- What a routine does. -/
def routine (call : Caller) (a : Args) : Routine → Recorded Int32
  | .loopArray => loopArray call a
  | .callFunction => callFunction call a
  | .resolvePromise => normally (resolvePromise call a)
  | .awaitPromise => normally (awaitPromise call a)
  | .schedule => normally (schedule a)
  | r => act (Run.routine callNothing a r)

/-! ### Execution -/

/-- Calls a unit or routine. -/
def callee (call : Caller) (channel : Option String) : Callee → Recorded Int32
  | .unit name => call name channel
  | .library r => do
    let entries := ((← act get).channels.get? (channel.getD "")).getD .empty
    routine call ⟨channel.getD "", entries⟩ r

/-- Executes one instruction. -/
def step (call : Caller) (channel : Option String) : Instr → Recorded (Option Int32)
  | .invoke guard target args store => do
    if (← act get).holds guard then
      let code ← callee call (args.map (·.key)) target
      act (Run.storeCode store code)
    return none
  | i => act (Run.step callNothing channel i)

/-- Executes instructions up to one that ends the unit. -/
def steps (call : Caller) (channel : Option String) : List Instr → Recorded Int32
  | [] => return Instr.normal
  | i :: rest => do
    match ← step call channel i with
    | some code => return code
    | none => steps call channel rest

/-- Runs a step one call deeper. -/
def deeper (c : Recorded α) : Recorded α := fun m =>
  (Run.deeper c.run m, c.events { m with depth := m.depth + 1 })

/-- Executes a unit with a channel. -/
def execute : Nat → Caller
  | 0, name, _ => act do
    let _ ← Run.findUnit name
    throw (.depthExceeded (← get).maxDepth)
  | levels + 1, name, channel => do
    let u ← act (Run.findUnit name)
    deeper (steps (execute levels) channel u.instrs)

/-- Executes a unit from outside of all units. -/
def fromHost : Caller := fun name channel => do
  execute (← act get).maxDepth name channel

/-! ### Steps from outside -/

/-- Runs the entry unit. -/
def entry : Recorded Unit := do
  let _ ← fromHost (← act get).program.entry none

/-- Calls a top-level function. -/
def callGlobal (name : String) (args : List Scalar) : Recorded Nbt := do
  match (← act get).program.functions.find? name with
  | none => act (throw (.unknownUnit name))
  | some f =>
    act (Run.write .channels [hostChannel] (.compound (Run.hostEntries args)))
    act (Run.write .slots [hostResult] .undefinedSlot)
    let _ ← fromHost f.unit (some hostChannel)
    act (Run.slot hostResult)

/-- Runs a scheduled function. -/
def runTask (t : Task) : Recorded Unit := do
  note (.runs (← act get).tick t)
  act (Run.write .channels [scheduleChannel] (.compound (frame scheduleChannel)))
  let _ ← invokeFunction fromHost t.function scheduleChannel

/-- Lets a tick pass and runs the functions that are due. -/
def passTick : Recorded Unit := do
  let m ← act get
  let tick := m.tick + 1
  let (due, pending) := m.scheduled.partition (·.due ≤ tick)
  lift (set { m with tick := tick, scheduled := pending })
  due.forM runTask

/-- Lets ticks pass. -/
def passTicks : Nat → Recorded Unit
  | 0 => return
  | n + 1 => do
    passTick
    passTicks n

/-- Lets ticks pass until nothing is scheduled. -/
def untilIdle : Nat → Recorded Unit
  | 0 => return
  | n + 1 => do
    if !(← act get).scheduled.isEmpty then
      passTick
      untilIdle n

end Recorded

/-- A step from outside with its events. -/
def HostStep.recorded : HostStep → Recorded Unit
  | .entry => Recorded.entry
  | .call name args => do
    let _ ← Recorded.callGlobal name args
  | .ticks count => Recorded.passTicks count
  | .untilIdle most => Recorded.untilIdle most

/-- The events of steps from outside, each of which is taken whether the one before failed or
    not. -/
def history (m : Machine) : List HostStep → List Event
  | [] => []
  | step :: rest => step.recorded.events m ++ history (m.after step) rest

/-! ### The run is the same -/

namespace Recorded

variable {α β : Type}

@[simp] theorem run_pure (a : α) : run (pure a) = pure a := rfl

@[simp] theorem run_note (e : Event) : run (note e) = pure () := rfl

@[simp] theorem run_lift (c : Run α) : run (lift c) = c := rfl

@[simp] theorem run_act (c : Run α) : run (act c) = c := rfl

theorem bind_apply (c : Recorded α) (f : α → Recorded β) (m : Machine) :
    (c >>= f) m = match c m with
      | (.ok a m', events) => ((f a m').1, events ++ (f a m').2)
      | (.error e m', events) => (.error e m', events) := rfl

@[simp] theorem run_bind (c : Recorded α) (f : α → Recorded β) :
    run (c >>= f) = c.run >>= fun a => (f a).run := by
  funext m
  show ((c >>= f) m).1 = EStateM.bind c.run _ m
  rw [bind_apply]
  unfold EStateM.bind run
  rcases c m with ⟨_ | _, events⟩ <;> rfl

theorem events_bind_of_ok {c : Recorded α} {f : α → Recorded β} {m m' : Machine} {a : α}
    (h : c.run m = .ok a m') : (c >>= f).events m = c.events m ++ (f a).events m' := by
  unfold run at h
  unfold events
  rw [bind_apply]
  rcases hc : c m with ⟨_ | _, es⟩
  · rw [hc] at h
    cases h
    rfl
  · rw [hc] at h
    cases h

theorem events_bind_of_error {c : Recorded α} {f : α → Recorded β} {m m' : Machine}
    {e : MachineError} (h : c.run m = .error e m') : (c >>= f).events m = c.events m := by
  unfold run at h
  unfold events
  rw [bind_apply]
  rcases hc : c m with ⟨_ | _, es⟩
  · rw [hc] at h
    cases h
  · rfl

theorem events_note_bind (e : Event) (f : Unit → Recorded β) (m : Machine) :
    (note e >>= f).events m = e :: (f ()).events m := rfl

theorem events_lift_bind {c : Run α} {m m' : Machine} {a : α} (h : c m = .ok a m')
    (f : α → Recorded β) : (lift c >>= f).events m = (f a).events m' :=
  events_bind_of_ok (c := lift c) h

theorem events_act_bind {c : Run α} {m m' : Machine} {a : α} (h : c m = .ok a m')
    (f : α → Recorded β) : (act c >>= f).events m = .moved m m' :: (f a).events m' := by
  rw [events_bind_of_ok (c := act c) h]
  show Event.moved m (Run.final (c m)) :: _ = _
  rw [h]
  rfl

@[simp] theorem run_forM (f : β → Recorded PUnit) (items : List β) :
    run (items.forM f) = items.forM fun b => (f b).run := by
  induction items with
  | nil => rfl
  | cons b rest ih =>
    show run (f b >>= fun _ => rest.forM f) = (f b).run >>= fun _ => rest.forM fun b => (f b).run
    rw [run_bind, ih]

@[simp] theorem run_deeper (c : Recorded α) : run (deeper c) = Run.deeper c.run := rfl

@[simp] theorem run_normally (c : Recorded Unit) : run (normally c) = Run.normally c.run := by
  rw [normally, run_bind]
  rfl

/-- Execution of units without the events. -/
def runs (call : Caller) : Executor := fun name channel => (call name channel).run

section

variable (call : Caller)

theorem run_invokeFunction (callee : Nbt) (channel : String) :
    run (invokeFunction call callee channel) = Run.invokeFunction (runs call) callee channel := by
  unfold invokeFunction Run.invokeFunction
  cases ((callee.get? "function").bind Nbt.text?).filter (!·.isEmpty) with
  | none => rfl
  | some function =>
    simp only [run_bind, run_act]
    refine congrArg _ (funext fun unit => congrArg _ (funext fun bound => ?_))
    cases bound with
    | none => rfl
    | some bound => exact run_bind _ _

theorem run_callFunction (a : Args) :
    run (callFunction call a) = Run.callFunctionRoutine (runs call) a := by
  simp only [callFunction, Run.callFunctionRoutine, run_bind, run_act, run_invokeFunction]

theorem run_eachElement (address unit channel : String) (rounds index : Nat) :
    run (eachElement call address unit channel rounds index) =
      Run.eachElement (runs call) address unit channel rounds index := by
  induction rounds generalizing index with
  | zero => rfl
  | succ rounds ih =>
    rw [eachElement, Run.eachElement, run_bind]
    refine congrArg _ (funext fun m => ?_)
    cases (m.elements address)[index]? with
    | none => rfl
    | some element =>
      simp only [run_bind, run_act]
      refine congrArg _ (funext fun _ => congrArg _ (funext fun code => ?_))
      rw [apply_ite run, apply_ite run, ih]
      rfl

theorem run_loopArray (a : Args) : run (loopArray call a) = Run.loopArrayRoutine (runs call) a := by
  rw [loopArray, Run.loopArrayRoutine, run_bind]
  refine congrArg _ (funext fun array => ?_)
  cases array with
  | scalar value => rfl
  | reference kind address =>
    cases kind with
    | array => simp only [run_bind, run_act, run_eachElement, bind_assoc]
    | _ => rfl

theorem run_callListener (channel : String) (value listener : Nbt) :
    run (callListener call channel value listener) =
      Run.callListener (runs call) channel value listener := by
  simp only [callListener, Run.callListener, run_bind, run_act, run_invokeFunction, run_pure]

theorem run_resolvePromise (a : Args) :
    run (resolvePromise call a) = Run.resolvePromiseRoutine (runs call) a := by
  rw [resolvePromise, Run.resolvePromiseRoutine, run_bind]
  refine congrArg _ (funext fun promise => ?_)
  split
  · rfl
  · rw [run_bind]
    refine congrArg _ (funext fun state => ?_)
    dsimp only
    split
    · simp only [run_bind, run_act, run_note, run_lift, run_forM, tell, run_callListener, pure_bind,
        bind_pure_unit]
    · rfl

theorem run_awaitPromise (a : Args) :
    run (awaitPromise call a) = Run.awaitPromiseRoutine (runs call) a := by
  simp only [awaitPromise, Run.awaitPromiseRoutine, run_bind, run_act]
  refine congrArg _ (funext fun awaited => congrArg _ (funext fun listener => ?_))
  refine congrArg _ (funext fun channel => congrArg _ (funext fun found => ?_))
  cases found with
  | none => exact run_callListener call _ _ _
  | some pair =>
    simp only [run_bind, run_note, pure_bind]
    split
    · simp only [run_bind, run_note, pure_bind, run_callListener]
    · rfl

theorem run_schedule (a : Args) : run (schedule a) = Run.scheduleRoutine a := by
  simp only [schedule, Run.scheduleRoutine, run_bind, run_act]
  refine congrArg _ (funext fun function => congrArg _ (funext fun ticks => ?_))
  cases (function.get? "function").bind Nbt.text? with
  | none => rfl
  | some id => simp only [run_bind, run_act, run_note, run_lift, pure_bind]

theorem run_routine (a : Args) (r : Routine) :
    run (routine call a r) = Run.routine (runs call) a r := by
  cases r with
  | loopArray => exact run_loopArray call a
  | callFunction => exact run_callFunction call a
  | resolvePromise => rw [routine, run_normally, run_resolvePromise, Run.routine]
  | awaitPromise => rw [routine, run_normally, run_awaitPromise, Run.routine]
  | schedule => rw [routine, run_normally, run_schedule, Run.routine]
  | _ => rfl

theorem run_callee (channel : Option String) (target : Callee) :
    run (callee call channel target) = Run.callee (runs call) channel target := by
  cases target with
  | unit name => rfl
  | library r =>
    simp only [callee, Run.callee, Run.callRoutine, run_bind, run_act, run_routine]

theorem run_step (channel : Option String) (i : Instr) :
    run (step call channel i) = Run.step (runs call) channel i := by
  cases i with
  | invoke guard target args store =>
    rw [step, Run.step, run_bind]
    refine congrArg _ (funext fun m => ?_)
    split
    · simp only [run_bind, run_callee, run_act, run_pure]
    · rfl
  | _ => rfl

theorem run_steps (channel : Option String) (is : List Instr) :
    run (steps call channel is) = Run.steps (runs call) channel is := by
  induction is with
  | nil => rfl
  | cons i rest ih =>
    rw [steps, Run.steps, run_bind, run_step]
    refine congrArg _ (funext fun code => ?_)
    cases code with
    | none => exact ih
    | some code => rfl

end

theorem runs_execute (levels : Nat) : runs (execute levels) = Run.execute levels := by
  induction levels with
  | zero => rfl
  | succ levels ih =>
    funext name channel
    simp only [runs, execute, Run.execute, run_bind, run_act, run_deeper, run_steps, ih]

theorem runs_fromHost : runs fromHost = Run.fromHost := by
  funext name channel
  simp only [runs, fromHost, Run.fromHost, run_bind, run_act]
  exact congrArg _ (funext fun m => congrFun (congrFun (runs_execute m.maxDepth) name) channel)

theorem run_fromHost (name : String) (channel : Option String) :
    run (fromHost name channel) = Run.fromHost name channel :=
  congrFun (congrFun runs_fromHost name) channel

theorem run_callGlobal (name : String) (args : List Scalar) :
    run (callGlobal name args) = Run.callGlobal name args := by
  rw [callGlobal, Run.callGlobal, run_bind]
  refine congrArg _ (funext fun m => ?_)
  cases m.program.functions.find? name with
  | none => rfl
  | some f => simp only [run_bind, run_act, run_fromHost]

theorem run_passTick : run passTick = Run.passTick := by
  have htask (t : Task) : run (runTask t) = Run.runTask t := by
    simp only [runTask, Run.runTask, run_bind, run_act, run_note, run_invokeFunction, runs_fromHost,
      run_pure]
    rfl
  simp only [passTick, Run.passTick, run_bind, run_act, run_lift, run_forM, htask]

theorem run_passTicks (n : Nat) : run (passTicks n) = Run.passTicks n := by
  induction n with
  | zero => rfl
  | succ n ih => rw [passTicks, Run.passTicks, run_bind, run_passTick, ih]

theorem run_untilIdle (n : Nat) : run (untilIdle n) = Run.untilIdle n := by
  induction n with
  | zero => rfl
  | succ n ih =>
    rw [untilIdle, Run.untilIdle, run_bind]
    refine congrArg _ (funext fun m => ?_)
    split
    · rw [run_bind, run_passTick, ih]
    · rfl

end Recorded

/-- What is written down makes no difference. -/
theorem HostStep.run_recorded (step : HostStep) : step.recorded.run = step.run := by
  cases step with
  | entry => simp only [recorded, run, Recorded.entry, Run.entry, Recorded.run_bind,
      Recorded.run_act,
      Recorded.run_fromHost, Recorded.run_pure]
  | call name args =>
    simp only [recorded, run, Recorded.run_bind, Recorded.run_callGlobal, Recorded.run_pure]
  | ticks count => exact Recorded.run_passTicks count
  | untilIdle most => exact Recorded.run_untilIdle most

end PackScript
