import PackScript.Compile.Script
import PackScript.Proofs.Recorded.Law

namespace PackScript

/-!
# Scheduled functions

A function that is scheduled waits for its tick. Those that are due are taken from the list before
any of them runs, and what they schedule is due later.

* `scheduledIn`, `ranIn` — what is scheduled and what is run, among the events of a run.
* `InTick` — what is done without letting time pass only adds to the list.
* `Machine.Pending` — all that is scheduled is due later.
* `scheduled_functions_run_once` — every scheduled function is run once, in the tick in which it is
  due, and those of one tick in the order in which they were scheduled.
-/

/-! ### Events of the clock -/

namespace Event

/-- The function that is scheduled. -/
def scheduled? : Event → Option Task
  | .schedules _ _ task => some task
  | _ => none

/-- The function that is run, with the tick. -/
def ran? : Event → Option (Nat × Task)
  | .runs tick task => some (tick.toNat, task)
  | _ => none

/-- What is scheduled is not due behind the last tick of the clock. -/
def fitsClock : Event → Bool
  | .schedules tick delay _ => tick.toNat + delay.toNat < 2 ^ 64
  | _ => true

end Event

/-- The functions that are scheduled in a run. -/
def scheduledIn (es : List Event) : List Task :=
  es.filterMap Event.scheduled?

/-- The scheduled functions that are run, with the tick. -/
def ranIn (es : List Event) : List (Nat × Task) :=
  es.filterMap Event.ran?

/-- Nothing is scheduled behind the last tick of the clock. -/
def FitClock (es : List Event) : Prop :=
  ∀ e ∈ es, e.fitsClock = true

theorem scheduledIn_append (es es' : List Event) :
    scheduledIn (es ++ es') = scheduledIn es ++ scheduledIn es' :=
  List.filterMap_append

theorem mem_scheduledIn {es : List Event} {task : Task} (h : task ∈ scheduledIn es) :
    ∃ tick delay, .schedules tick delay task ∈ es := by
  obtain ⟨e, he, hscheduled⟩ := List.mem_filterMap.1 h
  cases e with
  | schedules tick delay task' =>
    cases hscheduled
    exact ⟨tick, delay, he⟩
  | _ => cases hscheduled

theorem ranIn_append (es es' : List Event) : ranIn (es ++ es') = ranIn es ++ ranIn es' :=
  List.filterMap_append

/-! ### Within a tick -/

/-- Time does not pass, and what is scheduled is added to the list, due after a delay. -/
structure InTick (m : Machine) (es : List Event) (m' : Machine) : Prop where
  tick : m'.tick = m.tick
  scheduled : m'.scheduled = m.scheduled ++ scheduledIn es
  later : ∀ tick delay task, .schedules tick delay task ∈ es →
    tick = m.tick ∧ task.due = tick + delay ∧ 0 < delay.toNat

namespace InTick

variable {m m' m'' : Machine} {es es' : List Event}

theorem trans (h : InTick m es m') (h' : InTick m' es' m'') : InTick m (es ++ es') m'' where
  tick := h'.tick.trans h.tick
  scheduled := by rw [h'.scheduled, h.scheduled, scheduledIn_append, List.append_assoc]
  later := by
    intro tick delay task hmem
    rcases List.mem_append.1 hmem with hmem | hmem
    · exact h.later tick delay task hmem
    · rw [← h.tick]
      exact h'.later tick delay task hmem

/-- Nothing is scheduled. -/
theorem of_clock (hclock : m'.clock = m.clock) (hes : ∀ e ∈ es, e.scheduled? = none) :
    InTick m es m' where
  tick := congrArg Prod.fst hclock
  scheduled := by
    have hnone : scheduledIn es = [] := List.filterMap_eq_nil_iff.2 hes
    rw [hnone, List.append_nil]
    exact congrArg Prod.snd hclock
  later := fun tick delay task hmem => nomatch hes _ hmem

/-- What is scheduled is due in a later tick. -/
theorem due (h : InTick m es m') (hfit : FitClock es) {tick delay : UInt64} {task : Task}
    (hmem : .schedules tick delay task ∈ es) :
    tick = m.tick ∧ task.due.toNat = tick.toNat + delay.toNat ∧ tick.toNat < task.due.toNat := by
  obtain ⟨htick, hdue, hdelay⟩ := h.later tick delay task hmem
  have hroom : tick.toNat + delay.toNat < 2 ^ 64 := by simpa [Event.fitsClock] using hfit _ hmem
  have hsum : task.due.toNat = tick.toNat + delay.toNat := by
    rw [hdue, UInt64.toNat_add, Nat.mod_eq_of_lt hroom]
  exact ⟨htick, hsum, by omega⟩

theorem lt_due (h : InTick m es m') (hfit : FitClock es) {task : Task}
    (ht : task ∈ scheduledIn es) :
    m.tick.toNat < task.due.toNat := by
  obtain ⟨tick, delay, hmem⟩ := mem_scheduledIn ht
  obtain ⟨rfl, _, hlt⟩ := h.due hfit hmem
  exact hlt

end InTick

/-- A delay is at least a tick. -/
theorem delayTicks_pos (x : Float) : 0 < (delayTicks x).toNat := by
  unfold delayTicks
  split
  · show 0 < (if x.ceil.toUInt64 ≤ 1 then 1 else x.ceil.toUInt64).toNat
    split
    · decide
    · rename_i hlarge
      rw [UInt64.le_iff_toNat_le] at hlarge
      exact Nat.lt_trans Nat.zero_lt_one (Nat.not_le.1 hlarge)
  · decide

open Recorded

/-- Within a tick, and no scheduled function is run. -/
def inTick : Law where
  Holds m es m' _ := InTick m es m' ∧ ranIn es = []
  nothing m := ⟨.of_clock rfl nofun, rfl⟩
  trans := by
    rintro m m₁ m₂ es es' ok ⟨h, hran⟩ ⟨h', hran'⟩
    exact ⟨h.trans h', by rw [ranIn_append, hran, hran', List.append_nil]⟩
  moved := by
    intro m m' ok hclock
    exact ⟨.of_clock hclock (by simp [Event.scheduled?]), rfl⟩
  deeper := fun ⟨h, hran⟩ => ⟨⟨h.tick, h.scheduled, h.later⟩, hran⟩

theorem inTick_note {e : Event} (hscheduled : e.scheduled? = none) (hran : e.ran? = none) :
    inTick.Obeyed (note e) := by
  intro m
  refine ⟨.of_clock rfl ?_, ?_⟩
  · simpa [events, note] using hscheduled
  · simp [events, note, ranIn, hran]

theorem inTick_lift {α : Type} {c : Run α} (h : Run.Leaves Machine.clock c) :
    inTick.Obeyed (lift c) :=
  fun m => ⟨.of_clock (h m) nofun, rfl⟩

theorem inTick_basic : inTick.Basic where
  resolvePromise := by
    intro call hcall a
    refine .bind (.act Run.valueArgument_leaves) fun promise => ?_
    split
    · exact .pure _
    · refine .bind (.look fun _ => Run.promise?_looks) fun state => ?_
      dsimp only
      split
      · refine .bind (.act Run.slotArgument_leaves) fun value => ?_
        refine .bind (inTick_note rfl rfl) fun _ => ?_
        refine .bind (inTick_lift (Run.write_leaves_clock _ _ _)) fun _ => ?_
        refine .bind (.act Run.argument_leaves) fun channel => ?_
        refine .bind (.forM (fun listener => ?_) _) fun _ => inTick_note rfl rfl
        exact .bind (inTick_note rfl rfl) fun _ => .callListener hcall _ _ _
      · exact inTick_note rfl rfl
  awaitPromise := by
    intro call hcall a
    refine .bind (.act Run.slotArgument_leaves) fun awaited => ?_
    refine .bind (.act Run.slotArgument_leaves) fun listener => ?_
    refine .bind (.act Run.argument_leaves) fun channel => ?_
    refine .bind (.look fun _ => Run.awaitedPromise_looks) fun found => ?_
    cases found with
    | none => exact .callListener hcall _ _ _
    | some pair =>
      refine .bind (inTick_note rfl rfl) fun _ => ?_
      split
      · exact .bind (inTick_note rfl rfl) fun _ => .callListener hcall _ _ _
      · exact inTick_lift (Run.append_leaves_clock _ _ _)
  schedule := by
    intro a
    refine .bind (.act Run.slotArgument_leaves) fun function => ?_
    refine .bind (.act Run.scalarArgument_leaves) fun ticks => ?_
    split
    · exact .pure _
    · refine .bind (.look fun _ => Run.unitOf_looks) fun _ m => ?_
      refine .look (P := (· = m)) ⟨rfl, rfl⟩ ?_
      rintro _ rfl
      refine ⟨⟨rfl, rfl, ?_⟩, rfl⟩
      rintro tick delay task (⟨⟩ | ⟨_, ⟨⟩⟩)
      exact ⟨rfl, rfl, delayTicks_pos _⟩

/-! ### Ticks -/

variable {m m' : Machine}

theorem runTask_spec (t : Task) (m : Machine) :
    InTick m ((runTask t).events m) (Run.final ((runTask t).run m)) ∧
      ranIn ((runTask t).events m) = [(m.tick.toNat, t)] := by
  have hcall : inTick.Obeyed (do
      act (Run.write .channels [scheduleChannel] (.compound (frame scheduleChannel)))
      let _ ← invokeFunction Recorded.fromHost t.function scheduleChannel) :=
    .bind (.act (Run.write_leaves_clock _ _ _)) fun _ =>
      .bind (.invokeFunction inTick_basic.fromHost _ _) fun _ => .pure _
  obtain ⟨htick, hran⟩ := hcall m
  have hstart : InTick m [.moved m m, .runs m.tick t] m :=
    .of_clock rfl (by simp [Event.scheduled?])
  exact ⟨hstart.trans htick, congrArg _ hran⟩

/-- What is run of the functions that are due: all of them, or those up to one that fails. -/
structure RunsDue (tick : UInt64) (due : List Task) (es : List Event) (ok : Bool) : Prop where
  all : ok = true → ranIn es = due.map fun t => (tick.toNat, t)
  fails : ok = false → ∃ done failed lost, due = done ++ failed :: lost ∧
    ranIn es = (done ++ [failed]).map fun t => (tick.toNat, t)

/-- Functions that are due are run within a tick, one after the other. -/
theorem runTasks_spec (due : List Task) (m : Machine) :
    InTick m ((due.forM runTask).events m) (Run.final ((due.forM runTask).run m)) ∧
      RunsDue m.tick due ((due.forM runTask).events m)
        (Run.succeeds ((due.forM runTask).run m)) := by
  induction due generalizing m with
  | nil => exact ⟨.of_clock rfl nofun, fun _ => rfl, nofun⟩
  | cons t due ih =>
    have hcons : (t :: due).forM runTask = runTask t >>= fun _ => due.forM runTask := rfl
    obtain ⟨htask, hran⟩ := runTask_spec t m
    rw [hcons, run_bind]
    cases hrun : (runTask t).run m with
    | error e m₁ =>
      rw [hrun] at htask
      rw [events_bind_of_error hrun, Run.bind_of_error hrun]
      exact ⟨htask, nofun, fun _ => ⟨[], t, due, rfl, hran⟩⟩
    | ok _ m₁ =>
      rw [hrun] at htask
      rw [events_bind_of_ok hrun, Run.bind_of_ok hrun]
      obtain ⟨hrest, hall, hfails⟩ := ih m₁
      have htick : m₁.tick = m.tick := htask.tick
      rw [htick] at hall hfails
      refine ⟨htask.trans hrest, fun hok => ?_, fun hok => ?_⟩
      · rw [ranIn_append, hran, hall hok]
        rfl
      · obtain ⟨done, failed, lost, rfl, hranRest⟩ := hfails hok
        exact ⟨t :: done, failed, lost, rfl, by rw [ranIn_append, hran, hranRest]; rfl⟩

/-- A tick passes, the functions that are due are run, and the others wait on; behind them are those
    that are scheduled now. -/
theorem passTick_spec (m : Machine) :
    InTick { m with tick := m.tick + 1,
                    scheduled := m.scheduled.filter fun t => !decide (t.due ≤ m.tick + 1) }
        (passTick.events m) (Run.final (passTick.run m)) ∧
      RunsDue (m.tick + 1) (m.scheduled.filter (·.due ≤ m.tick + 1)) (passTick.events m)
        (Run.succeeds (passTick.run m)) := by
  let due := m.scheduled.partition (·.due ≤ m.tick + 1)
  let now : Machine := { m with tick := m.tick + 1, scheduled := due.2 }
  have hsplit : due = _ := List.partition_eq_filter_filter
  have hnow : now = { m with tick := m.tick + 1, scheduled := due.2 } := rfl
  have hrun : passTick.run m = (due.1.forM runTask).run now := rfl
  have hevents : passTick.events m = [.moved m m] ++ (due.1.forM runTask).events now := rfl
  obtain ⟨htick, hran⟩ := runTasks_spec due.1 now
  rw [hrun, hevents]
  have hstart : InTick now [.moved m m] now := .of_clock rfl (by simp [Event.scheduled?])
  have hboth := hstart.trans htick
  rw [hsplit] at hnow hboth hran ⊢
  rw [hnow] at hboth hran ⊢
  exact ⟨hboth, hran.all, hran.fails⟩

/-! ### What waits is due later -/

/-- All that is scheduled is due later. -/
def Machine.Pending (m : Machine) : Prop :=
  ∀ t ∈ m.scheduled, m.tick < t.due

theorem InTick.pending {es : List Event} (h : InTick m es m') (hfit : FitClock es)
    (hm : m.Pending) : m'.Pending := by
  intro t ht
  rw [h.scheduled] at ht
  rw [h.tick]
  rcases List.mem_append.1 ht with ht | ht
  · exact hm t ht
  · exact UInt64.lt_iff_toNat_lt.2 (h.lt_due hfit ht)

/-- What is scheduled stays due later. -/
def staysPending : Law where
  Holds m es m' _ := FitClock es → m.Pending → m'.Pending
  nothing _ _ hm := hm
  trans h h' hfit hm :=
    h' (fun e he => hfit e (List.mem_append_right _ he))
      (h (fun e he => hfit e (List.mem_append_left _ he)) hm)
  moved {m m'} _ hclock _ hm :=
    (show InTick m [] m' from .of_clock hclock nofun).pending nofun hm
  deeper h := h

theorem staysPending_of_inTick {α : Type} {c : Recorded α} (h : inTick.Obeyed c) :
    staysPending.Obeyed c :=
  fun m hfit => (h m).1.pending hfit

theorem passTick_pending : staysPending.Obeyed passTick := by
  intro m hfit _
  refine (passTick_spec m).1.pending hfit fun t ht => ?_
  simpa using (List.mem_filter.1 ht).2

theorem recorded_pending (step : HostStep) : staysPending.Obeyed step.recorded :=
  Law.recorded (staysPending_of_inTick inTick_basic.entry)
    (fun name args => staysPending_of_inTick (inTick_basic.callGlobal name args))
      passTick_pending step

theorem Machine.after_eq (m : Machine) (step : HostStep) :
    m.after step = Run.final (step.recorded.run m) := by
  rw [step.run_recorded, Machine.after]
  cases step.run m <;> rfl

/-- Whatever is done from outside, what is scheduled is due later. -/
theorem Machine.Pending.afterAll (hm : m.Pending) (steps : List HostStep)
    (hfit : FitClock (history m steps)) : (steps.foldl Machine.after m).Pending := by
  induction steps generalizing m with
  | nil => exact hm
  | cons step rest ih =>
    refine ih ?_ fun e he => hfit e (List.mem_append_right _ he)
    rw [m.after_eq step]
    exact recorded_pending step m (fun e he => hfit e (List.mem_append_left _ he)) hm

/-! ### Running what is due -/

/-- The functions among the tasks that are due in a number of ticks, from a tick on. -/
def dueFrom (tasks : List Task) (tick count : Nat) : List (Nat × Task) :=
  (List.range' tick count).flatMap fun now =>
    (tasks.filter (·.due.toNat = now)).map fun t => (now, t)

theorem dueFrom_succ (tasks : List Task) (tick count : Nat) :
    dueFrom tasks tick (count + 1) =
      ((tasks.filter (·.due.toNat = tick)).map fun t => (tick, t)) ++
        dueFrom tasks (tick + 1) count := by
  rw [dueFrom, List.range'_succ, List.flatMap_cons]
  rfl

theorem dueFrom_congr {tasks tasks' : List Task} {tick : Nat} (count : Nat)
    (h : ∀ now, tick ≤ now →
      tasks.filter (·.due.toNat = now) = tasks'.filter (·.due.toNat = now)) :
    dueFrom tasks tick count = dueFrom tasks' tick count := by
  induction count generalizing tick with
  | zero => rfl
  | succ count ih =>
    rw [dueFrom_succ, dueFrom_succ, h tick (Nat.le_refl _), ih fun now hnow => h now (by omega)]

/-- What waits on is found among all tasks if it is due later. -/
theorem filter_waiting {tick : UInt64} {q : Task → Bool} (hq : ∀ t, q t = true → tick < t.due)
    (tasks : List Task) :
    (tasks.filter fun t => !decide (t.due ≤ tick)).filter q = tasks.filter q := by
  rw [List.filter_filter]
  refine List.filter_congr fun t _ => ?_
  cases hqt : q t with
  | false => rfl
  | true => simpa using hq t hqt

/-- A tick in which nothing fails. -/
structure PassedTick (m : Machine) (es : List Event) (m' : Machine) : Prop where
  tick : m'.tick.toNat = m.tick.toNat + 1
  pending : m'.Pending
  scheduled : m'.scheduled =
    (m.scheduled.filter fun t => !decide (t.due ≤ m'.tick)) ++ scheduledIn es
  ran : ranIn es =
    (m.scheduled.filter (·.due.toNat = m'.tick.toNat)).map fun t => (m'.tick.toNat, t)
  later : ∀ tick delay task, .schedules tick delay task ∈ es → tick = m'.tick ∧ tick < task.due

theorem passTick_ok (hm : m.Pending) (hroom : m.tick.toNat + 1 < 2 ^ 64)
    (hfit : FitClock (passTick.events m)) (hrun : passTick.run m = .ok () m') :
    PassedTick m (passTick.events m) m' := by
  obtain ⟨htick, hran⟩ := passTick_spec m
  have hpending := passTick_pending m hfit hm
  rw [hrun] at htick hran hpending
  have hnext : m'.tick = m.tick + 1 := htick.tick
  have hnow : m'.tick.toNat = m.tick.toNat + 1 := by
    rw [hnext, UInt64.toNat_add]
    exact Nat.mod_eq_of_lt hroom
  rw [← hnext] at htick hran
  refine ⟨hnow, hpending, htick.scheduled, (hran.all rfl).trans ?_, fun tick delay task hmem => ?_⟩
  · -- What waited and is due by now was due later than the tick before
    refine congrArg _ (List.filter_congr fun t ht => decide_eq_decide.2 ?_)
    have hlt := UInt64.lt_iff_toNat_lt.1 (hm t ht)
    rw [UInt64.le_iff_toNat_le]
    omega
  · obtain ⟨htick, _, hlt⟩ := htick.due hfit hmem
    exact ⟨htick, UInt64.lt_iff_toNat_lt.2 hlt⟩

/-- What is run in a number of ticks, and what waits afterwards. -/
structure PassedTicks (n : Nat) (m : Machine) (es : List Event) (m' : Machine)
    (tasks : List Task) : Prop where
  tick : m'.tick.toNat = m.tick.toNat + n
  ran : ranIn es = dueFrom tasks (m.tick.toNat + 1) n
  scheduled : m'.scheduled = tasks.filter (m'.tick < ·.due)
  later : ∀ tick delay task, .schedules tick delay task ∈ es → m.tick < tick ∧ tick < task.due

theorem passTicks_ok (n : Nat) (hm : m.Pending) (hroom : m.tick.toNat + n < 2 ^ 64)
    (hfit : FitClock ((passTicks n).events m)) (hrun : (passTicks n).run m = .ok () m') :
    PassedTicks n m ((passTicks n).events m) m'
      (m.scheduled ++ scheduledIn ((passTicks n).events m)) := by
  induction n generalizing m with
  | zero =>
    cases hrun
    refine ⟨rfl, rfl, ?_, nofun⟩
    have hall : m'.scheduled.filter (m'.tick < ·.due) = m'.scheduled :=
      List.filter_eq_self.2 fun t ht => decide_eq_true (hm t ht)
    exact (congrArg _ (List.append_nil _)).trans hall |>.symm
  | succ n ih =>
    rw [passTicks, run_bind] at hrun
    obtain ⟨_, m₁, hfirst, hrest⟩ := Run.bind_eq_ok hrun
    have hevents : (passTicks (n + 1)).events m = passTick.events m ++ (passTicks n).events m₁ :=
      events_bind_of_ok hfirst
    rw [hevents] at hfit ⊢
    have h := passTick_ok hm (by omega) (fun e he => hfit e (List.mem_append_left _ he)) hfirst
    have h' := ih h.pending (by rw [h.tick]; omega)
      (fun e he => hfit e (List.mem_append_right _ he)) hrest
    have hle : m₁.tick.toNat ≤ m'.tick.toNat := by rw [h'.tick]; omega
    have hlate : ∀ t ∈ scheduledIn (passTick.events m ++ (passTicks n).events m₁),
        m₁.tick < t.due := by
      intro t ht
      obtain ⟨tick, delay, hmem⟩ := mem_scheduledIn ht
      rcases List.mem_append.1 hmem with hmem | hmem
      · obtain ⟨rfl, hlt⟩ := h.later _ _ _ hmem
        exact hlt
      · exact UInt64.lt_trans (h'.later _ _ _ hmem).1 (h'.later _ _ _ hmem).2
    have htasks (q : Task → Bool) (hq : ∀ t, q t = true → m₁.tick < t.due) :
        (m₁.scheduled ++ scheduledIn ((passTicks n).events m₁)).filter q =
          (m.scheduled ++ scheduledIn (passTick.events m ++ (passTicks n).events m₁)).filter q := by
      rw [h.scheduled, scheduledIn_append]
      simp only [List.filter_append, filter_waiting hq, List.append_assoc]
    refine ⟨?_, ?_, ?_, fun tick delay task hmem => ?_⟩
    · rw [h'.tick, h.tick]
      omega
    · rw [ranIn_append, dueFrom_succ, h.ran, h'.ran, h.tick]
      refine congr (congrArg _ ?_) (dueFrom_congr n fun now hnow => htasks _ fun t ht => ?_)
      · have hnone : (scheduledIn (passTick.events m ++ (passTicks n).events m₁)).filter
            (·.due.toNat = m.tick.toNat + 1) = [] := by
          refine List.filter_eq_nil_iff.2 fun t ht => ?_
          have hlt := UInt64.lt_iff_toNat_lt.1 (hlate t ht)
          rw [h.tick] at hlt
          simpa using Nat.ne_of_gt hlt
        rw [List.filter_append, hnone, List.append_nil]
      · rw [UInt64.lt_iff_toNat_lt, h.tick]
        have hdue : t.due.toNat = now := by simpa using ht
        omega
    · rw [h'.scheduled]
      refine htasks _ fun t ht => ?_
      have hlt := UInt64.lt_iff_toNat_lt.1 (of_decide_eq_true ht)
      exact UInt64.lt_iff_toNat_lt.2 (by omega)
    · have hnext : m.tick < m₁.tick := UInt64.lt_iff_toNat_lt.2 (by rw [h.tick]; omega)
      rcases List.mem_append.1 hmem with hmem | hmem
      · obtain ⟨rfl, hlt⟩ := h.later _ _ _ hmem
        exact ⟨hnext, hlt⟩
      · obtain ⟨hlt, hlt'⟩ := h'.later _ _ _ hmem
        exact ⟨UInt64.lt_trans hnext hlt, hlt'⟩

/-- Whatever was done with a machine from outside, what is scheduled is due later. When a number of
    ticks pass then without an error, the clock has advanced by it, and of all functions that were
    scheduled or get scheduled meanwhile, those that are due by then were run once each, in the tick
    in which they are due and in the order of scheduling, and the others wait in that order. None is
    due in the tick in which it is scheduled. -/
theorem scheduled_functions_run_once (p : Program) (maxDepth : Nat) (steps : List HostStep)
    (hfit : FitClock (history (.start p maxDepth) steps)) :
    (steps.foldl Machine.after (.start p maxDepth)).Pending ∧
    ∀ n m m', m = steps.foldl Machine.after (.start p maxDepth) → m.tick.toNat + n < 2 ^ 64 →
      FitClock ((HostStep.ticks n).recorded.events m) → (HostStep.ticks n).run m = .ok () m' →
      PassedTicks n m ((HostStep.ticks n).recorded.events m) m'
        (m.scheduled ++ scheduledIn ((HostStep.ticks n).recorded.events m)) := by
  have hpending := Machine.Pending.afterAll (m := .start p maxDepth) nofun steps hfit
  refine ⟨hpending, ?_⟩
  rintro n m m' rfl hroom hfit' hrun
  rw [← HostStep.run_recorded] at hrun
  exact passTicks_ok n hpending hroom hfit' hrun

/-- A function that schedules another one is scheduled before the other one and after it. -/
def reschedulingProgram : Program :=
  (compileSources "pack" ["function f() \x7b __schedule(g, 0); \x7d\nfunction g() \x7b\x7d\n" ++
    "__schedule(f, 0);\n__schedule(g, 0);\n__schedule(f, 0);\n"]).program

/-- The three functions run in the first tick, and what they schedule in the second. -/
theorem scheduled_functions_run_once_rescheduling :
    ∃ m m', m = [HostStep.entry].foldl Machine.after (.start reschedulingProgram 512) ∧
      m.Pending ∧ (HostStep.ticks 2).run m = .ok () m' ∧
      PassedTicks 2 m ((HostStep.ticks 2).recorded.events m) m'
        (m.scheduled ++ scheduledIn ((HostStep.ticks 2).recorded.events m)) ∧
      (ranIn ((HostStep.ticks 2).recorded.events m)).map (·.1) = [1, 1, 1, 2, 2] := by
  have hfacts : (history (.start reschedulingProgram 512) [.entry]).all Event.fitsClock = true ∧
      ∃ m, m = [HostStep.entry].foldl Machine.after (.start reschedulingProgram 512) ∧
        m.tick = 0 ∧ ((HostStep.ticks 2).recorded.events m).all Event.fitsClock = true ∧
        Run.error? ((HostStep.ticks 2).run m) = none ∧
        (ranIn ((HostStep.ticks 2).recorded.events m)).map (·.1) = [1, 1, 1, 2, 2] :=
    ⟨by decide +kernel, _, rfl, by decide +kernel⟩
  obtain ⟨hfit, m, hm, htick, hfit', hok, hran⟩ := hfacts
  obtain ⟨hpending, hticks⟩ :=
    scheduled_functions_run_once reschedulingProgram 512 [.entry] (List.all_eq_true.1 hfit)
  rw [← hm] at hpending
  have hroom : m.tick.toNat + 2 < 2 ^ 64 := by
    rw [htick]
    decide
  cases hrun : (HostStep.ticks 2).run m with
  | error e m' =>
    rw [hrun] at hok
    cases hok
  | ok _ m' =>
    have hpassed := hticks 2 m m' hm hroom (List.all_eq_true.1 hfit') hrun
    exact ⟨m, m', hm, hpending, hrun, hpassed, hran⟩

end PackScript
