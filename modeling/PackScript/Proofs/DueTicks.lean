import PackScript.Proofs.Schedule

namespace PackScript

/-!
# The tick in which a function is due

A function is scheduled for the tick of the clock plus a delay. The clock has 64 bits, and a delay
may be as long as the clock can count, so the sum may not fit. It begins at zero again then.

* `lt_add_delay` — the sum is later than the clock if and only if it fits.
* `schedule_due_tick` — what a call schedules, whatever is given as the delay.
* `due_tick_wraps` — a function that is due long before it is scheduled.
-/

/-- A sum that does not fit is earlier than the clock. -/
theorem lt_add_delay {tick delay : UInt64} (hdelay : 0 < delay.toNat) :
    tick < tick + delay ↔ tick.toNat + delay.toNat < 2 ^ 64 := by
  have htick := tick.toNat_lt
  have hlt := delay.toNat_lt
  rw [UInt64.lt_iff_toNat_lt, UInt64.toNat_add]
  omega

/-- A call that schedules adds nothing if it is given no function. Otherwise it adds one, due after
    a delay of at least a tick, which comes from the value that is given for it. The sum of the
    clock and the delay is taken modulo the size of the clock: the function is due later if and only
    if the sum fits. -/
theorem schedule_due_tick {a : Args} {m m' : Machine} (hrun : Run.scheduleRoutine a m = .ok () m') :
    m' = m ∨ ∃ key function delay, a.text? "ticks" = some key ∧
      delay = delayTicks (m.scalar (.ofSlot (m.slot key))).toNumber ∧ 0 < delay.toNat ∧
      m' = { m with scheduled := m.scheduled ++ [⟨m.tick + delay, function⟩] } ∧
      (m.tick + delay).toNat = (m.tick.toNat + delay.toNat) % 2 ^ 64 ∧
      (m.tick < m.tick + delay ↔ m.tick.toNat + delay.toNat < 2 ^ 64) := by
  obtain ⟨function, m₁, hfunction, hread⟩ := Run.bind_eq_ok hrun
  obtain ⟨rfl, -⟩ := Run.slotArgument_looks.of_ok hfunction
  obtain ⟨ticks, m₂, hticks, hfound⟩ := Run.bind_eq_ok hread
  obtain ⟨rfl, key, hkey, rfl⟩ := Run.scalarArgument_looks.of_ok hticks
  cases hid : (function.get? "function").bind Nbt.text? with
  | none =>
    rw [hid] at hfound
    cases hfound
    exact .inl rfl
  | some id =>
    rw [hid] at hfound
    obtain ⟨_, m₃, hunit, hadd⟩ := Run.bind_eq_ok hfound
    obtain ⟨rfl, -⟩ := Run.unitOf_looks.of_ok hunit
    cases hadd
    have hpos := delayTicks_pos (m₃.scalar (.ofSlot (m₃.slot key))).toNumber
    exact .inr ⟨key, function, _, hkey, rfl, hpos, rfl, UInt64.toNat_add _ _, lt_add_delay hpos⟩

/-- A function and a delay that is a string. -/
def schedulingMachine : Machine :=
  { Machine.start (compileSources "pack" []).program 8 with
    slots := .compound [("f", .compound [("function", .string "pack:f")]),
      ("t", (Scalar.string "1").slot)] }

theorem schedule_due_tick_string :
    ∃ m' delay, Run.scheduleRoutine ⟨"c", .compound [("function", .string "f"),
      ("ticks", .string "t")]⟩
        schedulingMachine = .ok () m' ∧ 0 < delay.toNat ∧
      m'.scheduled.map (·.due) = [schedulingMachine.tick + delay] ∧
      (schedulingMachine.tick < schedulingMachine.tick + delay ↔ delay.toNat < 2 ^ 64) := by
  obtain ⟨m', hrun, hone⟩ : ∃ m', Run.scheduleRoutine
      ⟨"c", .compound [("function", .string "f"), ("ticks", .string "t")]⟩ schedulingMachine =
        .ok () m' ∧ m'.scheduled.length = 1 := ⟨_, rfl, rfl⟩
  rcases schedule_due_tick hrun with rfl | ⟨key, function, delay, _, _, hpos, rfl, _, hlater⟩
  · cases hone
  · exact ⟨_, delay, hrun, hpos, rfl, hlater.trans (by simp [schedulingMachine, Machine.start])⟩

/-! ### The end of the clock -/

/-- Time passes, and nothing is scheduled. -/
theorem Run.passTicks_idle {m : Machine} (hidle : m.scheduled = []) (n : Nat) :
    passTicks n m = .ok () { m with tick := m.tick + UInt64.ofNat n } := by
  have htick {m : Machine} (hidle : m.scheduled = []) :
      passTick m = .ok () { m with tick := m.tick + 1 } := by
    obtain ⟨program, maxDepth, slots, heap, channels, nextRecord, output, commands, tick, scheduled,
      depth⟩ := m
    cases hidle
    rfl
  induction n generalizing m with
  | zero =>
    show EStateM.Result.ok () m = .ok () { m with tick := m.tick + 0 }
    rw [UInt64.add_zero]
  | succ n ih =>
    have hsum : m.tick + UInt64.ofNat (n + 1) = m.tick + 1 + UInt64.ofNat n := by
      rw [UInt64.ofNat_add, UInt64.add_assoc, UInt64.add_comm 1]
      rfl
    rw [passTicks, bind_of_ok (htick hidle), hsum]
    exact ih hidle

/-- A function is scheduled with the shortest delay. -/
def schedulingProgram : Program :=
  (compileSources "pack" ["function f() \x7b\x7d\n__schedule(f, 1);\n"]).program

/-- What is scheduled in the last tick of the clock is due in a tick that has passed. A delay of one
    tick is enough. For long ones, such as `1e300`, nothing is known here of `Float.ceil`. -/
theorem due_tick_wraps :
    ∃ m m', m = [HostStep.ticks (2 ^ 64 - 1)].foldl Machine.after (.start schedulingProgram 8) ∧
      m' = m.after .entry ∧ m.scheduled = [] ∧ m'.scheduled.map (·.due) = [0] ∧
      m'.tick.toNat = 2 ^ 64 - 1 := by
  let last : Machine := { Machine.start schedulingProgram 8 with tick := UInt64.ofNat (2 ^ 64 - 1) }
  have hrun : (HostStep.ticks (2 ^ 64 - 1)).run (.start schedulingProgram 8) = .ok () _ :=
    Run.passTicks_idle rfl (2 ^ 64 - 1)
  have hlast : [HostStep.ticks (2 ^ 64 - 1)].foldl Machine.after (.start schedulingProgram 8) =
      last := by
    rw [List.foldl_cons, List.foldl_nil, Machine.after, hrun]
    exact congrArg (fun tick => { Machine.start schedulingProgram 8 with tick := tick })
      (UInt64.zero_add _)
  refine ⟨_, _, rfl, rfl, ?_⟩
  rw [hlast]
  decide +kernel

end PackScript
