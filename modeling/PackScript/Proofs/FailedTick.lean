import PackScript.Proofs.Schedule

namespace PackScript

/-!
# Scheduled functions that fail

The functions that are due in a tick are taken from the list before the first of them runs. If one
of them fails, the tick ends there, and those behind it are neither run nor put back.
-/

open Recorded

/-- Ticks that end with an error. Of all functions that were scheduled or get scheduled meanwhile,
    some were run, the last of which failed, some are lost, and the others wait. -/
structure FailedTicks (m : Machine) (es : List Event) (m' : Machine) (done : List (Nat × Task))
    (failed : Task) (lost : List Task) : Prop where
  ran : ranIn es = done ++ [(m'.tick.toNat, failed)]
  accounted : (m.scheduled ++ scheduledIn es).Perm
    (done.map (·.2) ++ (failed :: lost) ++ m'.scheduled)
  /-- In the order of scheduling, what is lost stands behind the function that failed -/
  behind : (failed :: lost).Sublist (m.scheduled ++ scheduledIn es)
  due : ∀ t ∈ lost, t.due ≤ m'.tick

variable {m m' m'' : Machine} {e : MachineError} {es : List Event} {done : List (Nat × Task)}
  {failed : Task} {lost : List Task}

/-! ### One tick -/

/-- What was scheduled is taken from the list if it is due. -/
theorem passTick_perm (m : Machine) :
    (m.scheduled ++ scheduledIn (passTick.events m)).Perm
      (m.scheduled.filter (·.due ≤ m.tick + 1) ++ (Run.final (passTick.run m)).scheduled) := by
  rw [(passTick_spec m).1.scheduled, ← List.append_assoc]
  exact (List.filter_append_perm _ _).symm.append_right _

theorem passTick_error (hrun : passTick.run m = .error e m') :
    ∃ done failed lost, FailedTicks m (passTick.events m) m' done failed lost := by
  obtain ⟨htick, hruns⟩ := passTick_spec m
  have hperm := passTick_perm m
  rw [hrun] at htick hruns hperm
  have hnow : m'.tick = m.tick + 1 := htick.tick
  obtain ⟨done, failed, lost, hsplit, hran⟩ := hruns.fails rfl
  have hlost : (failed :: lost).Sublist (m.scheduled.filter (·.due ≤ m.tick + 1)) := by
    rw [hsplit]
    exact List.sublist_append_right _ _
  refine ⟨done.map fun t => (m'.tick.toNat, t), failed, lost, ?_, ?_, ?_, fun t ht => ?_⟩
  · rw [hran, List.map_append, hnow]
    rfl
  · simpa [Run.final, hsplit, Function.comp_def] using hperm
  · exact (hlost.trans List.filter_sublist).trans (List.sublist_append_left _ _)
  · rw [hnow]
    exact of_decide_eq_true (List.mem_filter.1 (hlost.mem (List.mem_cons_of_mem _ ht))).2

/-! ### Any number of ticks -/

/-- A tick that passes before ticks that end with an error. -/
theorem FailedTicks.after_passTick (hfirst : passTick.run m = .ok () m')
    (h : FailedTicks m' es m'' done failed lost) :
    FailedTicks m (passTick.events m ++ es) m'' (ranIn (passTick.events m) ++ done)
      failed lost := by
  obtain ⟨htick, hruns⟩ := passTick_spec m
  have hperm := passTick_perm m
  rw [hfirst] at htick hruns hperm
  refine ⟨?_, ?_, ?_, h.due⟩
  · rw [ranIn_append, h.ran, List.append_assoc]
  · have hothers := h.accounted.append_left ((ranIn (passTick.events m)).map (·.2))
    have hran : (ranIn (passTick.events m)).map (·.2) =
      m.scheduled.filter (·.due ≤ m.tick + 1) := by
      simp [hruns.all rfl, Function.comp_def]
    have hfirstTick := hperm.append_right (scheduledIn es)
    rw [← hran] at hfirstTick
    rw [scheduledIn_append, List.map_append]
    simp only [List.append_assoc] at hfirstTick hothers ⊢
    exact hfirstTick.trans hothers
  · have hscheduled : m'.scheduled = _ := htick.scheduled
    have hkept : m'.scheduled.Sublist (m.scheduled ++ scheduledIn (passTick.events m)) := by
      rw [hscheduled]
      exact List.filter_sublist.append_right _
    rw [scheduledIn_append, ← List.append_assoc]
    exact h.behind.trans (hkept.append_right _)

theorem passTicks_error (n : Nat) (hrun : (passTicks n).run m = .error e m') :
    ∃ done failed lost, FailedTicks m ((passTicks n).events m) m' done failed lost := by
  induction n generalizing m with
  | zero => cases hrun
  | succ n ih =>
    rw [passTicks, run_bind] at hrun
    rw [passTicks]
    cases hfirst : passTick.run m with
    | error e₁ m₁ =>
      rw [Run.bind_of_error hfirst] at hrun
      rw [events_bind_of_error hfirst]
      cases hrun
      exact passTick_error hfirst
    | ok _ m₁ =>
      rw [Run.bind_of_ok hfirst] at hrun
      rw [events_bind_of_ok hfirst]
      obtain ⟨done, failed, lost, h⟩ := ih hrun
      exact ⟨_, failed, lost, h.after_passTick hfirst⟩

/-- If a scheduled function fails, it is the last one that was run, in the tick of the clock at the
    end. Of all functions that were scheduled or get scheduled meanwhile, each one was run, or waits
    still, or is lost: those that are lost are due and were scheduled after the one that failed. -/
theorem failing_function_loses_those_behind {n : Nat}
    (hrun : (HostStep.ticks n).run m = .error e m') :
    ∃ done failed lost,
      FailedTicks m ((HostStep.ticks n).recorded.events m) m' done failed lost := by
  rw [← HostStep.run_recorded] at hrun
  exact passTicks_error n hrun

/-- Two functions are due in the first tick, and the first of them fails. -/
def failingProgram : Program :=
  (compileSources "pack" ["function fails() \x7b while (true) \x7b\x7d \x7d\n" ++
    "function behind() \x7b\x7d\n__schedule(fails, 0);\n__schedule(behind, 0);\n"]).program

/-- Of two functions one fails and one is lost. -/
theorem failing_function_loses_those_behind_of_two :
    ∃ m m' e, (HostStep.ticks 1).run m = .error e m' ∧
      ∃ done failed lost,
        FailedTicks m ((HostStep.ticks 1).recorded.events m) m' done failed lost ∧
          lost.length = 1 := by
  obtain ⟨m, hm⟩ : ∃ m, m = [HostStep.entry].foldl Machine.after (.start failingProgram 8) :=
    ⟨_, rfl⟩
  have hcounts : Run.succeeds ((HostStep.ticks 1).run m) = false ∧
      (m.scheduled ++ scheduledIn ((HostStep.ticks 1).recorded.events m)).length = 2 ∧
      (ranIn ((HostStep.ticks 1).recorded.events m)).length = 1 ∧
      (Run.final ((HostStep.ticks 1).run m)).scheduled.length = 0 := by
    rw [hm]
    decide +kernel
  obtain ⟨hfails, hall, hran, hwaits⟩ := hcounts
  cases hrun : (HostStep.ticks 1).run m with
  | ok _ m' =>
    rw [hrun] at hfails
    cases hfails
  | error e m' =>
    obtain ⟨done, failed, lost, h⟩ := failing_function_loses_those_behind hrun
    refine ⟨m, m', e, hrun, done, failed, lost, h, ?_⟩
    have hlengths := h.accounted.length_eq
    rw [hrun] at hwaits
    rw [h.ran] at hran
    simp only [Run.final, List.length_append, List.length_map, List.length_cons,
      List.length_nil] at hall hran hwaits hlengths
    omega

/-- Two functions are due in the tick. One of them is run, and none waits afterwards. -/
theorem function_behind_a_failing_one_is_lost :
    ∃ m, m = [HostStep.entry].foldl Machine.after (.start failingProgram 8) ∧
      m.scheduled.map (·.due) = [1, 1] ∧ Run.succeeds ((HostStep.ticks 1).run m) = false ∧
      (ranIn ((HostStep.ticks 1).recorded.events m)).map (·.2.due) = [1] ∧
      (Run.final ((HostStep.ticks 1).run m)).scheduled.map (·.due) = [] :=
  ⟨_, rfl, by decide +kernel⟩

end PackScript
