import PackScript.Proofs.Machine.Leaves

namespace PackScript

/-!
# Checks that raise one error

A run with a check differs from the run without it only where the check ends it.

* `Run.SameUnless e c c'` — the first run is the second one, unless it ends with the error.
* `Run.checked_sameUnless` — this passes from calls of units to routines and on to all of execution.
* `HostStep.runBy_sameUnless` — so a step with a check that raises one error is the step itself,
  unless it ends with that error.
-/

/-- The check ends runs with the error only. -/
def Check.Raises (check : Check) (e : MachineError) : Prop :=
  ∀ frames is m e', check frames is m = some e' → e' = e

namespace Run

variable {α β : Type} {e : MachineError}

/-- The first run is the second one, unless it ends with the error. -/
def SameUnless (e : MachineError) (c c' : Run α) : Prop :=
  ∀ m, c m = c' m ∨ ∃ m', c m = .error e m'

namespace SameUnless

theorem refl (c : Run α) : SameUnless e c c :=
  fun _ => .inl rfl

theorem bind {c c' : Run α} {f f' : α → Run β} (h : SameUnless e c c')
    (hf : ∀ a, SameUnless e (f a) (f' a)) : SameUnless e (c >>= f) (c' >>= f') := by
  intro m
  rcases h m with hsame | ⟨m', hends⟩
  · cases hc : c m with
    | ok a m1 =>
      rw [bind_of_ok hc, bind_of_ok (hsame.symm.trans hc)]
      exact hf a m1
    | error e' m1 =>
      rw [bind_of_error hc, bind_of_error (hsame.symm.trans hc)]
      exact .inl rfl
  · exact .inr ⟨m', bind_of_error hends⟩

/-- Both runs begin alike. -/
theorem after {f f' : α → Run β} (c : Run α) (hf : ∀ a, SameUnless e (f a) (f' a)) :
    SameUnless e (c >>= f) (c >>= f') :=
  bind (refl c) hf

theorem deeper {c c' : Run α} (h : SameUnless e c c') :
    SameUnless e (Run.deeper c) (Run.deeper c') := by
  intro m
  rcases h { m with depth := m.depth + 1 } with hsame | ⟨m', hends⟩
  · left
    unfold Run.deeper
    rw [hsame]
  · right
    refine ⟨{ m' with depth := m'.depth - 1 }, ?_⟩
    unfold Run.deeper
    rw [hends]

end SameUnless

theorem pairwise_sameUnless : Pairwise (SameUnless e) where
  bind := .bind
  look := fun _ => .refl _
  write := fun _ _ _ => .refl _
  append := fun _ _ => .refl _
  alone := fun _ _ _ _ => .refl _
  clock := fun _ _ hf => .after _ fun m => .after _ fun _ => hf m

/-! ### Execution -/

section

variable {call call' : Executor}
  (hcall : ∀ name channel, SameUnless e (call name channel) (call' name channel))

include hcall

theorem step_sameUnless (channel : Option String) (i : Instr) :
    SameUnless e (step call channel i) (step call' channel i) := by
  cases i with
  | invoke guard callee args store =>
    refine .after _ fun m => ?_
    split
    · refine SameUnless.bind ?_ fun _ => .refl _
      cases callee with
      | unit name => exact hcall name _
      | library r =>
        refine .after _ fun m => pairwise_sameUnless.routine hcall fun _ => ?_
        exact pairwise_sameUnless.loopArrayRoutine hcall (.refl _)
    · exact .refl _
  | _ => exact .refl _

end

/-- A check that raises one error does nothing, unless it raises the error. -/
theorem stopIf_sameUnless {check : Machine → Option MachineError} {c c' : Run α}
    (hcheck : ∀ m e', check m = some e' → e' = e) (h : SameUnless e c c') :
    SameUnless e (stopIf check >>= fun _ => c) c' := by
  intro m
  cases hstop : check m with
  | none =>
    rw [bind_of_ok (stopIf_none hstop)]
    exact h m
  | some e' =>
    obtain rfl := hcheck m e' hstop
    have hends : stopIf check m = .error e' m := by
      refine (bind_of_ok rfl).trans ?_
      rw [hstop]
      rfl
    exact .inr ⟨m, bind_of_error hends⟩

theorem checkedSteps_sameUnless {check : List Instr → Machine → Option MachineError}
    {call : Bool → Executor} {call' : Executor}
    (hcheck : ∀ is m e', check is m = some e' → e' = e)
    (hcall : ∀ direct name channel, SameUnless e (call direct name channel) (call' name channel))
    (channel : Option String) (is : List Instr) :
    SameUnless e (checkedSteps check call channel is) (steps call' channel is) := by
  induction is with
  | nil => exact stopIf_sameUnless (hcheck []) (.refl _)
  | cons i rest ih =>
    refine stopIf_sameUnless (hcheck (i :: rest)) ?_
    refine (step_sameUnless (hcall i.isDirect) channel i).bind fun code => ?_
    cases code with
    | none => exact ih
    | some code => exact .refl _

theorem checked_sameUnless {check : Check} (hcheck : check.Raises e) (levels : Nat)
    (frames : List Frame) (direct : Bool) (name : String) (channel : Option String) :
    SameUnless e (checked check levels frames direct name channel)
      (execute levels name channel) := by
  induction levels generalizing frames direct name channel with
  | zero => exact .refl _
  | succ levels ih =>
    refine .after _ fun u => .deeper ?_
    exact checkedSteps_sameUnless (hcheck _) (fun direct' => ih _ direct') channel u.instrs

theorem watched_sameUnless {check : Check} (hcheck : check.Raises e) (name : String)
    (channel : Option String) : SameUnless e (watched check name channel) (fromHost name channel) :=
  .after _ fun m => checked_sameUnless hcheck m.maxDepth [] false name channel

end Run

/-- A step with a check that raises one error. -/
theorem HostStep.runBy_sameUnless {check : Check} {e : MachineError} (hcheck : check.Raises e)
    (step : HostStep) : Run.SameUnless e (step.runBy (Run.watched check)) step.run := by
  rw [← step.runBy_fromHost]
  exact Run.pairwise_sameUnless.runBy (Run.watched_sameUnless hcheck) step

end PackScript
