import PackScript.Compile.Operator
import PackScript.Proofs.Machine.Straight

namespace PackScript

/-!
# Folded operators

An operator on two known values is computed by the compiler, one on two slots by a routine of the
machine. Both ways give the same value, so it does not matter what the compiler knows.

* `Compile.applyBinary_slots` — what is emitted for an operator on two slots.
* `folding_agrees_with_running` — running it leaves the value that would have been folded.
-/

namespace Compile

/-- A call of a library routine emits its code with a fresh channel. -/
theorem callLibrary_run (routine : Routine) (entries : Entries) (s : Compiler) :
    callLibrary routine entries s = .ok () ({ s with names.channels := s.names.channels + 1 }.push
      (Run.libraryCode ⟨s.names.channels⟩ routine entries)) := by
  rw [Run.libraryCode, Compiler.push_append]
  exact bind_of_ok (fillChannel_run entries s)

/-- The state after an operator was emitted: a fresh slot, a fresh channel, and the code. -/
def afterOperator (s : Compiler) (name : Routine) (operation : Option String)
    (left right : Slot) : Compiler :=
  { s with
    names.slots := s.names.slots + 1
    names.channels := s.names.channels + 1 }.push
      (Run.libraryCode ⟨s.names.channels⟩ name
        (Run.literalEntries (Run.operatorEntries left right ⟨s.names.slots⟩ operation)))

/-- An operator on two slots calls its routine. -/
theorem applyBinary_slots {op : BinaryOp} {name : Routine} {operation : Option String}
    (hroutine : op.routine? = some (name, operation)) (left right : Slot) (span : Span)
    (s : Compiler) :
    applyBinary op (.slot left) (.slot right) span s =
      .ok (.slot ⟨s.names.slots⟩) (afterOperator s name operation left right) := by
  simp only [applyBinary, Lowered.fold, hroutine]
  refine (bind_of_ok rfl).trans ((bind_of_ok rfl).trans ((bind_of_ok rfl).trans ?_))
  refine (bind_of_ok (callLibrary_run name _ _)).trans ?_
  rw [afterOperator, Run.literalEntries_operator]
  rfl

end Compile

/-- **Folding is what running does.** For every operator that has a routine and all constants, the
    code that is emitted for two slots leaves in its result slot, when the slots hold the
    constants, exactly the value that the compiler folds the constants to. It changes no other
    slot. -/
theorem folding_agrees_with_running (op : BinaryOp) (hop : op.routine?.isSome) (l r : Scalar)
    (left right : Slot) (span : Span) (s : Compiler) :
    ∃ v result s' code, Scalar.binary op l r = some v ∧
      Compile.applyBinary op (.known l) (.known r) span s = .ok (.known v) s ∧
      Compile.applyBinary op (.slot left) (.slot right) span s = .ok (.slot result) s' ∧
      s'.current.instrs.toList = s.current.instrs.toList ++ code ∧
      ∀ (call : Executor) (channel : Option String) (m : Machine), m.Stored →
        m.slots.get? left.key = some l.slot → m.slots.get? right.key = some r.slot →
        ∃ m', Run.steps call channel code m = .ok Instr.normal m' ∧
          m'.slots.get? result.key = some v.slot ∧
          ∀ key, key ≠ result.key → m'.slots.get? key = m.slots.get? key := by
  obtain ⟨⟨name, operation⟩, hroutine⟩ := Option.isSome_iff_exists.1 hop
  -- the operators with a routine have a value on all constants
  obtain ⟨v, hv⟩ : ∃ v, Scalar.binary op l r = some v := by
    cases op <;> first | exact ⟨_, rfl⟩ | cases hroutine
  refine ⟨v, ⟨s.names.slots⟩, Compile.afterOperator s name operation left right, _, hv, ?_,
    Compile.applyBinary_slots hroutine left right span s,
    Compiler.toList_instrs_push _ _, fun call channel m hm hl hr => ?_⟩
  · simp only [Compile.applyBinary, Lowered.fold, hv]
    rfl
  · obtain ⟨v', hv', hrun⟩ := Run.straight_operator hroutine ⟨s.names.channels⟩
      ⟨s.names.slots⟩ hm hl hr
    obtain rfl : v = v' := Option.some.inj (hv.symm.trans hv')
    refine ⟨_, hrun.steps_eq call channel, ?_, fun key hkey => ?_⟩
    · simp
    · simp [Ne.symm hkey]

/-- Two slots, the first of which holds a number that is none. -/
def notANumberMachine : Machine :=
  ((Machine.start default 0).putSlot ⟨0⟩ (Scalar.number notANumber).slot).putSlot ⟨1⟩
    (Scalar.string "1").slot

/-- What is no number is not even at most another value, at run time as in the compiler. -/
theorem folding_agrees_with_running_notANumber :
    (BinaryOp.routine? .ltEq).isSome ∧ ∃ result s' code m',
      Compile.applyBinary .ltEq (.slot ⟨0⟩) (.slot ⟨1⟩) .origin (Compiler.start "pack") =
        .ok (.slot result) s' ∧
      s'.current.instrs.toList = code ∧
      Run.steps (Run.execute 0) none code notANumberMachine = .ok Instr.normal m' ∧
      m'.slots.get? result.key = some (Scalar.boolean false).slot := by
  have horder : Scalar.compareBy (·.isLE) (.number notANumber) (.string "1") = false := by
    decide +kernel
  have hvalue : Scalar.binary .ltEq (.number notANumber) (.string "1") =
      some (.boolean false) := by
    rw [Scalar.binary, horder]
  obtain ⟨v, result, s', code, hv, _, hemit, hcode, hrun⟩ := folding_agrees_with_running .ltEq
    (by decide) (.number notANumber) (.string "1") ⟨0⟩ ⟨1⟩ .origin (Compiler.start "pack")
  obtain rfl : v = .boolean false := Option.some.inj (hv.symm.trans hvalue)
  obtain ⟨m', hsteps, hresult, _⟩ := hrun (Run.execute 0) none notANumberMachine
    ((Machine.Stored.putSlot ⟨⟨_, rfl⟩, ⟨_, rfl⟩⟩ _ _).putSlot _ _) rfl rfl
  exact ⟨by decide, result, s', code, m', hemit, hcode, hsteps, hresult⟩

end PackScript
