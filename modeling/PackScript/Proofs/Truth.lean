import PackScript.Proofs.Control.Expression

namespace PackScript

/-!
# Truth at run time

Every condition rests on a flag that tells whether the value in a slot counts as true.

* `truthFlag_agrees` — the code that sets the flag finds out what the value counts as, for scalars
  and references of every kind.
-/

/-- **The flag of a value tells its truth.** The code that is emitted for the truth of a slot runs
    to its end in every machine whose slot holds a script value. The flag then holds whether the
    value counts as true, so it is either true or false. All slots that there were before are as
    they were. -/
theorem truthFlag_agrees (a : Slot) (s : Compiler) (ha : a.index < s.names.slots) :
    ∃ flag s' code, Compile.truthFlag a s = .ok flag s' ∧
      s'.current.instrs.toList = s.current.instrs.toList ++ code ∧
      ∀ (call : Executor) (channel : Option String) (m : Machine) (v : Nbt), m.Stored →
        v.WellFormed → m.slots.get? a.key = some v →
        ∃ m', Run.steps call channel code m = .ok Instr.normal m' ∧
          m'.slots.get? flag.key = some (Scalar.boolean (Value.ofSlot v).truthy).slot ∧
          m'.holds (isTrue flag) = (Value.ofSlot v).truthy ∧
          m'.holds (isFalse flag) = !(Value.ofSlot v).truthy ∧
          ∀ b : Slot, b.index < s.names.slots → m'.slots.get? b.key = m.slots.get? b.key := by
  obtain ⟨flag, code, s', hrun, hemits, _, _, hruns⟩ := Compile.truthFlag_yields ha
  refine ⟨flag, s', code, hrun, hemits.instrs, fun call channel m v hm hv hslot => ?_⟩
  obtain ⟨m', hstraight, hquiet, hflag⟩ := hruns m v hm hv hslot
  have hflag' : (m'.cap m.maxDepth).Flagged flag (Value.ofSlot v).truthy := hflag
  refine ⟨_, hstraight.steps_eq call channel, hflag', Machine.holds_isTrue hflag',
    Machine.holds_isFalse hflag', fun b hb => ?_⟩
  exact hquiet.slots b (Nat.not_le_of_lt hb)

/-- A machine whose first slot refers to an array, which counts as true even if it is empty. -/
def arrayMachine : Machine :=
  (Machine.start default 0).putSlot ⟨0⟩ (.slot .array (.string "x0") none)

/-- The condition of a reference to an array is met. -/
theorem truthFlag_agrees_array : ∃ flag s' m',
    Compile.truthFlag ⟨0⟩ { Compiler.start "pack" with names.slots := 1 } = .ok flag s' ∧
      Run.steps (Run.execute 0) none s'.current.instrs.toList arrayMachine =
        .ok Instr.normal m' ∧
      m'.holds (isTrue flag) = true ∧ m'.holds (isFalse flag) = false := by
  obtain ⟨flag, s', code, hflag, hcode, hruns⟩ := truthFlag_agrees ⟨0⟩
    { Compiler.start "pack" with names.slots := 1 } (by decide)
  obtain ⟨m', hrun, _, htrue, hfalse, _⟩ := hruns (Run.execute 0) none arrayMachine
    (.slot .array (.string "x0") none) (Machine.Stored.putSlot ⟨⟨_, rfl⟩, ⟨_, rfl⟩⟩ _ _)
    (Nbt.wellFormed_reference rfl "x0") rfl
  refine ⟨flag, s', m', hflag, ?_, htrue, hfalse⟩
  rw [hcode]
  exact hrun

end PackScript
