import Mathlib
import PackScript.Machine.Execute

namespace PackScript

/-!
# Steps of the machine

One equation for each instruction, and the lemmas that take a run apart.
-/

@[simp] theorem Machine.start_program (p : Program) (maxDepth : Nat) :
    (Machine.start p maxDepth).program = p := rfl

namespace Run

variable {α β : Type} {m m' : Machine}

/-! ### Runs one after the other -/

theorem bind_of_ok {c : Run α} {f : α → Run β} {a : α} (h : c m = .ok a m') :
    (c >>= f) m = f a m' := by
  show EStateM.bind c f m = f a m'
  rw [EStateM.bind, h]

theorem bind_of_error {c : Run α} {f : α → Run β} {e : MachineError} (h : c m = .error e m') :
    (c >>= f) m = .error e m' := by
  show EStateM.bind c f m = .error e m'
  rw [EStateM.bind, h]

theorem bind_eq_ok {c : Run α} {f : α → Run β} {b : β} (h : (c >>= f) m = .ok b m') :
    ∃ a m1, c m = .ok a m1 ∧ f a m1 = .ok b m' := by
  cases hc : c m with
  | ok a m1 => exact ⟨a, m1, rfl, (bind_of_ok hc).symm.trans h⟩
  | error e m1 => cases (bind_of_error hc).symm.trans h

/-! ### Instructions -/

variable {call : Executor} {channel : Option String}

theorem step_set (guard : Guard) (target : Place) (source : Source) :
    step call channel (.set guard target source) m =
      match if m.holds guard then m.take channel source else none with
      | some value => (write target.address.storage target.fullPath value >>= fun _ => pure none) m
      | none => .ok none m := by
  refine (bind_of_ok rfl).trans ?_
  cases m.holds guard with
  | false => rfl
  | true => cases m.take channel source <;> rfl

theorem step_append (target : Place) (source : Source) :
    step call channel (.append target source) m = match m.take channel source with
      | some value => (append target.address.storage target.fullPath value >>= fun _ => pure none) m
      | none => .ok none m := by
  refine (bind_of_ok rfl).trans ?_
  cases m.take channel source <;> rfl

theorem step_invoke (guard : Guard) (target : Callee) (args : Option Channel)
    (store : Option Place) :
    step call channel (.invoke guard target args store) m =
      if m.holds guard then
        (callee call (args.map (·.key)) target >>= fun code =>
          storeCode store code >>= fun _ => pure none) m
      else .ok none m := by
  refine (bind_of_ok rfl).trans ?_
  cases m.holds guard <;> rfl

theorem step_returnIf (guard : Guard) (code : Int32) :
    step call channel (.returnIf guard code) m =
      .ok (if m.holds guard then some code else none) m := rfl

theorem step_returnWith (code : Int32) :
    step call channel (.returnWith code) m = .ok (some code) m := rfl

theorem step_raw (text : String) :
    step call channel (.raw text) m = .ok none (m.command text) := rfl

theorem steps_cons (i : Instr) (rest : List Instr) :
    steps call channel (i :: rest) m = match step call channel i m with
      | .ok (some code) m1 => .ok code m1
      | .ok none m1 => steps call channel rest m1
      | .error e m1 => .error e m1 := by
  cases hstep : step call channel i m with
  | ok answer m1 =>
    refine (bind_of_ok hstep).trans ?_
    cases answer <;> rfl
  | error e m1 => exact bind_of_error hstep

/-! ### Units -/

theorem findUnit_run (name : String) (m : Machine) :
    findUnit name m = match m.program.units.find? name with
      | some u => .ok u m
      | none => .error (.unknownUnit name) m := by
  refine (bind_of_ok rfl).trans ?_
  cases m.program.units.find? name <;> rfl

theorem execute_zero {name : String} {u : CodeUnit} (hu : m.program.units.find? name = some u) :
    execute 0 name channel m = .error (.depthExceeded m.maxDepth) m := by
  have hfind : findUnit name m = .ok u m := by rw [findUnit_run, hu]
  exact (bind_of_ok hfind).trans rfl

theorem execute_succ {levels : Nat} {name : String} {u : CodeUnit}
    (hu : m.program.units.find? name = some u) :
    execute (levels + 1) name channel m =
      deeper (steps (execute levels) channel u.instrs) m := by
  have hfind : findUnit name m = .ok u m := by rw [findUnit_run, hu]
  exact bind_of_ok hfind

theorem execute_missing {levels : Nat} {name : String}
    (hu : m.program.units.find? name = none) :
    execute levels name channel m = .error (.unknownUnit name) m := by
  have hfind : findUnit name m = .error (.unknownUnit name) m := by rw [findUnit_run, hu]
  cases levels <;> exact bind_of_error hfind

end Run

end PackScript
