import PackScript.Proofs.Machine.Step
import PackScript.Proofs.Uses.Basic

namespace PackScript

/-!
# Arguments of routines

* `Run.Sees` — a run that looks at the machine and succeeds.
* `Run.argument_run`, `Run.slotArgument_run`, … — what is read of an argument that is there.
* `Routine.Finds` — a channel has the arguments of a routine, so all of them can be read.
-/

/-- An operator is the one that its text names. -/
theorem BinaryOp.ofText?_text (op : BinaryOp) : BinaryOp.ofText? op.text = some op := by
  cases op <;> decide

theorem afterStart?_functionId (ns name : String) :
    afterStart? (ns ++ ":") (functionId ns name) = some name.toList := by
  rw [afterStart?, List.isPrefixOf?_eq_some_iff_append_eq]
  simp [functionId]

namespace Run

/-- Succeeds, and leaves the machine as it is. -/
def Sees {α : Type} (m : Machine) (c : Run α) : Prop :=
  ∃ a, c m = .ok a m

variable {m : Machine} {a : Args} {key t : String}

theorem argument_run (h : a.text? key = some t) : argument a key m = .ok t m := by
  rw [argument, h]
  rfl

theorem slotArgument_run (h : a.text? key = some t) :
    slotArgument a key m = .ok (m.slot t) m :=
  bind_of_ok (argument_run h)

theorem valueArgument_run (h : a.text? key = some t) :
    valueArgument a key m = .ok (.ofSlot (m.slot t)) m :=
  bind_of_ok (slotArgument_run h)

theorem scalarArgument_run (h : a.text? key = some t) :
    scalarArgument a key m = .ok (m.scalar (.ofSlot (m.slot t))) m :=
  bind_of_ok (valueArgument_run h)

theorem operatorArgument_run {op : BinaryOp} (h : a.text? "operation" = some op.text) :
    operatorArgument a m = .ok op m := by
  refine (bind_of_ok (argument_run h)).trans ?_
  simp only [op.ofText?_text]
  rfl

theorem unitOf_run (m : Machine) (name : String) :
    unitOf (functionId m.program.ns name) m = .ok name m := by
  refine (bind_of_ok rfl).trans ?_
  rw [afterStart?_functionId]
  simp only [String.ofList_toList]
  rfl

end Run

/-- What is in a channel. -/
def Machine.filled (m : Machine) (channel : String) : Nbt :=
  (m.channels.get? channel).getD .empty

/-- The channel has the arguments of the routine. -/
abbrev Routine.Finds (r : Routine) (a : Args) : Prop :=
  r.Served fun name t => a.text? name = some t

/-- The routine cannot do without the argument. -/
abbrev Routine.Needs (r : Routine) (key : String) : Prop :=
  key ∈ r.args.map (·.1)

namespace Routine.Finds

variable {r : Routine} {a : Args} {m : Machine} {key : String} (h : r.Finds a)

include h

theorem text (hkey : r.Needs key) : ∃ t, a.text? key = some t := by
  obtain ⟨x, hx, rfl⟩ := List.mem_map.1 hkey
  obtain ⟨t, ht, _⟩ := h.args x hx
  exact ⟨t, ht⟩

theorem argument (hkey : r.Needs key) : Run.Sees m (Run.argument a key) := by
  obtain ⟨t, ht⟩ := h.text hkey
  exact ⟨t, Run.argument_run ht⟩

theorem slot (hkey : r.Needs key) : Run.Sees m (Run.slotArgument a key) := by
  obtain ⟨t, ht⟩ := h.text hkey
  exact ⟨_, Run.slotArgument_run ht⟩

theorem value (hkey : r.Needs key) : Run.Sees m (Run.valueArgument a key) := by
  obtain ⟨t, ht⟩ := h.text hkey
  exact ⟨_, Run.valueArgument_run ht⟩

theorem scalar (hkey : r.Needs key) : Run.Sees m (Run.scalarArgument a key) := by
  obtain ⟨t, ht⟩ := h.text hkey
  exact ⟨_, Run.scalarArgument_run ht⟩

theorem operator (hkey : ("operation", .operator) ∈ r.args) :
    Run.Sees m (Run.operatorArgument a) := by
  obtain ⟨t, ht, hop⟩ := h.args _ hkey
  obtain ⟨op, rfl⟩ := hop rfl
  exact ⟨op, Run.operatorArgument_run ht⟩

/-- The name of a member that is written stands in the channel, or in a slot. -/
theorem property (hr : r = .setMember) : Run.Sees m (Run.writtenProperty a) := by
  unfold Run.writtenProperty
  cases hproperty : a.text? "property" with
  | some t => exact ⟨t, rfl⟩
  | none =>
    obtain ⟨t, ht⟩ := h.member hr
    rcases ht with ht | ht
    · cases hproperty.symm.trans ht
    · exact ⟨_, Run.bind_of_ok (Run.scalarArgument_run ht)⟩

end Routine.Finds

end PackScript
