import PackScript.Proofs.Machine.Leaves
import PackScript.Proofs.Recorded.Basic

namespace PackScript

/-!
# Laws of recorded runs

What is said about the events of a run is proved for its parts, and passes from them to the whole.

* `Machine.clock` — the time and what is scheduled. What has no event of its own leaves it alone.
* `Law` — something that is said about two machines, the events between them, and whether the run
  succeeded, and that passes from the parts of a run to the whole.
* `Law.At`, `Law.Obeyed` — a run obeys a law, from a machine on or wherever it begins.
* `Law.Basic`, `Law.Basic.fromHost` — if the routines of promises and of the clock obey a law, so
  does every execution of a unit. `Law.recorded`: with ticks that do, so does every step from
  outside.
-/

/-! ### The clock -/

/-- The time, and what is scheduled. -/
def Machine.clock (m : Machine) : UInt64 × List Task :=
  (m.tick, m.scheduled)

theorem Machine.aside_clock : Aside clock :=
  ⟨fun _ _ => rfl, fun _ _ => rfl, fun _ _ => rfl, fun _ _ => rfl⟩

namespace Run

theorem write_leaves_clock (st : Storage) (path : List String) (value : Nbt) :
    Leaves Machine.clock (write st path value) :=
  .write st (fun _ _ => by cases st <;> rfl) path value

theorem append_leaves_clock (st : Storage) (path : List String) (value : Nbt) :
    Leaves Machine.clock (append st path value) :=
  .append (fun _ _ => by cases st <;> rfl) path value

theorem storeCode_leaves_clock (store : Option Place) (code : Int32) :
    Leaves Machine.clock (storeCode store code) := by
  cases store with
  | none => exact .pure _
  | some p => exact write_leaves_clock _ _ _

/-- An instruction that calls nothing leaves the clock alone. -/
theorem step_leaves_clock (channel : Option String) {i : Instr}
    (hi : ∀ guard target args store, i ≠ .invoke guard target args store) :
    Leaves Machine.clock (step Recorded.callNothing channel i) := by
  cases i with
  | set guard target source =>
    refine .get fun m => ?_
    dsimp only
    split
    · split
      · exact (write_leaves_clock _ _ _).bind fun _ => .pure _
      · exact .pure _
    · exact .pure _
  | append target source =>
    refine .get fun m => ?_
    dsimp only
    split
    · exact (append_leaves_clock _ _ _).bind fun _ => .pure _
    · exact .pure _
  | invoke guard target args store => exact absurd rfl (hi guard target args store)
  | returnIf guard code => exact .get fun _ => .pure _
  | returnWith code => exact .pure _
  | raw text => exact fun _ => rfl

/-- The run succeeds. -/
def succeeds {α : Type} : EStateM.Result MachineError Machine α → Bool
  | .ok _ _ => true
  | .error _ _ => false

end Run

/-! ### Laws -/

/-- Something that is said about the machine before a run, the events, the machine after it, and
    whether the run succeeded. -/
structure Law where
  Holds : Machine → List Event → Machine → Bool → Prop
  nothing : ∀ m, Holds m [] m true
  trans : ∀ {m m1 m2 es es' ok}, Holds m es m1 true → Holds m1 es' m2 ok → Holds m (es ++ es') m2 ok
  moved : ∀ {m m'} ok, m'.clock = m.clock → Holds m [.moved m m'] m' ok
  deeper : ∀ {m es m' ok}, Holds { m with depth := m.depth + 1 } es m' ok →
    Holds m es { m' with depth := m'.depth - 1 } ok

open Recorded

namespace Law

variable {α β : Type} {L : Law}

/-- The run obeys the law from a machine on. -/
def At (L : Law) (m : Machine) (c : Recorded α) : Prop :=
  L.Holds m (c.events m) (Run.final (c.run m)) (Run.succeeds (c.run m))

/-- The run obeys the law, wherever it begins. -/
def Obeyed (L : Law) (c : Recorded α) : Prop :=
  ∀ m, L.At m c

theorem At.bind {m : Machine} {c : Recorded α} {f : α → Recorded β} (h : L.At m c)
    (hf : ∀ a m', c.run m = .ok a m' → L.At m' (f a)) : L.At m (c >>= f) := by
  unfold At at h ⊢
  cases hc : c.run m with
  | ok a m' =>
    rw [hc] at h
    rw [events_bind_of_ok hc, run_bind, Run.bind_of_ok hc]
    exact L.trans h (hf a m' hc)
  | error e m' =>
    rw [hc] at h
    rw [events_bind_of_error hc, run_bind, Run.bind_of_error hc]
    exact h

/-- A part that only looks at the machine tells something about it. -/
theorem At.look {m : Machine} {c : Run α} {f : α → Recorded β} {P : α → Prop}
    (h : Run.Looks m c P) (hf : ∀ a, P a → L.At m (f a)) : L.At m (act c >>= f) := by
  refine At.bind (L.moved _ ?_) fun a m' hc => ?_
  · unfold Run.Looks at h
    cases hc : c m with
    | ok a m' | error e m' =>
      rw [hc] at h
      exact congrArg Machine.clock h.1
  · obtain ⟨rfl, ha⟩ := h.of_ok hc
    exact hf a ha

namespace Obeyed

theorem pure (a : α) : L.Obeyed (Pure.pure a) :=
  fun m => L.nothing m

theorem bind {c : Recorded α} {f : α → Recorded β} (h : L.Obeyed c) (hf : ∀ a, L.Obeyed (f a)) :
    L.Obeyed (c >>= f) :=
  fun m => (h m).bind fun a m' _ => hf a m'

theorem act {c : Run α} (h : Run.Leaves Machine.clock c) : L.Obeyed (Recorded.act c) :=
  fun m => L.moved _ (h m)

/-- A part that only looks at the machine. -/
theorem look {c : Run α} {P : Machine → α → Prop} (h : ∀ m, Run.Looks m c (P m)) :
    L.Obeyed (Recorded.act c) :=
  .act (.of_looks h)

theorem get : L.Obeyed (Recorded.act MonadState.get) :=
  .act fun _ => rfl

theorem forM {f : β → Recorded PUnit} (hf : ∀ b, L.Obeyed (f b)) (items : List β) :
    L.Obeyed (items.forM f) := by
  induction items with
  | nil => exact .pure _
  | cons b rest ih => exact (hf b).bind fun _ => ih

theorem normally {c : Recorded Unit} (h : L.Obeyed c) : L.Obeyed (Recorded.normally c) :=
  h.bind fun _ => .pure _

theorem deeper {c : Recorded α} (h : L.Obeyed c) : L.Obeyed (Recorded.deeper c) := by
  intro m
  have hm := L.deeper (h { m with depth := m.depth + 1 })
  show L.Holds m _ (Run.final (Run.deeper c.run m)) (Run.succeeds (Run.deeper c.run m))
  unfold Run.deeper
  cases hc : c.run { m with depth := m.depth + 1 } with
  | ok a m' | error e m' =>
    rw [hc] at hm
    exact hm

end Obeyed

/-! ### Routines that call units -/

section

variable {call : Caller} (hcall : ∀ name channel, L.Obeyed (call name channel))

include hcall

theorem Obeyed.invokeFunction (callee : Nbt) (channel : String) :
    L.Obeyed (Recorded.invokeFunction call callee channel) := by
  unfold Recorded.invokeFunction
  split
  · exact .pure _
  · refine Obeyed.bind (.look fun _ => Run.unitOf_looks) fun unit => ?_
    refine Obeyed.bind (.look fun _ => Run.boundThis_looks) fun bound => ?_
    cases bound with
    | none => exact hcall _ _
    | some bound => exact (Obeyed.act (Run.write_leaves_clock _ _ _)).bind fun _ => hcall _ _

theorem Obeyed.callFunction (a : Args) : L.Obeyed (Recorded.callFunction call a) := by
  refine Obeyed.bind (.act Run.slotArgument_leaves) fun callee => ?_
  exact Obeyed.bind (.act Run.argument_leaves) fun channel => .invokeFunction hcall callee channel

theorem Obeyed.eachElement (address unit channel : String) (rounds index : Nat) :
    L.Obeyed (Recorded.eachElement call address unit channel rounds index) := by
  induction rounds generalizing index with
  | zero => exact .act fun _ => rfl
  | succ rounds ih =>
    refine Obeyed.get.bind fun m => ?_
    split
    · exact .pure _
    · refine Obeyed.bind (.act (Run.write_leaves_clock _ _ _)) fun _ =>
        (hcall _ _).bind fun code => ?_
      split
      · exact .pure _
      · split
        · exact .pure _
        · exact ih _

theorem Obeyed.loopArray (a : Args) : L.Obeyed (Recorded.loopArray call a) := by
  refine Obeyed.bind (.act Run.valueArgument_leaves) fun array => ?_
  split
  · refine Obeyed.bind (.act (Run.argument_leaves.bind fun _ => Run.unitOf_leaves)) fun unit => ?_
    exact Obeyed.bind (.act Run.argument_leaves) fun channel => .eachElement hcall _ _ _ _ _
  · exact .pure _

theorem Obeyed.callListener (channel : String) (value listener : Nbt) :
    L.Obeyed (Recorded.callListener call channel value listener) := by
  refine Obeyed.bind (.act (Run.write_leaves_clock _ _ _)) fun _ => ?_
  exact (Obeyed.invokeFunction hcall listener channel).bind fun _ => .pure _

end

/-! ### Execution -/

/-- The routines of promises and of the clock obey the law if the calls that they make do. -/
structure Basic (L : Law) : Prop where
  resolvePromise : ∀ {call : Caller}, (∀ name channel, L.Obeyed (call name channel)) →
    ∀ a, L.Obeyed (Recorded.resolvePromise call a)
  awaitPromise : ∀ {call : Caller}, (∀ name channel, L.Obeyed (call name channel)) →
    ∀ a, L.Obeyed (Recorded.awaitPromise call a)
  schedule : ∀ a, L.Obeyed (Recorded.schedule a)

section

variable (hL : L.Basic)

include hL

section

variable {call : Caller} (hcall : ∀ name channel, L.Obeyed (call name channel))

include hcall

theorem Basic.routine (a : Args) (r : Routine) : L.Obeyed (Recorded.routine call a r) := by
  cases r with
  | loopArray => exact .loopArray hcall a
  | callFunction => exact .callFunction hcall a
  | resolvePromise => exact (hL.resolvePromise hcall a).normally
  | awaitPromise => exact (hL.awaitPromise hcall a).normally
  | schedule => exact (hL.schedule a).normally
  | _ => exact .act (Run.routine_leaves Machine.aside_clock _ id nofun)

theorem Basic.step (channel : Option String) (i : Instr) :
    L.Obeyed (Recorded.step call channel i) := by
  cases i with
  | invoke guard target args store =>
    refine Obeyed.get.bind fun m => ?_
    split
    · refine Obeyed.bind ?_ fun code => ?_
      · cases target with
        | unit name => exact hcall _ _
        | library r => exact Obeyed.get.bind fun m => hL.routine hcall _ r
      · exact (Obeyed.act (Run.storeCode_leaves_clock store code)).bind fun _ => .pure _
    · exact .pure _
  | _ => exact .act (Run.step_leaves_clock channel nofun)

theorem Basic.steps (channel : Option String) (is : List Instr) :
    L.Obeyed (Recorded.steps call channel is) := by
  induction is with
  | nil => exact .pure _
  | cons i rest ih =>
    refine (hL.step hcall channel i).bind fun code => ?_
    cases code with
    | none => exact ih
    | some code => exact .pure _

end

theorem Basic.execute (levels : Nat) (name : String) (channel : Option String) :
    L.Obeyed (Recorded.execute levels name channel) := by
  have hfind (name : String) : Run.Leaves Machine.clock (Run.findUnit name) := by
    intro m
    rw [Run.findUnit_run]
    cases m.program.units.find? name <;> rfl
  induction levels generalizing name channel with
  | zero => exact .act ((hfind name).bind fun _ => .get fun _ _ => rfl)
  | succ levels ih => exact (Obeyed.act (hfind name)).bind fun u => (hL.steps ih channel _).deeper

theorem Basic.fromHost (name : String) (channel : Option String) :
    L.Obeyed (Recorded.fromHost name channel) :=
  Obeyed.get.bind fun m => hL.execute m.maxDepth name channel

theorem Basic.entry : L.Obeyed Recorded.entry :=
  Obeyed.get.bind fun _ => (hL.fromHost _ _).bind fun _ => .pure _

theorem Basic.callGlobal (name : String) (args : List Scalar) :
    L.Obeyed (Recorded.callGlobal name args) := by
  refine Obeyed.get.bind fun m => ?_
  split
  · exact .act fun _ => rfl
  · refine Obeyed.bind (.act (Run.write_leaves_clock _ _ _)) fun _ => ?_
    refine Obeyed.bind (.act (Run.write_leaves_clock _ _ _)) fun _ => ?_
    exact (hL.fromHost _ _).bind fun _ => .act fun _ => rfl

end

/-- A step from outside obeys a law if executions of units and ticks do. -/
theorem recorded (hentry : L.Obeyed Recorded.entry)
    (hcall : ∀ name args, L.Obeyed (Recorded.callGlobal name args)) (htick : L.Obeyed passTick)
    (step : HostStep) : L.Obeyed step.recorded := by
  cases step with
  | entry => exact hentry
  | call name args => exact (hcall name args).bind fun _ => .pure _
  | ticks count =>
    show L.Obeyed (passTicks count)
    induction count with
    | zero => exact .pure _
    | succ count ih => exact htick.bind fun _ => ih
  | untilIdle most =>
    show L.Obeyed (untilIdle most)
    induction most with
    | zero => exact .pure _
    | succ most ih =>
      refine Obeyed.get.bind fun m => ?_
      split
      · exact htick.bind fun _ => ih
      · exact .pure _

end Law

end PackScript
