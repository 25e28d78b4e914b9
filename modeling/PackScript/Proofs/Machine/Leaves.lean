import PackScript.Proofs.Machine.Checked
import PackScript.Proofs.Uses.Library

namespace PackScript

/-!
# Parts of the machine that routines leave alone

Most routines read their arguments, write to a slot or a record, and count the records.

* `Run.Stepwise` — what is true of such steps, and of steps one after the other, is true of these
  routines.
* `Run.Leaves part c` — the run leaves a part of the machine as it is.
* `Machine.Aside part` — the part is none of those that such routines write.
* `Run.routine_leaves` — so they leave it as it is.
* `Run.Pairwise` — what is true of two runs of steps that are the same, and of two runs one after
  the other, passes from the units that are executed to the routines and the steps from outside.
-/

/-- The routine executes units. -/
def Routine.Calls : Routine → Prop
  | .loopArray | .callFunction | .resolvePromise | .awaitPromise => True
  | _ => False

/-- The part of a machine has nothing to do with slots, records and commands. -/
structure Machine.Aside {γ : Type} (part : Machine → γ) : Prop where
  slots : ∀ m tree, part { m with slots := tree } = part m
  heap : ∀ m tree, part { m with heap := tree } = part m
  nextRecord : ∀ m count, part { m with nextRecord := count } = part m
  command : ∀ m text, part (m.command text) = part m

namespace Run

theorem findUnit_looks {m : Machine} {name : String} :
    Looks m (findUnit name) fun u => m.program.units.find? name = some u := by
  unfold Looks
  rw [findUnit_run]
  cases m.program.units.find? name with
  | none => exact ⟨rfl, trivial⟩
  | some u => exact ⟨rfl, rfl⟩

variable {α β γ : Type} {part : Machine → γ}

/-- The run leaves a part of the machine as it is. -/
def Leaves (part : Machine → γ) (c : Run α) : Prop :=
  ∀ m, part (final (c m)) = part m

namespace Leaves

theorem pure (a : α) : Leaves part (Pure.pure a) :=
  fun _ => rfl

theorem bind {c : Run α} {f : α → Run β} (h : Leaves part c) (hf : ∀ a, Leaves part (f a)) :
    Leaves part (c >>= f) := by
  intro m
  have hm := h m
  cases hc : c m with
  | error e m' =>
    rw [hc] at hm
    rw [bind_of_error hc]
    exact hm
  | ok a m' =>
    rw [hc] at hm
    rw [bind_of_ok hc]
    exact (hf a m').trans hm

theorem of_looks {c : Run α} {P : Machine → α → Prop} (h : ∀ m, Looks m c (P m)) :
    Leaves part c := by
  intro m
  have hlooks := h m
  unfold Looks at hlooks
  cases hc : c m with
  | error e m' | ok a m' =>
    rw [hc] at hlooks
    exact congrArg part hlooks.1

theorem get {f : Machine → Run β} (hf : ∀ m, Leaves part (f m)) :
    Leaves part (MonadState.get >>= f) :=
  bind (fun _ => rfl) hf

theorem normally {c : Run Unit} (h : Leaves part c) : Leaves part (Run.normally c) :=
  h.bind fun _ => .pure _

theorem write (st : Storage) (hpart : ∀ m tree, part (m.withStorage st tree) = part m)
    (path : List String) (value : Nbt) : Leaves part (Run.write st path value) := by
  intro m
  rw [write_run]
  cases (m.storage st).setPath path value with
  | none => rfl
  | some tree => exact hpart m tree

theorem append {st : Storage} (hpart : ∀ m tree, part (m.withStorage st tree) = part m)
    (path : List String) (value : Nbt) : Leaves part (Run.append st path value) := by
  intro m
  rw [append_run]
  cases (m.storage st).appendPath path value with
  | none => rfl
  | some tree => exact hpart m tree

end Leaves

/-! ### Routines -/

/-- What is said of the steps that most routines consist of, and of steps one after the other. -/
structure Stepwise (P : ∀ {α : Type}, Run α → Prop) : Prop where
  bind : ∀ {α β : Type} {c : Run α} {f : α → Run β}, P c → (∀ a, P (f a)) → P (c >>= f)
  look : ∀ {α : Type} {c : Run α} {Q : Machine → α → Prop}, (∀ m, Looks m c (Q m)) → P c
  slot : ∀ key value, P (setSlot key value)
  heap : ∀ path value, P (Run.write .heap path value)
  record : P freshRecord
  command : ∀ text, P (modify (·.command text))

namespace Stepwise

variable {P : ∀ {α : Type}, Run α → Prop} (hP : Stepwise P) {a : Args} {key : String}

include hP

theorem pure (b : α) : P (Pure.pure b : Run α) :=
  hP.look (Q := fun _ _ => True) fun _ => .pure trivial

theorem get {f : Machine → Run β} (hf : ∀ m, P (f m)) : P (MonadState.get >>= f) :=
  hP.bind (hP.look (Q := fun _ _ => True) fun _ => ⟨rfl, trivial⟩) hf

theorem normally {c : Run Unit} (h : P c) : P (Run.normally c) :=
  hP.bind h fun _ => hP.pure _

theorem argument : P (argument a key) :=
  hP.look fun _ => argument_looks

theorem slotArgument : P (slotArgument a key) :=
  hP.look fun _ => slotArgument_looks

theorem valueArgument : P (valueArgument a key) :=
  hP.look fun _ => valueArgument_looks

theorem scalarArgument : P (scalarArgument a key) :=
  hP.look fun _ => scalarArgument_looks

theorem answer (value : Nbt) : P (answer a value) :=
  hP.bind hP.argument fun _ => hP.slot _ _

theorem binaryRoutine (f : Scalar → Scalar → Scalar) : P (binaryRoutine a f) :=
  hP.bind hP.valueArgument fun _ => hP.bind hP.valueArgument fun _ => hP.get fun _ => hP.answer _

theorem operatorRoutine : P (operatorRoutine a) :=
  hP.bind (hP.look fun _ => operatorArgument_looks) fun _ => hP.binaryRoutine _

theorem equalsRoutine : P (equalsRoutine a) :=
  hP.bind (hP.look fun _ => operatorArgument_looks) fun _ => hP.bind hP.valueArgument fun _ =>
    hP.bind hP.valueArgument fun _ => hP.get fun _ => hP.answer _

theorem prototypeMemberRoutine : P (prototypeMemberRoutine a) := by
  unfold Run.prototypeMemberRoutine
  split
  · exact hP.bind hP.argument fun _ => hP.get fun _ => hP.answer _
  · exact hP.answer _

theorem setMemberRoutine : P (setMemberRoutine a) := by
  refine hP.bind hP.valueArgument fun object => ?_
  refine hP.bind (hP.look fun _ => writtenProperty_looks) fun property => ?_
  refine hP.bind hP.slotArgument fun value => ?_
  split
  · unfold setElement
    split
    · exact hP.get fun _ => hP.heap _ _
    · exact hP.pure _
  · split
    · exact hP.heap _ _
    · exact hP.pure _
  · exact hP.pure _

theorem allocateRoutine : P (allocateRoutine a) :=
  hP.bind hP.record fun _ => hP.bind (hP.heap _ _) fun _ => hP.answer _

theorem setClassPrototypeRoutine : P (setClassPrototypeRoutine a) := by
  refine hP.bind hP.argument fun prototype => hP.bind hP.valueArgument fun parent => ?_
  cases parent with
  | scalar value => exact hP.pure _
  | reference kind address =>
    refine hP.get fun m => ?_
    dsimp only
    split
    · exact hP.heap _ _
    · exact hP.pure _

theorem bindFunctionRoutine : P (bindFunctionRoutine a) :=
  hP.bind hP.slotArgument fun _ => hP.bind hP.slotArgument fun _ => hP.bind hP.record fun _ =>
    hP.bind (hP.heap _ _) fun _ => hP.answer _

theorem setVariableRoutine : P (setVariableRoutine a) := by
  refine hP.bind hP.argument fun target => ?_
  split
  · exact hP.bind hP.slotArgument fun _ => hP.slot _ _
  · exact hP.pure _

theorem initPromiseRoutine : P (initPromiseRoutine a) := by
  refine hP.bind hP.valueArgument fun promise => ?_
  cases promise with
  | scalar value => exact hP.pure _
  | reference kind address => exact hP.heap _ _

/-- It is true of the routines that execute no units, apart from the one that schedules a
    function. -/
theorem routine (call : Executor) {r : Routine} (hr : ¬ r.Calls) (hschedule : r ≠ .schedule) :
    P (routine call a r) := by
  cases r with
  | loopArray | callFunction | resolvePromise | awaitPromise => exact absurd trivial hr
  | schedule => exact absurd rfl hschedule
  | add | subtract | singleQuoteConcat => exact hP.normally (hP.binaryRoutine _)
  | mathOperation | numberCompare => exact hP.normally hP.operatorRoutine
  | equals => exact hP.normally hP.equalsRoutine
  | toNumber => exact hP.normally (hP.bind hP.scalarArgument fun _ => hP.answer _)
  | getMember =>
    exact hP.normally (hP.bind hP.valueArgument fun _ => hP.bind hP.argument fun _ =>
      hP.get fun _ => hP.answer _)
  | computedMember =>
    exact hP.normally (hP.bind hP.valueArgument fun _ => hP.bind hP.scalarArgument fun _ =>
      hP.get fun _ => hP.answer _)
  | prototypeMember => exact hP.normally hP.prototypeMemberRoutine
  | setMember => exact hP.normally hP.setMemberRoutine
  | allocate => exact hP.normally hP.allocateRoutine
  | setClassPrototype => exact hP.normally hP.setClassPrototypeRoutine
  | bindFunction => exact hP.normally hP.bindFunctionRoutine
  | setVariable => exact hP.normally hP.setVariableRoutine
  | initPromise => exact hP.normally hP.initPromiseRoutine
  | run => exact hP.normally (hP.bind hP.scalarArgument fun _ => hP.command _)

end Stepwise

section

variable {a : Args} {key : String}

theorem argument_leaves : Leaves part (argument a key) :=
  .of_looks fun _ => argument_looks

theorem slotArgument_leaves : Leaves part (slotArgument a key) :=
  .of_looks fun _ => slotArgument_looks

theorem valueArgument_leaves : Leaves part (valueArgument a key) :=
  .of_looks fun _ => valueArgument_looks

theorem scalarArgument_leaves : Leaves part (scalarArgument a key) :=
  .of_looks fun _ => scalarArgument_looks

theorem unitOf_leaves {function : String} : Leaves part (unitOf function) :=
  .of_looks fun _ => unitOf_looks

/-- Routines that execute no units leave what they do not write, apart from the one that schedules a
    function. -/
theorem routine_leaves (hpart : Machine.Aside part) (call : Executor) {r : Routine}
    (hr : ¬ r.Calls) (hschedule : r ≠ .schedule) : Leaves part (routine call a r) := by
  have hstepwise : Stepwise fun c => Leaves part c :=
    { bind := .bind
      look := .of_looks
      slot := fun key value => .write .slots hpart.slots [key] value
      heap := fun path value => .write .heap hpart.heap path value
      record := fun m => hpart.nextRecord m _
      command := fun text m => hpart.command m text }
  exact hstepwise.routine call hr hschedule

end

/-! ### Two ways of executing units -/

/-- What is said of two runs that differ only by the units that they execute. -/
structure Pairwise (R : ∀ {α : Type}, Run α → Run α → Prop) : Prop where
  bind : ∀ {α β : Type} {c c' : Run α} {f f' : α → Run β}, R c c' → (∀ a, R (f a) (f' a)) →
    R (c >>= f) (c' >>= f')
  look : ∀ {α : Type} {c : Run α} {Q : Machine → α → Prop}, (∀ m, Looks m c (Q m)) → R c c
  write : ∀ st path value, R (Run.write st path value) (Run.write st path value)
  append : ∀ path value, R (Run.append .heap path value) (Run.append .heap path value)
  alone : ∀ call a {r : Routine}, ¬ r.Calls → R (Run.routine call a r) (Run.routine call a r)
  clock : ∀ {f f' : Machine → Run Unit} (tick : Machine → UInt64) (pending : Machine → List Task),
    (∀ m, R (f m) (f' m)) →
    R (do let m ← get; set { m with tick := tick m, scheduled := pending m }; f m)
      (do let m ← get; set { m with tick := tick m, scheduled := pending m }; f' m)

namespace Pairwise

variable {R : ∀ {α : Type}, Run α → Run α → Prop} (hR : Pairwise R)
    {call call' : Executor} {a : Args}

include hR

theorem pure (b : α) : R (Pure.pure b : Run α) (Pure.pure b) :=
  hR.look (Q := fun _ _ => True) fun _ => .pure trivial

theorem get {f f' : Machine → Run β} (hf : ∀ m, R (f m) (f' m)) :
    R (MonadState.get >>= f) (MonadState.get >>= f') :=
  hR.bind (hR.look (Q := fun _ _ => True) fun _ => ⟨rfl, trivial⟩) hf

theorem forM {f f' : β → Run PUnit} (hf : ∀ b, R (f b) (f' b)) (items : List β) :
    R (items.forM f) (items.forM f') := by
  induction items with
  | nil => exact hR.pure _
  | cons b rest ih => exact hR.bind (hf b) fun _ => ih

variable (hcall : ∀ name channel, R (call name channel) (call' name channel))

include hcall

theorem invokeFunction (callee : Nbt) (channel : String) :
    R (invokeFunction call callee channel) (invokeFunction call' callee channel) := by
  unfold Run.invokeFunction
  split
  · exact hR.pure _
  · refine hR.bind (hR.look fun _ => unitOf_looks) fun unit => ?_
    refine hR.bind (hR.look fun _ => boundThis_looks) fun bound => ?_
    cases bound with
    | none => exact hcall unit _
    | some v => exact hR.bind (hR.write _ _ _) fun _ => hcall unit _

theorem callListener (channel : String) (value listener : Nbt) :
    R (callListener call channel value listener) (callListener call' channel value listener) :=
  hR.bind (hR.write _ _ _) fun _ => hR.bind (hR.invokeFunction hcall listener channel) fun _ =>
    hR.pure _

theorem resolvePromiseRoutine :
    R (resolvePromiseRoutine call a) (resolvePromiseRoutine call' a) := by
  refine hR.bind (hR.look fun _ => valueArgument_looks) fun promise => ?_
  split
  · exact hR.pure _
  · refine hR.bind (hR.look fun _ => promise?_looks) fun state => ?_
    dsimp only
    split
    · refine hR.bind (hR.look fun _ => slotArgument_looks) fun value => ?_
      refine hR.bind (hR.write _ _ _) fun _ => ?_
      refine hR.bind (hR.look fun _ => argument_looks) fun channel => ?_
      exact hR.forM (hR.callListener hcall channel value) _
    · exact hR.pure _

theorem awaitPromiseRoutine : R (awaitPromiseRoutine call a) (awaitPromiseRoutine call' a) := by
  refine hR.bind (hR.look fun _ => slotArgument_looks) fun awaited => ?_
  refine hR.bind (hR.look fun _ => slotArgument_looks) fun listener => ?_
  refine hR.bind (hR.look fun _ => argument_looks) fun channel => ?_
  refine hR.bind (hR.look fun _ => awaitedPromise_looks) fun found => ?_
  cases found with
  | none => exact hR.callListener hcall channel awaited listener
  | some pair =>
    dsimp only
    split
    · exact hR.callListener hcall channel _ listener
    · exact hR.append _ _

theorem eachElement (hendless : R (throw .endlessLoop : Run Int32) (throw .endlessLoop))
    (address unit channel : String) (rounds index : Nat) :
    R (eachElement call address unit channel rounds index)
      (eachElement call' address unit channel rounds index) := by
  induction rounds generalizing index with
  | zero => exact hendless
  | succ rounds ih =>
    refine hR.get fun m => ?_
    cases (m.elements address)[index]? with
    | none => exact hR.pure _
    | some element =>
      refine hR.bind (hR.write _ _ _) fun _ => hR.bind (hcall unit _) fun code => ?_
      split
      · exact hR.pure _
      · split
        · exact hR.pure _
        · exact ih (index + 1)

theorem loopArrayRoutine (hendless : R (throw .endlessLoop : Run Int32) (throw .endlessLoop)) :
    R (loopArrayRoutine call a) (loopArrayRoutine call' a) := by
  refine hR.bind (hR.look fun _ => valueArgument_looks) fun array => ?_
  split
  · refine hR.bind (hR.look fun _ => argument_looks) fun function => ?_
    refine hR.bind (hR.look fun _ => unitOf_looks) fun unit => ?_
    refine hR.bind (hR.look fun _ => argument_looks) fun channel => ?_
    exact hR.eachElement hcall hendless _ unit channel _ _
  · exact hR.pure _

/-- Routines differ by the calls that they make. Loops over arrays can also go on for too long. -/
theorem routine {r : Routine}
    (hloop : r = .loopArray →
      R (Run.loopArrayRoutine call a) (Run.loopArrayRoutine call' a)) :
    R (routine call a r) (routine call' a r) := by
  have hsame : ¬ r.Calls → Run.routine call' a r = Run.routine call a r := by
    cases r <;> simp [Routine.Calls, Run.routine]
  cases r with
  | loopArray => exact hloop rfl
  | callFunction =>
    refine hR.bind (hR.look fun _ => slotArgument_looks) fun callee => ?_
    exact hR.bind (hR.look fun _ => argument_looks) fun channel => hR.invokeFunction hcall _ _
  | resolvePromise => exact hR.bind (hR.resolvePromiseRoutine hcall) fun _ => hR.pure _
  | awaitPromise => exact hR.bind (hR.awaitPromiseRoutine hcall) fun _ => hR.pure _
  | _ =>
    rw [hsame id]
    exact hR.alone call a id

/-- A step from outside. -/
theorem runBy (step : HostStep) : R (step.runBy call) (step.runBy call') := by
  have htick : R (passTickBy call) (passTickBy call') := by
    refine hR.clock _ _ fun m => hR.forM (fun t => hR.bind (hR.write _ _ _) fun _ => ?_) _
    exact hR.bind (hR.invokeFunction hcall _ _) fun _ => hR.pure _
  cases step with
  | entry => exact hR.get fun m => hR.bind (hcall _ _) fun _ => hR.pure _
  | call name args =>
    refine hR.bind (hR.get fun m => ?_) fun _ => hR.pure _
    cases m.program.functions.find? name with
    | none => exact hR.look (Q := fun _ _ => True) fun _ => ⟨rfl, trivial⟩
    | some f =>
      refine hR.bind (hR.write _ _ _) fun _ => hR.bind (hR.write _ _ _) fun _ => ?_
      exact hR.bind (hcall _ _) fun _ => hR.get fun _ => hR.pure _
  | ticks count =>
    show R (passTicksBy call count) (passTicksBy call' count)
    induction count with
    | zero => exact hR.pure _
    | succ count ih => exact hR.bind htick fun _ => ih
  | untilIdle most =>
    show R (untilIdleBy call most) (untilIdleBy call' most)
    induction most with
    | zero => exact hR.pure _
    | succ most ih =>
      refine hR.get fun m => ?_
      split
      · exact hR.bind htick fun _ => ih
      · exact hR.pure _

end Pairwise

end Run

end PackScript
