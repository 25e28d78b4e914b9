import PackScript.Proofs.Machine.Straight
import PackScript.Proofs.SlotValue

namespace PackScript

/-!
# What code does, and how deep it calls

Code that calls units succeeds only if calls may be deep enough. How deep is a matter of what the
code does, so every statement about a run comes with the least depth for it.

* `Machine.Changes P m m'` — from `m` to `m'` only the slots of `P` have changed.
* `Run.Reaches is d m exit m'` — with depth `d` or more the instructions take `m` to `m'` and then
  go on or end their unit; with less they fail.
* `Run.Fails is m` — they fail however deep calls may be.
* `Run.reaches_call`, `Run.fails_call` — the same of a call, from what the unit does.
* `Run.straight_raise`, `Run.straight_truthFlag` — flags that tell whether a value counts as true.
-/

/-! ### Changes -/

namespace Machine

/-- Only slots of the set have changed; channels and what was shown do not count. -/
structure Changes (P : Slot → Prop) (m m' : Machine) : Prop where
  program : m'.program = m.program
  stored : m'.Stored
  slots : ∀ s : Slot, ¬ P s → m'.slots.get? s.key = m.slots.get? s.key

/-- Only slots of the set have changed, and no command was run. -/
structure Quiet (P : Slot → Prop) (m m' : Machine) : Prop extends Changes P m m' where
  commands : m'.commands = m.commands

/-- The slots from a number on. -/
def From (n : Nat) (s : Slot) : Prop :=
  n ≤ s.index

/-- The machine inside of a further call. -/
def inside (m : Machine) : Machine :=
  { m with depth := m.depth + 1 }

/-- The machine behind a call. -/
def outside (m : Machine) : Machine :=
  { m with depth := m.depth - 1 }

section

variable {P Q : Slot → Prop} {m m1 m2 : Machine}

theorem Changes.refl (P : Slot → Prop) (hm : m.Stored) : Changes P m m :=
  ⟨rfl, hm, fun _ _ => rfl⟩

theorem Changes.trans (h : Changes P m m1) (h' : Changes P m1 m2) : Changes P m m2 :=
  ⟨h'.program.trans h.program, h'.stored, fun s hs => (h'.slots s hs).trans (h.slots s hs)⟩

theorem Changes.mono (h : Changes P m m1) (hPQ : ∀ s, P s → Q s) : Changes Q m m1 :=
  ⟨h.program, h.stored, fun s hs => h.slots s fun hP => hs (hPQ s hP)⟩

theorem Quiet.refl (P : Slot → Prop) (hm : m.Stored) : Quiet P m m :=
  ⟨.refl P hm, rfl⟩

theorem Quiet.trans (h : Quiet P m m1) (h' : Quiet P m1 m2) : Quiet P m m2 :=
  ⟨h.toChanges.trans h'.toChanges, h'.commands.trans h.commands⟩

theorem Quiet.mono (h : Quiet P m m1) (hPQ : ∀ s, P s → Q s) : Quiet Q m m1 :=
  ⟨h.toChanges.mono hPQ, h.commands⟩

theorem Quiet.putSlot (hm : m.Stored) {s : Slot} (hs : P s) (v : Nbt) :
    Quiet P m (m.putSlot s v) := by
  refine ⟨⟨rfl, hm.putSlot s v, fun x hx => ?_⟩, rfl⟩
  have hne : s ≠ x := fun h => hx (h ▸ hs)
  rw [get?_putSlot, if_neg fun h => hne (Slot.key_injective h)]

theorem Quiet.putChannel (hm : m.Stored) (c : Channel) (v : Nbt) :
    Quiet P m (m.putChannel c v) :=
  ⟨⟨rfl, hm.putChannel c v, fun _ _ => rfl⟩, rfl⟩

theorem Quiet.inside (hm : m.Stored) : Quiet P m m.inside :=
  ⟨⟨rfl, ⟨hm.slots, hm.channels⟩, fun _ _ => rfl⟩, rfl⟩

theorem Quiet.outside (hm : m.Stored) : Quiet P m m.outside :=
  ⟨⟨rfl, ⟨hm.slots, hm.channels⟩, fun _ _ => rfl⟩, rfl⟩

/-- A slot that was just written. -/
theorem get?_putSlot_self (m : Machine) (s : Slot) (v : Nbt) :
    (m.putSlot s v).slots.get? s.key = some v := by
  rw [get?_putSlot, if_pos rfl]

end

end Machine

/-! ### Runs with depth -/

namespace Run

/-- With the depth or more the instructions take the machine to another state; then they go on, or
    end their unit with a code. With less depth they fail. The bound that the machine itself keeps
    does not matter. -/
structure Reaches (is : List Instr) (depth : Nat) (m : Machine) (exit : Option Int32)
    (m' : Machine) : Prop where
  deep : ∀ k levels, depth ≤ levels → ∀ channel rest,
    steps (execute levels) channel (is ++ rest) (m.cap k) = match exit with
      | none => steps (execute levels) channel rest (m'.cap k)
      | some code => .ok code (m'.cap k)
  shallow : ∀ k levels, levels < depth → ∀ channel rest,
    ∃ e m'', steps (execute levels) channel (is ++ rest) (m.cap k) = .error e m''

/-- The instructions fail however deep calls may be. -/
def Fails (is : List Instr) (m : Machine) : Prop :=
  ∀ k levels channel rest, ∃ e m',
    steps (execute levels) channel (is ++ rest) (m.cap k) = .error e m'

/-- The instructions of a whole unit answer a code, with the depth or more; with less they fail. -/
structure Answers (is : List Instr) (depth : Nat) (m : Machine) (code : Int32) (m' : Machine) :
    Prop where
  deep : ∀ k levels, depth ≤ levels → ∀ channel,
    steps (execute levels) channel is (m.cap k) = .ok code (m'.cap k)
  shallow : ∀ k levels, levels < depth → ∀ channel,
    ∃ e m'', steps (execute levels) channel is (m.cap k) = .error e m''

section

variable {is js : List Instr} {d d' : Nat} {m m1 m2 : Machine} {exit : Option Int32}
  {code : Int32}

theorem Straight.reaches (h : Straight is m m1) : Reaches is 0 m none m1 :=
  ⟨fun k _ _ _ _ => h k _ _ _, fun _ _ hlevels => absurd hlevels (Nat.not_lt_zero _)⟩

theorem Reaches.append (h : Reaches is d m none m1) (h' : Reaches js d' m1 exit m2) :
    Reaches (is ++ js) (max d d') m exit m2 := by
  refine ⟨fun k levels hlevels channel rest => ?_, fun k levels hlevels channel rest => ?_⟩
  · rw [List.append_assoc, h.deep k levels (by omega), h'.deep k levels (by omega)]
  · rw [List.append_assoc]
    by_cases hd : levels < d
    · exact h.shallow k levels hd channel _
    · rw [h.deep k levels (by omega)]
      exact h'.shallow k levels (by omega) channel rest

/-- Code behind an end of the unit does not run. -/
theorem Reaches.ended (h : Reaches is d m (some code) m1) (js : List Instr) :
    Reaches (is ++ js) d m (some code) m1 := by
  refine ⟨fun k levels hlevels channel rest => ?_, fun k levels hlevels channel rest => ?_⟩
  · rw [List.append_assoc, h.deep k levels hlevels]
  · rw [List.append_assoc]
    exact h.shallow k levels hlevels channel _

theorem Fails.append (h : Fails is m) (js : List Instr) : Fails (is ++ js) m := by
  intro k levels channel rest
  rw [List.append_assoc]
  exact h k levels channel _

theorem Reaches.fails (h : Reaches is d m none m1) (h' : Fails js m1) : Fails (is ++ js) m := by
  intro k levels channel rest
  rw [List.append_assoc]
  by_cases hd : levels < d
  · exact h.shallow k levels hd channel _
  · rw [h.deep k levels (by omega)]
    exact h' k levels channel rest

/-- The code of a unit that reaches its end answers the normal code. -/
theorem Reaches.answers (h : Reaches is d m exit m1) :
    Answers is d m (exit.getD Instr.normal) m1 := by
  refine ⟨fun k levels hlevels channel => ?_, fun k levels hlevels channel => ?_⟩
  · have hrun := h.deep k levels hlevels channel []
    rw [List.append_nil] at hrun
    rw [hrun]
    cases exit <;> rfl
  · have hrun := h.shallow k levels hlevels channel []
    rwa [List.append_nil] at hrun

/-- What comes first in a unit, then the rest of it. -/
theorem Reaches.thenAnswers (h : Reaches is d m none m1) (h' : Answers js d' m1 code m2) :
    Answers (is ++ js) (max d d') m code m2 := by
  refine ⟨fun k levels hlevels channel => ?_, fun k levels hlevels channel => ?_⟩
  · rw [h.deep k levels (by omega)]
    exact h'.deep k levels (by omega) channel
  · by_cases hd : levels < d
    · exact h.shallow k levels hd channel js
    · rw [h.deep k levels (by omega)]
      exact h'.shallow k levels (by omega) channel

/-- A conditional end of the unit. -/
theorem reaches_returnIf {guard : Guard} (m : Machine) (code : Int32) :
    Reaches [.returnIf guard code] 0 m (if m.holds guard then some code else none) m := by
  refine ⟨fun k levels _ channel rest => ?_, fun _ _ h => absurd h (Nat.not_lt_zero _)⟩
  have hholds : (m.cap k).holds guard = m.holds guard := rfl
  rw [List.singleton_append, steps_cons, step_returnIf, hholds]
  cases m.holds guard <;> rfl

theorem reaches_returnWith (m : Machine) (code : Int32) :
    Reaches [.returnWith code] 0 m (some code) m := by
  refine ⟨fun k levels _ channel rest => ?_, fun _ _ h => absurd h (Nat.not_lt_zero _)⟩
  rw [List.singleton_append, steps_cons, step_returnWith]

end

/-! ### Calls -/

section

variable {m m1 m2 : Machine} {name : String} {u : CodeUnit} {d : Nat} {code : Int32}
  {guard : Guard} {store : Option Place}

/-- The execution of a unit, one level deeper than its code. -/
theorem execute_answers {levels : Nat} (hu : m.program.units.find? name = some u)
    (h : Answers u.instrs d m.inside code m1) (hlevels : d < levels) (k : Nat)
    (channel : Option String) :
    execute levels name channel (m.cap k) = .ok code (m1.outside.cap k) := by
  obtain ⟨l, rfl⟩ : ∃ l, levels = l + 1 := ⟨levels - 1, by omega⟩
  have hu' : (m.cap k).program.units.find? name = some u := hu
  have hrun : steps (execute l) channel u.instrs { m.cap k with depth := (m.cap k).depth + 1 } =
      .ok code (m1.cap k) := h.deep k l (by omega) channel
  rw [execute_succ hu', deeper, hrun]
  rfl

/-- The execution of a unit whose code fails. -/
theorem execute_error {levels : Nat} (hu : m.program.units.find? name = some u) (k : Nat)
    (channel : Option String)
    (h : ∀ l, l < levels → ∃ e m',
      steps (execute l) channel u.instrs (m.inside.cap k) = .error e m') :
    ∃ e m', execute levels name channel (m.cap k) = .error e m' := by
  have hu' : (m.cap k).program.units.find? name = some u := hu
  cases levels with
  | zero => exact ⟨_, _, execute_zero hu'⟩
  | succ l =>
    obtain ⟨e, m', hrun⟩ := h l (Nat.lt_succ_self l)
    have hrun' : steps (execute l) channel u.instrs
        { m.cap k with depth := (m.cap k).depth + 1 } = .error e m' := hrun
    rw [execute_succ hu', deeper, hrun']
    exact ⟨_, _, rfl⟩

/-- A call that fails, as the code of a unit does. -/
theorem steps_call_error {levels k : Nat} {channel : Option String} {rest : List Instr}
    (hguard : m.holds guard = true)
    (h : ∃ e m', execute levels name none (m.cap k) = .error e m') :
    ∃ e m', steps (execute levels) channel
      ([.invoke guard (.unit name) none store] ++ rest) (m.cap k) = .error e m' := by
  obtain ⟨e, m', h⟩ := h
  have hguard' : (m.cap k).holds guard = true := hguard
  have hrun : callee (execute levels) ((none : Option Channel).map (·.key)) (.unit name)
      (m.cap k) = .error e m' := h
  rw [List.singleton_append, steps_cons, step_invoke, hguard', if_pos rfl, bind_of_error hrun]
  exact ⟨e, m', rfl⟩

/-- A call goes on behind the unit, once its return code is stored. -/
theorem reaches_call (hguard : m.holds guard = true)
    (hu : m.program.units.find? name = some u) (h : Answers u.instrs d m.inside code m1)
    (hstore : ∀ k, storeCode store code (m1.outside.cap k) = .ok () (m2.cap k)) :
    Reaches [.invoke guard (.unit name) none store] (d + 1) m none m2 := by
  refine ⟨fun k levels hlevels channel rest => ?_, fun k levels hlevels channel rest => ?_⟩
  · have hguard' : (m.cap k).holds guard = true := hguard
    have hrun : callee (execute levels) ((none : Option Channel).map (·.key)) (.unit name)
        (m.cap k) = .ok code (m1.outside.cap k) :=
      execute_answers hu h (by omega) k none
    rw [List.singleton_append, steps_cons, step_invoke, hguard', if_pos rfl, bind_of_ok hrun,
      bind_of_ok (hstore k)]
    rfl
  · refine steps_call_error hguard (execute_error hu k none fun l hl => ?_)
    exact h.shallow k l (by omega) none

/-- A call of a unit that fails. -/
theorem fails_call (hguard : m.holds guard = true) (hu : m.program.units.find? name = some u)
    (h : Fails u.instrs m.inside) : Fails [.invoke guard (.unit name) none store] m := by
  intro k levels channel rest
  refine steps_call_error hguard (execute_error hu k none fun l _ => ?_)
  have hrun := h k l none []
  rwa [List.append_nil] at hrun

/-- A call whose guard does not hold. -/
theorem straight_noCall {callee : Callee} {args : Option Channel}
    (hguard : m.holds guard = false) : Straight [.invoke guard callee args store] m m := by
  refine .single fun k call channel => ?_
  have hguard' : (m.cap k).holds guard = false := hguard
  rw [step_invoke, hguard']
  rfl

end

end Run

/-! ### Flags -/

namespace Machine

variable {m : Machine} {a : Slot} {v : Scalar}

/-- An entry of what a slot holds. -/
theorem read_field (m : Machine) (a : Slot) (name : String) :
    m.read (.field a name) = (m.slots.get? a.key).bind (·.get? name) :=
  Nbt.getPath_pair _ _ _

/-- The kind of the scalar in a slot. -/
theorem read_type (h : m.slots.get? a.key = some v.slot) :
    m.read (.field a "type") = some (.string v.kind.tag) := by
  rw [read_field, h]
  rfl

/-- The payload of the scalar in a slot. -/
theorem read_value (h : m.slots.get? a.key = some v.slot) :
    m.read (.field a "value") = some v.payload := by
  rw [read_field, h]
  rfl

/-- The slot of a flag that is set or not. -/
def Flagged (m : Machine) (flag : Slot) (b : Bool) : Prop :=
  m.slots.get? flag.key = some (Scalar.boolean b).slot

theorem holds_isTrue {flag : Slot} {b : Bool} (h : m.Flagged flag b) :
    m.holds (isTrue flag) = b := by
  have hread : m.read (.field flag "value") = some (.bool b) := read_value h
  simp [holds, isTrue, Guard.when, meets, hread, Nbt.fits, Nbt.same]

theorem holds_isFalse {flag : Slot} {b : Bool} (h : m.Flagged flag b) :
    m.holds (isFalse flag) = !b := by
  have hread : m.read (.field flag "value") = some (.bool b) := read_value h
  cases b <;> simp [holds, isFalse, Guard.when, meets, hread, Nbt.fits, Nbt.same]

theorem holds_kindIs (h : m.slots.get? a.key = some v.slot) (kind : Kind) :
    m.holds (kindIs a kind) = decide (v.kind = kind) := by
  have hread := read_type h
  have htag : (v.kind.tag == kind.tag) = decide (v.kind = kind) := by
    cases v.kind <;> cases kind <;> decide
  simp [holds, kindIs, Guard.when, meets, hread, Nbt.fits, Nbt.same, htag]

end Machine

/-- The guard looks only at slots of the set. -/
def Guard.Reads (g : Guard) (S : Slot → Prop) : Prop :=
  ∀ t ∈ g, ∃ a path, t.place = ⟨.slot a, path⟩ ∧ S a

/-- A guard does not notice changes of slots that it does not look at. -/
theorem Machine.holds_congr {m m' : Machine} {g : Guard} {S : Slot → Prop} (hg : g.Reads S)
    (h : ∀ a, S a → m'.slots.get? a.key = m.slots.get? a.key) : m'.holds g = m.holds g := by
  have hmeets : ∀ t ∈ g, m'.meets t = m.meets t := by
    intro t ht
    obtain ⟨a, path, hplace, ha⟩ := hg t ht
    have hread : m'.read t.place = m.read t.place := by
      have hpath : ∀ n : Machine, n.read ⟨.slot a, path⟩ =
          (n.slots.get? a.key).bind (·.getPath path) := fun n => Nbt.getPath_cons _ _ _
      rw [hplace, hpath, hpath, h a ha]
    rw [Machine.meets, Machine.meets, hread]
  unfold Machine.holds
  rw [Bool.eq_iff_iff, List.all_eq_true, List.all_eq_true]
  exact forall₂_congr fun t ht => by rw [hmeets t ht]

namespace Run

variable {m : Machine} {flag : Slot} {b : Bool}

/-- The instruction that raises a flag. -/
def raiseCode (guard : Guard) (flag : Slot) : Instr :=
  .set guard (.field flag "value") (.literal (.bool true))

/-- The payload of a scalar is written if the guard holds. -/
theorem straight_payload {a : Slot} {kind : Kind} {old : Nbt} (hm : m.Stored)
    (ha : m.slots.get? a.key = some (.slot kind old none)) (guard : Guard) (new : Nbt) :
    ∃ m', Straight [.set guard (.field a "value") (.literal new)] m m' ∧ m.Quiet (· = a) m' ∧
      m'.slots.get? a.key = some (.slot kind (if m.holds guard then new else old) none) := by
  cases hguard : m.holds guard with
  | false => exact ⟨m, straight_skip hguard, .refl _ hm, ha⟩
  | true =>
    have hquiet : m.Quiet (· = a) (m.putSlot a (.slot kind new none)) :=
      Machine.Quiet.putSlot (P := (· = a)) hm rfl _
    have hwrite : ∀ k, write .slots [a.key, "value"] new (m.cap k) =
        .ok () ((m.putSlot a (.slot kind new none)).cap k) := fun k =>
      write_payload (hm.cap k) ha new
    exact ⟨_, straight_set hguard (fun _ => rfl) hwrite, hquiet, Machine.get?_putSlot_self _ _ _⟩

/-- A flag is raised if the guard holds. -/
theorem straight_raise (hm : m.Stored) (hflag : m.Flagged flag b) (guard : Guard) :
    ∃ m', Straight [raiseCode guard flag] m m' ∧ m.Quiet (· = flag) m' ∧
      m'.Flagged flag (b || m.holds guard) := by
  obtain ⟨m', hrun, hquiet, hflag'⟩ := straight_payload hm hflag guard (.bool true)
  refine ⟨m', hrun, hquiet, hflag'.trans ?_⟩
  cases b <;> cases m.holds guard <;> rfl

/-- A flag is raised if one of the guards holds. -/
theorem straight_raises (hm : m.Stored) (hflag : m.Flagged flag b) {guards : List Guard}
    (hguards : ∀ g ∈ guards, g.Reads (· ≠ flag)) :
    ∃ m', Straight (guards.map (raiseCode · flag)) m m' ∧ m.Quiet (· = flag) m' ∧
      m'.Flagged flag (b || guards.any m.holds) := by
  induction guards generalizing m b with
  | nil => exact ⟨m, .nil m, .refl _ hm, by simpa using hflag⟩
  | cons g rest ih =>
    obtain ⟨m1, hrun1, hquiet1, hflag1⟩ := straight_raise hm hflag g
    obtain ⟨m2, hrun2, hquiet2, hflag2⟩ := ih hquiet1.stored hflag1
      fun g hg => hguards g (List.mem_cons_of_mem _ hg)
    refine ⟨m2, hrun1.append hrun2, hquiet1.trans hquiet2, ?_⟩
    -- the guards behind the first one do not look at the flag
    have hany : rest.any m1.holds = rest.any m.holds := by
      rw [Bool.eq_iff_iff, List.any_eq_true, List.any_eq_true]
      refine exists_congr fun g' => and_congr_right fun hg' => ?_
      rw [Machine.holds_congr (hguards g' (List.mem_cons_of_mem _ hg'))
        fun a ha => hquiet1.slots a ha]
    rw [List.any_cons, ← Bool.or_assoc, ← hany]
    exact hflag2

end Run

/-! ### Truth -/

/-- No number equals one that is none. -/
theorem beq_notANumber (x : Float) : (x == notANumber) = false := by
  have hunpack : notANumber.toModel.unpack = .notANumber := by
    have hnan : notANumber.toModel.unpack.isNaN = true := by decide +kernel
    cases h : notANumber.toModel.unpack <;> rw [h] at hnan <;> first | rfl | cases hnan
  show x.toModel.unpack.beq notANumber.toModel.unpack = false
  rw [hunpack]
  cases x.toModel.unpack <;> rfl

/-- The value counts as true in a condition; all references do. -/
def Value.truthy : Value → Bool
  | .scalar a => a.truthy
  | .reference _ _ => true

/-- The guards of the truth of a slot tell whether its value counts as true. The kind and the
    payload of a script value decide which of the six holds, if any. -/
theorem Machine.any_truthGuards {m : Machine} {a : Slot} {v : Nbt} (hv : v.WellFormed)
    (h : m.slots.get? a.key = some v) :
    (Compile.truthGuards a).any m.holds = (Value.ofSlot v).truthy := by
  obtain ⟨kind, hkind⟩ := hv
  obtain ⟨payload, hpayload, hhas⟩ := hkind.payload
  have htype : m.read (.field a "type") = some (.string kind.tag) := by
    rw [read_field, h]
    exact hkind.type
  have hvalue : m.read (.field a "value") = some payload := by
    rw [read_field, h]
    exact hpayload
  have hnan : notANumber.isNaN = true := by decide +kernel
  have hzero : (0.0 : Float).isNaN = false := by decide +kernel
  have hempty : ∀ s : String, (s == "") = s.isEmpty := fun s => by
    rw [Bool.eq_iff_iff, beq_iff_eq, String.isEmpty_iff]
  rw [hkind.ofSlot, hpayload]
  cases kind <;> simp only [Kind.HasPayload] at hhas <;> obtain ⟨x, rfl⟩ := hhas
  case number =>
    -- a number is compared with zero and with one that is none
    simp only [Compile.truthGuards, Guard.and, kindIs, Guard.when, Kind.tag, List.append_eq,
      List.cons_append, List.nil_append, Guard.andNot, List.any_cons, holds, List.all_cons, meets,
      bne, htype, Nbt.fits, Nbt.same, String.reduceBEq, BEq.rfl, Bool.not_true, hvalue,
        List.all_nil,
      Bool.and_true, Bool.and_self, beq_false, Bool.not_false, hzero, Bool.and_false, Bool.or_false,
      beq_true, beq_notANumber, hnan, Bool.false_or, Bool.true_and, List.any_nil, Bool.or_self,
      Value.truthy, Value.ofPayload, Option.bind_some, Nbt.number?, Option.getD_some, Scalar.truthy]
  all_goals
    simp [Compile.truthGuards, holds, kindIs, Guard.when, Guard.and, Guard.andNot, meets, htype,
      hvalue, Nbt.fits, Nbt.same, Value.ofPayload, Value.truthy, Scalar.truthy, Kind.tag,
      Nbt.flag?, Nbt.text?, hempty, bne]

end PackScript
