import PackScript.Proofs.Control.Expression

namespace PackScript

/-!
# Folded operators before a value

An operator before a known value is computed by the compiler, one before a slot by code: a
subtraction, a routine, or guarded writes. Both ways give the same value but for one: the negative
of a zero is a negative zero for the compiler, and a positive one for the subtraction.

* `zero_sub_eq_neg` — zero less a number is its negative, unless the number is zero.
* `Compile.applyUnary_yields` — what the code of an operator before a slot computes.
* `unary_folding_agrees` — where that is the value which would have been folded.
-/

/-! ### Zero less a number -/

open Float.Model

/-- Only the positive zero has its parts: exponent, mantissa and sign have no bit set. -/
theorem eq_zero_of_unpack {x : Float} (h : x.toModel.unpack = .zero .positive) : x = 0.0 := by
  obtain ⟨⟨⟨bits⟩, hvalid⟩⟩ := x
  have hparts : UnpackedFloat.unpack .binary64 bits = .zero .positive := h
  have hbits : bits = 0#64 := by
    unfold UnpackedFloat.unpack at hparts
    by_cases hmax : @UnpackedFloat.unpackExponent .binary64 bits = 2047#11
    · by_cases hm : @UnpackedFloat.unpackMantissa .binary64 bits = 0#52 <;>
        simp [hmax, hm] at hparts
    by_cases he : @UnpackedFloat.unpackExponent .binary64 bits = 0#11 <;>
      by_cases hm : @UnpackedFloat.unpackMantissa .binary64 bits = 0#52 <;>
      by_cases hs : @UnpackedFloat.unpackSign .binary64 bits = 0#1 <;>
      simp [hmax, he, hm, hs, UnpackedFloat.Sign.ofBitVec] at hparts
    have he' : bits.toNat >>> 52 % 2 ^ 11 = 0 := congrArg BitVec.toNat he
    have hm' : bits.toNat >>> 0 % 2 ^ 52 = 0 := congrArg BitVec.toNat hm
    have hs' : bits.toNat >>> 63 % 2 ^ 1 = 0 := congrArg BitVec.toNat hs
    rw [Nat.shiftRight_eq_div_pow] at he' hm' hs'
    exact BitVec.eq_of_toNat_eq (show bits.toNat = 0 by omega)
  subst hbits
  rfl

/-- Zero less a number is its negative, unless the number is the positive zero. -/
theorem zero_sub_eq_neg {x : Float} (hx : x ≠ 0.0) : 0.0 - x = -x := by
  have hzero : (0.0 : Float).toModel.unpack = .zero .positive := rfl
  have hparts : UnpackedFloat.sub .binary64 (.zero .positive) x.toModel.unpack =
      x.toModel.unpack.neg := by
    cases h : x.toModel.unpack with
    | zero sign =>
      cases sign with
      | positive => exact absurd (eq_zero_of_unpack h) hx
      | negative => rfl
    | notANumber | infinity | finite => rfl
  show Float.ofModel (pack (.sub .binary64 (0.0 : Float).toModel.unpack x.toModel.unpack)) =
    Float.ofModel (pack x.toModel.unpack.neg)
  rw [hzero, hparts]

/-! ### Code of the operators -/

/-- The value that the code of an operator computes from a slot. -/
def Scalar.unaryAtRun (op : UnaryOp) (c : Scalar) : Scalar :=
  match op with
  | .minus => .number (0.0 - c.toNumber)
  | op => (c.unary op).getD .undefined

/-- The routine writes the number that a scalar stands for. -/
theorem Run.toNumberRoutine_slot {m : Machine} {args : Args} {a result : Slot} {v : Scalar}
    (hm : m.Stored) (hvalue : args.text? "value" = some a.key)
    (hresult : args.text? "result" = some result.key) (hv : m.slots.get? a.key = some v.slot) :
    toNumberRoutine args m = .ok () (m.putSlot result (Scalar.number v.toNumber).slot) := by
  have hscalar : scalarArgument args "value" m = .ok v m :=
    (bind_of_ok (valueArgument_slot hvalue hv)).trans rfl
  exact (bind_of_ok hscalar).trans (answer_slot hm hresult _)

/-- The code of a call for the number that a scalar stands for. -/
theorem Run.straight_toNumber {m : Machine} {a : Slot} {v : Scalar} {c : Channel} (result : Slot)
    (hm : m.Stored) (hv : m.slots.get? a.key = some v.slot) :
    ∃ tree, Straight (libraryCode c .toNumber
      [("value", .addressOf a), ("result", .addressOf result)]) m
      ((m.putChannel c tree).putSlot result (Scalar.number v.toNumber).slot) := by
  let entries : List (String × Nbt) :=
    [("value", .string a.key), ("result", .string result.key)]
  have hnodup : (entries.map (·.1)).Nodup := by simp [entries]
  let args : Args := ⟨c.key, filledTree c entries⟩
  have hvalue : args.text? "value" = some a.key := text?_filledTree hnodup (by simp [entries])
  have hresult : args.text? "result" = some result.key :=
    text?_filledTree hnodup (by simp [entries])
  refine ⟨filledTree c entries, ?_⟩
  show Straight (libraryCode c .toNumber (literalEntries entries)) m _
  refine straight_library hm fun k call => ?_
  have hroutine := toNumberRoutine_slot ((hm.putChannel c (filledTree c entries)).cap k) hvalue
    hresult hv
  exact (bind_of_ok hroutine).trans rfl

/-- The text in a slot becomes the type of the value in another one, if its kind is among those that
    are asked for. -/
theorem Run.straight_typeOf {m : Machine} {a result : Slot} {c : Scalar} (hne : a ≠ result)
    (hm : m.Stored) (ha : m.slots.get? a.key = some c.slot) (kinds : List Kind) (text : String)
    (hresult : m.slots.get? result.key = some (Scalar.string text).slot) :
    ∃ m', Straight (kinds.map fun kind =>
        .set (kindIs a kind) (.field result "value") (.text kind.typeOf)) m m' ∧
      m.Quiet (· = result) m' ∧ m'.slots.get? result.key =
        some (Scalar.string (if c.kind ∈ kinds then c.kind.typeOf else text)).slot := by
  induction kinds generalizing m text with
  | nil => exact ⟨m, .nil m, .refl _ hm, by simpa using hresult⟩
  | cons kind kinds ih =>
    obtain ⟨m₁, hrun₁, hquiet₁, hresult₁⟩ := straight_payload hm hresult (kindIs a kind)
      (.string kind.typeOf)
    rw [Machine.holds_kindIs ha] at hresult₁
    have hresult₁' : m₁.slots.get? result.key =
        some (Scalar.string (if c.kind = kind then kind.typeOf else text)).slot := by
      rw [hresult₁]
      by_cases h : c.kind = kind <;> simp [h] <;> rfl
    obtain ⟨m₂, hrun₂, hquiet₂, hresult₂⟩ := ih hquiet₁.stored
      ((hquiet₁.slots a hne).trans ha) _ hresult₁'
    refine ⟨m₂, hrun₁.append hrun₂, hquiet₁.trans hquiet₂, hresult₂.trans ?_⟩
    by_cases h : c.kind = kind <;> by_cases h' : c.kind ∈ kinds <;> simp [h, h']

namespace Compile

variable {s : Compiler} {a : Slot}

/-- A slot that the code fills with what a function makes of the scalar in another one. -/
structure MakesFrom (s : Compiler) (a : Slot) (f : Scalar → Scalar) (result : Slot)
    (is : List Instr) (s' : Compiler) : Prop where
  below : result.index < s'.names.slots
  runs : ∀ m c, m.Stored → m.slots.get? a.key = some c.slot →
    Run.Goes (Machine.From s.names.slots) is m fun m' => m'.slots.get? result.key = some (f c).slot

theorem toNumberSlot_yields :
    Yields s (toNumberSlot a) (MakesFrom s a (.number ·.toNumber)) := by
  refine (freshSlot_yields s).bind fun result is₁ s₁ h₁ hslot => ?_
  obtain ⟨rfl, rfl, hslots⟩ := hslot
  refine (callLibrary_yields _ _ s₁).bind fun _ is₂ s₂ h₂ hcode => ?_
  obtain ⟨c, rfl⟩ := hcode
  have hs₂ := h₂.slots
  refine .pure ⟨by show s.names.slots < _; omega, fun m v hm hv => ?_⟩
  rw [List.append_nil, List.nil_append]
  obtain ⟨tree, hrun⟩ := Run.straight_toNumber (c := c) ⟨s.names.slots⟩ hm hv
  exact ⟨_, hrun, (Machine.Quiet.putChannel hm _ _).trans
    (.putSlot (hm.putChannel _ _) (Nat.le_refl s.names.slots) _), Machine.get?_putSlot_self _ _ _⟩

/-- Asking for kinds one by one emits one write for each. -/
theorem forM_typeOf (kinds : List Kind) (a result : Slot) (s : Compiler) :
    (kinds.forM fun kind => setIf (kindIs a kind) (.field result "value") (.text kind.typeOf)) s =
      .ok ⟨⟩ (s.push (kinds.map fun kind =>
        .set (kindIs a kind) (.field result "value") (.text kind.typeOf))) := by
  induction kinds generalizing s with
  | nil => rfl
  | cons kind rest ih => exact ih (s.push [_])

theorem typeOfSlot_yields (ha : a.index < s.names.slots) :
    Yields s (typeOfSlot a) (MakesFrom s a (.string ·.kind.typeOf)) := by
  refine (slotOf_yields _ s).bind fun result is₁ s₁ h₁ hslot => ?_
  obtain ⟨rfl, hslots, rfl⟩ := hslot
  have hne : a ≠ ⟨s.names.slots⟩ := by
    rintro rfl
    exact Nat.lt_irrefl _ ha
  refine ⟨_, _, s₁.push _, bind_of_ok (forM_typeOf _ a ⟨s.names.slots⟩ s₁), .push s₁ _,
    by show s.names.slots < s₁.names.slots; omega, fun m c hm hc => ?_⟩
  refine (Run.goes_set hm (Nat.le_refl s.names.slots) fun _ => rfl).append
    (fun m₁ hq₁ hresult => ?_) fun _ h => h
  obtain ⟨m₂, hrun, hq₂, hresult₂⟩ := Run.straight_typeOf hne hq₁.stored
    ((hq₁.slots a (Nat.not_le_of_lt ha)).trans hc) (Kind.all.filter (· ≠ .undefined)) "undefined"
    hresult
  refine ⟨m₂, hrun, hq₂.mono fun x hx => hx ▸ Nat.le_refl s.names.slots, hresult₂.trans ?_⟩
  cases c <;> rfl

/-- The code of an operator before a slot. -/
theorem applyUnary_yields {op : UnaryOp} (hop : op ≠ .bitNot ∧ op ≠ .delete)
    (ha : a.index < s.names.slots) (span : Span) :
    Yields s (applyUnary op a span) fun v is _ => ∀ m (c : Scalar), m.Stored →
      m.slots.get? a.key = some c.slot →
        Run.Goes (Machine.From s.names.slots) is m (v.Holds · (c.unaryAtRun op)) := by
  have hmake : ∀ {f : Scalar → Scalar} {make : Compile Slot},
      Yields s make (MakesFrom s a f) → Yields s (make >>= fun r => pure (Lowered.slot r))
        fun v is _ => ∀ m (c : Scalar), m.Stored → m.slots.get? a.key = some c.slot →
          Run.Goes (Machine.From s.names.slots) is m (v.Holds · (f c)) := by
    intro f make h
    refine h.bind fun r is _ _ hr => .pure fun m c hm hc => ?_
    rw [List.append_nil]
    exact hr.runs m c hm hc
  cases op with
  | minus =>
    have hop : BinaryOp.sub.routine?.isSome := rfl
    have hzero : (Lowered.known (.number 0.0)).Below s.names.slots := trivial
    have hslot : (Lowered.slot a).Below s.names.slots := ha
    refine (applyBinary_yields hop hzero hslot span).imp ?_
    rintro v is _ _ ⟨_, hruns⟩ m c hm hc
    exact hruns m (.number 0.0) c hm rfl hc
  | plus => exact hmake toNumberSlot_yields
  | not => exact hmake ((notSlot_yields ha).imp fun r is _ _ h => ⟨h.1, h.2⟩)
  | typeOf => exact hmake (typeOfSlot_yields ha)
  | void => exact .pure fun m c hm hc => .nil hm rfl
  | bitNot => exact absurd rfl hop.1
  | delete => exact absurd rfl hop.2

end Compile

/-- **Folding before a value is what running does**, but for the sign of a zero. For every constant
    and each of the operators `-`, `+`, `!`, `typeof` and `void`, the code that is emitted for a
    slot runs to its end when the slot holds the constant. It leaves the value that the compiler
    folds the constant to, unless the operator is `-` and the constant stands for the positive
    zero: then the value is folded to the negative zero, and the code leaves the positive one. All
    slots that there were before are as they were. -/
theorem unary_folding_agrees (op : UnaryOp) (hop : op ≠ .bitNot ∧ op ≠ .delete) (c : Scalar)
    (a : Slot) (span : Span) (s : Compiler) (ha : a.index < s.names.slots) :
    ∃ folded value result s' code, c.unary op = some folded ∧
      Compile.applyUnary op a span s = .ok result s' ∧
      s'.current.instrs.toList = s.current.instrs.toList ++ code ∧
      (¬ (op = .minus ∧ c.toNumber = 0.0) → value = folded) ∧
      (op = .minus ∧ c.toNumber = 0.0 → folded = .number (-0.0) ∧ value = .number 0.0) ∧
      ∀ (call : Executor) (channel : Option String) (m : Machine), m.Stored →
        m.slots.get? a.key = some c.slot →
        ∃ m', Run.steps call channel code m = .ok Instr.normal m' ∧ result.Holds m' value ∧
          ∀ b : Slot, b.index < s.names.slots → m'.slots.get? b.key = m.slots.get? b.key := by
  obtain ⟨folded, hfolded⟩ : ∃ folded, c.unary op = some folded := by
    cases op <;> first | exact ⟨_, rfl⟩ | exact absurd rfl hop.2
  obtain ⟨result, code, s', hrun, hemits, hruns⟩ := Compile.applyUnary_yields hop ha span
  refine ⟨folded, c.unaryAtRun op, result, s', code, hfolded, hrun, hemits.instrs, fun h => ?_,
    fun h => ?_, fun call channel m hm hc => ?_⟩
  · cases op with
    | minus =>
      obtain rfl := Option.some.inj hfolded
      exact congrArg Scalar.number (zero_sub_eq_neg fun hzero => h ⟨rfl, hzero⟩)
    | _ => simp [Scalar.unaryAtRun, hfolded]
  · obtain ⟨rfl, hzero⟩ := h
    obtain rfl := Option.some.inj hfolded
    rw [Scalar.unaryAtRun, hzero]
    exact ⟨rfl, congrArg Scalar.number (by decide +kernel)⟩
  · obtain ⟨m', hstraight, hquiet, hvalue⟩ := hruns m c hm hc
    refine ⟨_, hstraight.steps_eq call channel, ?_, fun b hb => ?_⟩
    · cases result <;> exact hvalue
    · exact hquiet.slots b (Nat.not_le_of_lt hb)

/-- A machine whose first slot holds a number. -/
def numberMachine (x : Float) : Machine :=
  (Machine.start default 0).putSlot ⟨0⟩ (Scalar.number x).slot

/-- The negative of one is the same either way. -/
theorem unary_folding_agrees_one : ∃ result s' m',
    Compile.applyUnary .minus ⟨0⟩ .origin { Compiler.start "pack" with names.slots := 1 } =
      .ok result s' ∧
    Run.steps (Run.execute 0) none s'.current.instrs.toList (numberMachine 1.0) =
      .ok Instr.normal m' ∧ result.Holds m' (.number (-1.0)) := by
  obtain ⟨folded, value, result, s', code, hfolded, hresult, hcode, hvalue, _, hruns⟩ :=
    unary_folding_agrees .minus (by decide) (.number 1.0) ⟨0⟩ .origin
      { Compiler.start "pack" with names.slots := 1 } (by decide)
  obtain ⟨m', hrun, hholds, _⟩ := hruns (Run.execute 0) none (numberMachine 1.0)
    (Machine.Stored.putSlot ⟨⟨_, rfl⟩, ⟨_, rfl⟩⟩ _ _) rfl
  have hone : (1.0 : Float) ≠ 0.0 := by decide +kernel
  obtain rfl := hvalue fun h => hone h.2
  obtain rfl := Option.some.inj hfolded
  refine ⟨result, s', m', hresult, ?_, hholds⟩
  rw [hcode]
  exact hrun

/-- The negative of zero is folded to the negative zero, but the code leaves the positive one. -/
theorem negative_of_zero_differs : ∃ result s' m',
    (Scalar.number 0.0).unary .minus = some (.number (-0.0)) ∧
    Compile.applyUnary .minus ⟨0⟩ .origin { Compiler.start "pack" with names.slots := 1 } =
      .ok result s' ∧
    Run.steps (Run.execute 0) none s'.current.instrs.toList (numberMachine 0.0) =
      .ok Instr.normal m' ∧ result.Holds m' (.number 0.0) ∧ (0.0 : Float) ≠ -0.0 := by
  have hop : UnaryOp.minus ≠ .bitNot ∧ UnaryOp.minus ≠ .delete := by decide
  obtain ⟨result, code, s', hresult, hemits, hruns⟩ := Compile.applyUnary_yields hop
    (show (Slot.mk 0).index < { Compiler.start "pack" with names.slots := 1 }.names.slots
      by decide) .origin
  obtain ⟨m', hrun, _, hholds⟩ := hruns (numberMachine 0.0) (.number 0.0)
    (Machine.Stored.putSlot ⟨⟨_, rfl⟩, ⟨_, rfl⟩⟩ _ _) rfl
  have hzero : (Scalar.number 0.0).unaryAtRun .minus = .number 0.0 :=
    congrArg Scalar.number (by decide +kernel)
  rw [hzero] at hholds
  refine ⟨result, s', m'.cap (numberMachine 0.0).maxDepth, rfl, hresult, ?_, ?_, by decide +kernel⟩
  · rw [hemits.instrs]
    exact hrun.steps_eq _ _
  · cases result <;> exact hholds

end PackScript
