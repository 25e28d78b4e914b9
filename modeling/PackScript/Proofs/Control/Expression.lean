import PackScript.Compile.Script
import PackScript.Proofs.Control.Effect
import PackScript.Proofs.Control.Emission

namespace PackScript

/-!
# Pure expressions

The code of a pure expression leaves the value of the expression in a slot, or the compiler knows
the value, and no variable changes.

* `Run.Does P is m Q` — the code goes on in a state in which `Q` holds, and only slots of `P` have
  changed; `Run.Goes P is m Q` — it does so at once, with no call of a unit.
* `Computes` — the code computes a value that depends on the variables.
* `lowering_expr` — what a pure expression is compiled to computes its value.
-/

variable {s : Compiler} {e l no r yes : Expr} {guard : Guard} {op : LogicalOp} {v : Lowered}
  {m m' : Machine} {n : Nat} {a : Slot}

/-! ### Goals of code -/

namespace Run

open Machine (From)

/-- The code goes on in a state in which the goal holds, and only slots of the set have
    changed. -/
def Does (P : Slot → Prop) (is : List Instr) (m : Machine) (Q : Machine → Prop) : Prop :=
  ∃ d m', Reaches is d m none m' ∧ m.Quiet P m' ∧ Q m'

variable {P P' : Slot → Prop} {is js : List Instr} {m : Machine} {Q R : Machine → Prop}

theorem Does.nil (hm : m.Stored) (h : Q m) : Does P [] m Q :=
  ⟨0, m, (Straight.nil m).reaches, .refl P hm, h⟩

theorem Does.append (h : Does P is m Q)
    (h' : ∀ m', m.Quiet P m' → Q m' → Does P' js m' R) (hP : ∀ s, P' s → P s) :
    Does P (is ++ js) m R := by
  obtain ⟨d, m1, hrun, hquiet, hQ⟩ := h
  obtain ⟨d', m2, hrun', hquiet', hR⟩ := h' m1 hquiet hQ
  exact ⟨max d d', m2, hrun.append hrun', hquiet.trans (hquiet'.mono hP), hR⟩

theorem Does.imp (h : Does P is m Q) (hQ : ∀ m', m.Quiet P m' → Q m' → R m') :
    Does P is m R := by
  obtain ⟨d, m', hrun, hquiet, hQ'⟩ := h
  exact ⟨d, m', hrun, hquiet, hQ m' hquiet hQ'⟩

theorem Does.mono (h : Does P is m Q) (hP : ∀ s, P s → P' s) : Does P' is m Q := by
  obtain ⟨d, m', hrun, hquiet, hQ⟩ := h
  exact ⟨d, m', hrun, hquiet.mono hP, hQ⟩

/-- The code goes on in such a state whatever it is called with, and calls no unit. -/
def Goes (P : Slot → Prop) (is : List Instr) (m : Machine) (Q : Machine → Prop) : Prop :=
  ∃ m', Straight is m m' ∧ m.Quiet P m' ∧ Q m'

theorem Goes.does (h : Goes P is m Q) : Does P is m Q := by
  obtain ⟨m', hrun, hquiet, hQ⟩ := h
  exact ⟨0, m', hrun.reaches, hquiet, hQ⟩

theorem Goes.nil (hm : m.Stored) (h : Q m) : Goes P [] m Q :=
  ⟨m, .nil m, .refl P hm, h⟩

theorem Goes.append (h : Goes P is m Q)
    (h' : ∀ m', m.Quiet P m' → Q m' → Goes P' js m' R) (hP : ∀ s, P' s → P s) :
    Goes P (is ++ js) m R := by
  obtain ⟨m1, hrun, hquiet, hQ⟩ := h
  obtain ⟨m2, hrun', hquiet', hR⟩ := h' m1 hquiet hQ
  exact ⟨m2, hrun.append hrun', hquiet.trans (hquiet'.mono hP), hR⟩

theorem Goes.imp (h : Goes P is m Q) (hQ : ∀ m', m.Quiet P m' → Q m' → R m') :
    Goes P is m R := by
  obtain ⟨m', hrun, hquiet, hQ'⟩ := h
  exact ⟨m', hrun, hquiet, hQ m' hquiet hQ'⟩

/-- A slot is written. -/
theorem goes_set {s : Slot} {source : Source} {v : Nbt} (hm : m.Stored) (hs : P s)
    (hsource : ∀ channel, m.take channel source = some v) :
    Goes P [.set .always (.slot s) source] m fun m' => m'.slots.get? s.key = some v :=
  ⟨_, straight_set_slot hm rfl hsource, .putSlot hm hs v, Machine.get?_putSlot_self m s v⟩

/-- A call of a unit that does something. -/
theorem does_call {name : String} {u : CodeUnit} (hguard : m.holds guard = true)
    (hu : m.program.units.find? name = some u) (hm : m.Stored) (h : Does P u.instrs m.inside Q)
    (hQ : ∀ m', Q m' → Q m'.outside) : Does P [.invoke guard (.unit name) none none] m Q := by
  obtain ⟨d, m', hrun, hquiet, hQ'⟩ := h
  refine ⟨d + 1, m'.outside, reaches_call hguard hu hrun.answers fun _ => rfl, ?_, hQ m' hQ'⟩
  exact ((Machine.Quiet.inside hm).trans hquiet).trans (.outside hquiet.stored)

/-- A call whose guard does not hold. -/
theorem does_noCall {callee : Callee} (hguard : m.holds guard = false) (hm : m.Stored) (h : Q m) :
    Does P [.invoke guard callee none none] m Q :=
  ⟨0, m, (straight_noCall hguard).reaches, .refl P hm, h⟩

end Run

/-! ### Values of lowered expressions -/

open Machine (From)

/-- The lowered expression has the value. -/
def Lowered.Holds (m : Machine) (x : Scalar) : Lowered → Prop
  | .known c => c = x
  | .slot a => m.slots.get? a.key = some x.slot

/-- The slot of a lowered expression, if it has one, has a smaller number. -/
def Lowered.Below (n : Nat) : Lowered → Prop
  | .known _ => True
  | .slot a => a.index < n

section

variable {m m' : Machine} {v : Lowered} {x : Scalar} {n n' : Nat}

theorem Lowered.Below.mono (h : v.Below n) (hn : n ≤ n') : v.Below n' := by
  cases v with
  | known c => trivial
  | slot a => exact Nat.lt_of_lt_of_le h hn

theorem Lowered.Holds.quiet (h : v.Holds m x) (hv : v.Below n) (hquiet : m.Quiet (From n) m') :
    v.Holds m' x := by
  cases v with
  | known c => exact h
  | slot a => exact (hquiet.slots a (Nat.not_le_of_lt hv)).trans h

/-- What a write takes to copy the value. -/
theorem Lowered.Holds.take (h : v.Holds m x) (channel : Option String) :
    m.take channel v.source = some x.slot := by
  cases v with
  | known c => exact congrArg (fun c : Scalar => some c.slot) h
  | slot a => exact (Nbt.getPath_single _ _).trans h

end

/-- The variables have the values. -/
def Layout.Fits (L : Layout) (env : String → Scalar) (m : Machine) : Prop :=
  ∀ x ∈ L.names, m.slots.get? (L.slot x).key = some (env x).slot

theorem Layout.Fits.quiet {L : Layout} {env : String → Scalar} (h : L.Fits env m) (hn : L.base ≤ n)
    (hquiet : m.Quiet (From n) m') : L.Fits env m' :=
  fun x hx => (hquiet.slots _ (Nat.not_le_of_lt (Nat.lt_of_lt_of_le (L.below x hx) hn))).trans
    (h x hx)

/-- The machine has the units that are finished. -/
def Compiler.Within (s : Compiler) (m : Machine) : Prop :=
  ∀ name u, s.units.find? name = some u → m.program.units.find? name = some u

theorem Compiler.Within.of_prefix {s' : Compiler} (h : s'.Within m) (hunits : s.units <+: s'.units)
    : s.Within m :=
  fun name u hu => h name u (Table.find?_of_prefix hunits hu)

theorem Compiler.Within.changes {P : Slot → Prop} (h : s.Within m) (hm : m.Changes P m') :
    s.Within m' := by
  intro name u hu
  rw [hm.program]
  exact h name u hu

/-- The code computes a value that depends on the variables, in slots that were free. -/
structure Computes (L : Layout) (s : Compiler) (value : (String → Scalar) → Scalar) (v : Lowered)
    (is : List Instr) (s' : Compiler) : Prop where
  below : v.Below s'.names.slots
  runs : ∀ m env, s'.Within m → m.Stored → L.Fits env m →
    Run.Does (From s.names.slots) is m (v.Holds · (value env))

/-- The expression is compiled to code that computes its value. -/
def ExprLowered (L : Layout) (k : Lowering) (e : Expr) : Prop :=
  ∀ s, Ready L s → Compile.Yields s (k.expr e) (Computes L s e.value)

namespace Compile

variable {L : Layout} {s : Compiler}

/-! ### Slots, operators and truth -/

/-- The value is there afterwards, in a slot. -/
structure MakesSlot (s : Compiler) (v : Lowered) (a : Slot) (is : List Instr) (s' : Compiler) :
    Prop where
  below : a.index < s'.names.slots
  runs : ∀ m x, m.Stored → v.Holds m x →
    Run.Goes (From s.names.slots) is m fun m' => m'.slots.get? a.key = some x.slot

theorem materialize_yields (hv : v.Below s.names.slots) :
    Yields s (materialize v) (MakesSlot s v) := by
  cases v with
  | slot a => exact .pure ⟨hv, fun m x hm h => .nil hm h⟩
  | known c =>
    refine (freshSlot_yields s).bind fun a is s1 h1 hslot => ?_
    obtain ⟨rfl, rfl, hslots⟩ := hslot
    refine (emit_yields _ s1).bind fun _ is s2 h2 hcode => ?_
    subst hcode
    refine .pure ⟨?_, fun m x hm h => ?_⟩
    · have := h2.slots
      show s.names.slots < s2.names.slots
      omega
    · exact Run.goes_set hm (Nat.le_refl s.names.slots) fun channel =>
        Lowered.Holds.take (v := .known c) h channel

/-- A fresh slot that holds a scalar. -/
theorem slotOf_yields (c : Scalar) (s : Compiler) :
    Yields s (slotOf c) fun a is s' => a = ⟨s.names.slots⟩ ∧
      s'.names.slots = s.names.slots + 1 ∧
      is = [.set .always (.slot ⟨s.names.slots⟩) (.literal c.slot)] := by
  refine (freshSlot_yields s).bind fun a is s1 h1 hslot => ?_
  obtain ⟨rfl, rfl, hslots⟩ := hslot
  exact ⟨_, _, s1.push [_], rfl, .push s1 _, rfl, hslots, rfl⟩

/-- An operator computes its value from those of its operands. -/
theorem applyBinary_yields {op : BinaryOp} {l r : Lowered} (hop : op.routine?.isSome)
    (hl : l.Below s.names.slots) (hr : r.Below s.names.slots) (span : Span) :
    Yields s (applyBinary op l r span) fun v is s' => v.Below s'.names.slots ∧
      ∀ m a b, m.Stored → l.Holds m a → r.Holds m b →
        Run.Goes (From s.names.slots) is m
          (v.Holds · ((Scalar.binary op a b).getD .undefined)) := by
  obtain ⟨⟨name, operation⟩, hroutine⟩ := Option.isSome_iff_exists.1 hop
  cases hfold : l.fold op r with
  | some value =>
    -- both operands are known
    have hrun : applyBinary op l r span s = .ok (.known value) s := by
      rw [applyBinary, hfold]
      rfl
    refine ⟨_, [], s, hrun, .refl s, trivial, fun m a b hm hla hrb => .nil hm ?_⟩
    cases l with
    | slot _ => cases hfold
    | known c =>
      cases r with
      | slot _ => cases hfold
      | known c' =>
        obtain rfl : c = a := hla
        obtain rfl : c' = b := hrb
        have hvalue : Scalar.binary op c c' = some value := hfold
        show value = (Scalar.binary op c c').getD .undefined
        rw [hvalue]
        rfl
  | none =>
    simp only [applyBinary, hfold, hroutine]
    refine (materialize_yields hl).bind fun left is1 s1 h1 hleft => ?_
    refine (materialize_yields (hr.mono h1.slots)).bind fun right is2 s2 h2 hright => ?_
    refine (freshSlot_yields s2).bind fun result is3 s3 h3 hslot => ?_
    obtain ⟨rfl, rfl, hslots⟩ := hslot
    refine (callLibrary_yields _ _ s3).bind fun _ is4 s4 h4 hcode => ?_
    obtain ⟨c, rfl⟩ := hcode
    have hs1 := h1.slots
    have hs2 := h2.slots
    have hs4 := h4.slots
    refine .pure ⟨?_, fun m a b hm hla hrb => ?_⟩
    · show s2.names.slots < s4.names.slots
      omega
    · rw [List.append_nil, List.nil_append]
      refine (hleft.runs m a hm hla).append (fun m1 hq1 hla1 => ?_) fun x => Nat.le_trans hs1
      have hrb1 : r.Holds m1 b := hrb.quiet hr hq1
      refine (hright.runs m1 b hq1.stored hrb1).append (fun m2 hq2 hrb2 => ?_)
        fun x => Nat.le_trans hs2
      have hla2 : m2.slots.get? left.key = some a.slot :=
        (hq2.slots left (Nat.not_le_of_lt hleft.below)).trans hla1
      obtain ⟨value, hvalue, hrun⟩ := Run.straight_operator hroutine c ⟨s2.names.slots⟩
        hq2.stored hla2 hrb2
      rw [Run.literalEntries_operator] at hrun
      refine ⟨_, hrun, (Machine.Quiet.putChannel hq2.stored _ _).trans
        (.putSlot (hq2.stored.putChannel _ _) (Nat.le_refl s2.names.slots) _), ?_⟩
      rw [hvalue]
      exact Machine.get?_putSlot_self _ _ _

/-- Raising a flag for guards emits one instruction for each. -/
theorem forM_raise (guards : List Guard) (flag : Slot) (s : Compiler) :
    (guards.forM fun guard => raise guard flag) s =
      .ok ⟨⟩ (s.push (guards.map (Run.raiseCode · flag))) := by
  induction guards generalizing s with
  | nil => rfl
  | cons g rest ih => exact ih (s.push [Run.raiseCode g flag])

/-- A fresh flag that is raised if one of the guards holds. -/
theorem raises_yields (guards : List Guard) (s : Compiler)
    (hguards : ∀ g ∈ guards, g.Reads (·.index < s.names.slots)) :
    Yields s (do
      let flag ← slotOf (.boolean false)
      guards.forM fun guard => raise guard flag
      return flag) fun flag is s' => flag = ⟨s.names.slots⟩ ∧
        s'.names.slots = s.names.slots + 1 ∧
        ∀ m, m.Stored → Run.Goes (From s.names.slots) is m
          (·.Flagged flag (guards.any m.holds)) := by
  refine (slotOf_yields _ s).bind fun flag is1 s1 h1 hslot => ?_
  obtain ⟨rfl, hslots, rfl⟩ := hslot
  refine ⟨_, _, s1.push (guards.map (Run.raiseCode · ⟨s.names.slots⟩)), ?_, .push s1 _, rfl,
    hslots, fun m hm => ?_⟩
  · exact bind_of_ok (forM_raise guards _ s1)
  · refine (Run.goes_set hm (Nat.le_refl s.names.slots) fun _ => rfl).append
      (fun m1 hq1 hflag => ?_) fun _ h => h
    obtain ⟨m2, hrun, hq2, hflag2⟩ := Run.straight_raises hq1.stored hflag
      fun g (hg : g ∈ guards) t ht => by
        obtain ⟨a, path, hplace, ha⟩ := hguards g hg t ht
        refine ⟨a, path, hplace, fun h => ?_⟩
        rw [h] at ha
        exact Nat.lt_irrefl _ ha
    refine ⟨m2, hrun, hq2.mono fun x hx => ?_, ?_⟩
    · rw [hx]
      exact Nat.le_refl s.names.slots
    · -- the guards look at slots that the flag is none of
      have hany : guards.any m1.holds = guards.any m.holds := by
        rw [Bool.eq_iff_iff, List.any_eq_true, List.any_eq_true]
        refine exists_congr fun g => and_congr_right fun hg => ?_
        rw [Machine.holds_congr (hguards g hg) fun a ha => hq1.slots a (Nat.not_le_of_lt ha)]
      rw [← hany]
      exact hflag2

theorem reads_truthGuards (a : Slot) {g : Guard} (hg : g ∈ truthGuards a) :
    g.Reads (· = a) := by
  have hfield : ∀ name, ∃ b path, Place.field a name = ⟨.slot b, path⟩ ∧ b = a :=
    fun name => ⟨a, [name], rfl, rfl⟩
  intro t ht
  simp only [truthGuards, List.mem_cons, List.not_mem_nil, or_false] at hg
  rcases hg with rfl | rfl | rfl | rfl | rfl | rfl <;>
    simp [kindIs, Guard.when, Guard.and, Guard.andNot] at ht <;>
    rcases ht with rfl | rfl | rfl <;> exact hfield _

/-- The truth of a value in a slot. -/
theorem truthFlag_yields (ha : a.index < s.names.slots) :
    Yields s (truthFlag a) fun flag is s' => flag = ⟨s.names.slots⟩ ∧
      s'.names.slots = s.names.slots + 1 ∧
      ∀ m v, m.Stored → v.WellFormed → m.slots.get? a.key = some v →
        Run.Goes (From s.names.slots) is m (·.Flagged flag (Value.ofSlot v).truthy) := by
  have hreads : ∀ g ∈ truthGuards a, g.Reads (·.index < s.names.slots) := by
    intro g hg t ht
    obtain ⟨b, path, hplace, rfl⟩ := reads_truthGuards a hg t ht
    exact ⟨b, path, hplace, ha⟩
  refine (raises_yields (truthGuards a) s hreads).imp fun flag is s' _ h => ?_
  refine ⟨h.1, h.2.1, fun m v hm hv hx => ?_⟩
  rw [← Machine.any_truthGuards hv hx]
  exact h.2.2 m hm

/-- The truth of a scalar in a slot. -/
theorem truthFlag_scalar_yields (ha : a.index < s.names.slots) :
    Yields s (truthFlag a) fun flag is s' => flag = ⟨s.names.slots⟩ ∧
      s'.names.slots = s.names.slots + 1 ∧
      ∀ m (x : Scalar), m.Stored → m.slots.get? a.key = some x.slot →
        Run.Goes (From s.names.slots) is m (·.Flagged flag x.truthy) := by
  refine (truthFlag_yields ha).imp fun flag is s' _ h => ⟨h.1, h.2.1, fun m x hm hx => ?_⟩
  have hruns := h.2.2 m x.slot hm x.wellFormed hx
  rw [Value.ofSlot_slot] at hruns
  exact hruns

end Compile

/-- What is known of the truth of a value is right. -/
def Truth.Holds (m : Machine) (b : Bool) : Truth → Prop
  | .known c => c = b
  | .flag f => m.Flagged f b

/-- The flag of a truth, if it has one, has a number between the two. -/
def Truth.Between (n n' : Nat) : Truth → Prop
  | .known _ => True
  | .flag f => From n f ∧ f.index < n'

theorem Truth.Between.mono {t : Truth} {n0 n' : Nat} (h : t.Between n n') (hn : n0 ≤ n) :
    t.Between n0 n' := by
  cases t with
  | known b => trivial
  | flag f => exact ⟨Nat.le_trans hn h.1, h.2⟩

namespace Compile

variable {L : Layout} {s : Compiler}

theorem truth_yields (hv : v.Below s.names.slots) :
    Yields s (truth v) fun t is s' => t.Between s.names.slots s'.names.slots ∧
      ∀ m x, m.Stored → v.Holds m x → Run.Does (From s.names.slots) is m (t.Holds · x.truthy) := by
  cases v with
  | known c =>
    refine .pure ⟨trivial, fun m x hm h => .nil hm ?_⟩
    obtain rfl : c = x := h
    exact rfl
  | slot a =>
    refine (truthFlag_scalar_yields hv).bind fun flag is s1 _ h => ?_
    obtain ⟨rfl, hslots, hruns⟩ := h
    refine .pure ⟨⟨Nat.le_refl s.names.slots, ?_⟩, fun m x hm hx => ?_⟩
    · show s.names.slots < s1.names.slots
      omega
    · rw [List.append_nil]
      exact (hruns m x hm hx).does

/-- A test: what is known of the truth of an expression. -/
theorem test_yields {k : Lowering} (he : ExprLowered L k e) (hs : Ready L s) :
    Yields s (k.expr e >>= truth) fun t is s' => t.Between s.names.slots s'.names.slots ∧
      ∀ m env, s'.Within m → m.Stored → L.Fits env m →
        Run.Does (From s.names.slots) is m (t.Holds · (e.value env).truthy) := by
  refine (he s hs).bind fun v is1 s1 h1 hv => (truth_yields hv.below).imp ?_
  rintro t is2 s2 h2 ⟨hbetween, hruns⟩
  refine ⟨hbetween.mono h1.slots, fun m env hwithin hm hfits => ?_⟩
  refine (hv.runs m env (hwithin.of_prefix h2.units) hm hfits).append (fun m1 hq1 hv1 => ?_)
    fun x => Nat.le_trans h1.slots
  exact hruns m1 _ hq1.stored hv1

/-! ### Single forms of expressions -/

variable {k : Lowering}

theorem lowerIdent_yields {id : Ident} (hid : id.name ∈ L.names) (hs : Ready L s) :
    Yields s (lowerIdent id) (Computes L s (Expr.value · (.ident id))) := by
  have hrun : lowerIdent id s = .ok (.slot (L.slot id.name)) s := by
    have hresolve : resolve id.name s = .ok (some ⟨L.slot id.name, .let_⟩) s :=
      congrArg (EStateM.Result.ok · s) (hs.bound _ hid)
    have hcapture : checkLoopCapture (L.slot id.name) id s = .ok () s := by
      refine (bind_of_ok rfl).trans ?_
      rw [hs.loopBindings]
      rfl
    exact (bind_of_ok hresolve).trans ((bind_of_ok hcapture).trans rfl)
  refine ⟨_, [], s, hrun, .refl s, ?_, fun m env _ hm hfits => .nil hm (hfits _ hid)⟩
  exact Nat.lt_of_lt_of_le (L.below _ hid) hs.base

theorem notSlot_yields (ha : a.index < s.names.slots) :
    Yields s (notSlot a) fun result is s' => result.index < s'.names.slots ∧
      ∀ m (x : Scalar), m.Stored → m.slots.get? a.key = some x.slot →
        Run.Goes (From s.names.slots) is m (·.Flagged result !x.truthy) := by
  refine (truthFlag_scalar_yields ha).bind fun flag is1 s1 h1 hflag => ?_
  obtain ⟨rfl, hslots, hruns⟩ := hflag
  have hreads : ∀ g ∈ [isFalse ⟨s.names.slots⟩], g.Reads (·.index < s1.names.slots) := by
    intro g hg t ht
    rw [List.mem_singleton.1 hg] at ht
    rw [List.mem_singleton.1 ht]
    exact ⟨⟨s.names.slots⟩, ["value"], rfl, by show s.names.slots < _; omega⟩
  refine (raises_yields [isFalse ⟨s.names.slots⟩] s1 hreads).imp ?_
  rintro result is2 s2 h2 ⟨rfl, hslots2, hruns2⟩
  refine ⟨by show s1.names.slots < _; omega, fun m x hm hx => ?_⟩
  refine (hruns m x hm hx).append (fun m1 hq1 hflag1 => ?_) fun _ => Nat.le_trans h1.slots
  refine (hruns2 m1 hq1.stored).imp fun m2 _ hflagged => ?_
  simpa [Machine.holds_isFalse hflag1] using hflagged

theorem lowerNot_yields (he : ExprLowered L k e) (hs : Ready L s) (span : Span) :
    Yields s (lowerUnary k .not e span) (Computes L s (Expr.value · (.unary .not e span))) := by
  obtain ⟨unbound, hunbound⟩ : ∃ b, isUnboundName e s = .ok b s := by
    cases e <;> exact ⟨_, rfl⟩
  refine .read hunbound ?_
  refine (he s hs).bind fun v is1 s1 h1 hv => ?_
  cases v with
  | known c =>
    refine .pure ⟨trivial, fun m env hwithin hm hfits => ?_⟩
    rw [List.append_nil]
    refine (hv.runs m env hwithin hm hfits).imp fun m1 _ hc => ?_
    have hvalue : c = e.value env := hc
    show Scalar.boolean (!c.truthy) = Scalar.boolean (!(e.value env).truthy)
    rw [hvalue]
  | slot a =>
    refine (notSlot_yields hv.below).bind fun result is2 s2 h2 hresult => ?_
    refine .pure ⟨hresult.1, fun m env hwithin hm hfits => ?_⟩
    rw [List.append_nil]
    refine (hv.runs m env (hwithin.of_prefix h2.units) hm hfits).append
      (fun m1 hq1 hv1 => ?_) fun _ => Nat.le_trans h1.slots
    exact (hresult.2 m1 _ hq1.stored hv1).does

theorem lowerBinary_yields {op : BinaryOp} (hop : op.routine?.isSome) (hl : ExprLowered L k l)
    (hr : ExprLowered L k r) (hassign : r.mayAssign = false) (hs : Ready L s) (span : Span) :
    Yields s (lowerBinary k op l r span) (Computes L s (Expr.value · (.binary op l r span))) := by
  refine (hl s hs).bind fun v1 is1 s1 h1 hv1 => ?_
  simp only [hassign, Bool.and_false]
  refine .read rfl ((hr s1 (hs.emits h1)).bind fun v2 is2 s2 h2 hv2 => ?_)
  refine (applyBinary_yields hop (hv1.below.mono h2.slots) hv2.below span).imp ?_
  rintro v is3 s3 h3 ⟨hbelow, hruns⟩
  have hs1 := h1.slots
  have hs2 := h2.slots
  refine ⟨hbelow, fun m env hwithin hm hfits => ?_⟩
  have hwithin2 := hwithin.of_prefix h3.units
  refine (hv1.runs m env (hwithin2.of_prefix h2.units) hm hfits).append
    (fun m1 hq1 hx1 => ?_) fun _ => Nat.le_trans hs1
  have hfits1 := hfits.quiet hs.base hq1
  refine (hv2.runs m1 env (hwithin2.changes hq1.toChanges) hq1.stored hfits1).append
    (fun m2 hq2 hx2 => ?_) fun _ => Nat.le_trans hs2
  exact (hruns m2 _ _ hq2.stored (hx1.quiet hv1.below hq2) hx2).does

/-! ### Units of expressions -/

theorem assign_yields (target : Slot) (v : Lowered) (s : Compiler) :
    Yields s (assign target v) fun _ is _ => ∀ m (x : Scalar), m.Stored → v.Holds m x →
      Run.Does (· = target) is m fun m' => m'.slots.get? target.key = some x.slot := by
  have hset : Yields s (set (.slot target) v.source) fun _ is _ => ∀ m (x : Scalar), m.Stored →
      v.Holds m x → Run.Does (· = target) is m fun m' =>
        m'.slots.get? target.key = some x.slot := by
    refine (emit_yields _ s).imp fun _ is _ _ his m x hm hx => ?_
    subst his
    exact (Run.goes_set (P := (· = target)) hm rfl hx.take).does
  cases v with
  | known c => exact hset
  | slot a =>
    rw [assign]
    split
    · next ha => exact .pure fun m x hm hx => .nil hm (ha ▸ hx)
    · exact hset

/-- A call of the unit computes the value of the expression into the slot, when the guard
    holds. -/
def UnitComputes (L : Layout) (n : Nat) (target : Slot) (e : Expr) (name : String)
    (s' : Compiler) : Prop :=
  ∀ m env guard, s'.Within m → m.Stored → L.Fits env m → m.holds guard = true →
    Run.Does (fun x => x = target ∨ From n x) [.invoke guard (.unit name) none none] m fun m' =>
      m'.slots.get? target.key = some (e.value env).slot

theorem exprUnit_yields (he : ExprLowered L k e) (hs : Ready L s) (target : Slot) :
    Yields s (exprUnit k target e) fun name is s' =>
      is = [] ∧ UnitComputes L s.names.slots target e name s' := by
  have hbody : Yields (s.openPart .expression false) (do assign target (← k.expr e))
      fun _ is s' => ∀ m env, s'.Within m → m.Stored → L.Fits env m →
        Run.Does (fun x => x = target ∨ From s.names.slots x) is m fun m' =>
          m'.slots.get? target.key = some (e.value env).slot := by
    refine (he _ (hs.openPart _ _)).bind fun v is1 s1 h1 hv => ?_
    refine (assign_yields target v s1).imp fun _ is2 s2 h2 hruns m env hwithin hm hfits => ?_
    have hvalue : Run.Does (fun x => x = target ∨ From s.names.slots x) is1 m
        (v.Holds · (e.value env)) :=
      (hv.runs m env (hwithin.of_prefix h2.units) hm hfits).mono fun _ => .inr
    exact hvalue.append (fun m1 hq1 hx => hruns m1 _ hq1.stored hx) fun _ => .inl
  refine (inChild_yields hs hbody).imp ?_
  rintro name is s' _ ⟨rfl, _, u, s1, hu, hruns, hunits, _⟩
  refine ⟨rfl, fun m env guard hwithin hm hfits hguard => ?_⟩
  have hwithin1 : s1.Within m.inside :=
    (hwithin.of_prefix hunits).changes (Machine.Quiet.inside (P := fun _ => False) hm).toChanges
  exact Run.does_call hguard (hwithin name u hu) hm
    (hruns m.inside env hwithin1 ⟨hm.slots, hm.channels⟩ hfits) fun _ h => h

/-! ### Operators that may skip an operand -/

theorem logicalValue_eq (op : LogicalOp) (l r : Scalar) :
    op.value l r = if decides op l then l else r := by
  cases op <;> cases hl : l.truthy <;> cases hn : l.isNullish <;>
    simp [LogicalOp.value, decides, hl, hn]

/-- The guard tells whether the right side is wanted. -/
theorem wantsRight_yields (ha : a.index < s.names.slots) :
    Yields s (wantsRight op a) fun guard is _ => ∀ m (x : Scalar), m.Stored →
      m.slots.get? a.key = some x.slot →
        Run.Does (From s.names.slots) is m fun m' => m'.holds guard = !decides op x := by
  cases op with
  | and =>
    refine (truthFlag_scalar_yields ha).bind fun flag is s1 _ h => .pure fun m x hm hx => ?_
    rw [List.append_nil]
    refine (h.2.2 m x hm hx).does.imp fun m' _ hflag => ?_
    simp [Machine.holds_isTrue hflag, decides]
  | or =>
    refine (truthFlag_scalar_yields ha).bind fun flag is s1 _ h => .pure fun m x hm hx => ?_
    rw [List.append_nil]
    refine (h.2.2 m x hm hx).does.imp fun m' _ hflag => ?_
    simp [Machine.holds_isFalse hflag, decides]
  | coalesce =>
    have hreads : ∀ g ∈ [kindIs a .undefined, kindIs a .null],
        g.Reads (·.index < s.names.slots) := by
      intro g hg t ht
      simp only [List.mem_cons, List.not_mem_nil, or_false] at hg
      rcases hg with rfl | rfl <;> rw [List.mem_singleton.1 ht] <;>
        exact ⟨a, ["type"], rfl, ha⟩
    have hflag := raises_yields [kindIs a .undefined, kindIs a .null] s hreads
    obtain ⟨flag, is, s', hrun, hemits, rfl, _, hruns⟩ := hflag
    refine ⟨isTrue ⟨s.names.slots⟩, is, s', ?_, hemits, fun m x hm hx => ?_⟩
    · cases hrun
      rfl
    · refine (hruns m hm).does.imp fun m' _ hflag => ?_
      rw [Machine.holds_isTrue hflag]
      simp only [List.any_cons, List.any_nil, Machine.holds_kindIs hx, decides, Bool.not_not,
        Bool.or_false]
      cases x <;> rfl

/-- The right side, or the value of the left side that is in a slot. -/
theorem skipping_yields (hr : ExprLowered L k r) (hs : Ready L s) (ha : a.index < s.names.slots) :
    Yields s (do
      let result ← freshSlot
      set (.slot result) (.valueOf a)
      let guard ← wantsRight op a
      let unit ← exprUnit k result r
      invoke guard (.unit unit) none
      return Lowered.slot result) fun v is s' => v.Below s'.names.slots ∧
        ∀ m env (x : Scalar), s'.Within m → m.Stored → L.Fits env m →
          m.slots.get? a.key = some x.slot → Run.Does (From s.names.slots) is m
            (v.Holds · (if decides op x then x else r.value env)) := by
  refine (freshSlot_yields s).bind fun result is1 s1 h1 hslot => ?_
  obtain ⟨rfl, rfl, hs1⟩ := hslot
  refine (emit_yields _ s1).bind fun _ is2 s2 h2 hcode => ?_
  subst hcode
  have hs2 := h2.slots
  refine (wantsRight_yields (by omega)).bind fun guard is3 s3 h3 hguard => ?_
  have hready := ((hs.emits h1).emits h2).emits h3
  refine (exprUnit_yields hr hready ⟨s.names.slots⟩).bind fun unit is4 s4 h4 hunit => ?_
  obtain ⟨rfl, hunit⟩ := hunit
  refine (emit_yields _ s4).bind fun _ is5 s5 h5 hcode => ?_
  subst hcode
  have hs3 := h3.slots
  have hs4 := h4.slots
  have hs5 := h5.slots
  refine .pure ⟨by show s.names.slots < _; omega, fun m env x hwithin hm hfits hx => ?_⟩
  rw [List.append_nil, List.nil_append, List.nil_append]
  have hset : Run.Does (From s.names.slots)
      [.set .always (.slot ⟨s.names.slots⟩) (.valueOf a)] m fun m' =>
        m'.slots.get? (Slot.key ⟨s.names.slots⟩) = some x.slot :=
    (Run.goes_set hm (Nat.le_refl s.names.slots) fun channel =>
      Lowered.Holds.take (v := .slot a) hx channel).does
  refine hset.append (fun m1 hq1 hresult1 => ?_) fun _ h => h
  have hx1 : m1.slots.get? a.key = some x.slot :=
    (hq1.slots a (Nat.not_le_of_lt ha)).trans hx
  -- finding out whether the right side is wanted does not touch the result
  have hwanted : Run.Does (From s.names.slots) is3 m1 fun m2 =>
      m2.holds guard = (!decides op x) ∧
        m2.slots.get? (Slot.key ⟨s.names.slots⟩) = some x.slot := by
    have hold : ¬ From s2.names.slots ⟨s.names.slots⟩ := by
      show ¬ s2.names.slots ≤ s.names.slots
      omega
    obtain ⟨d, m2, hrun, hq2, hholds⟩ := hguard m1 x hq1.stored hx1
    have hle : s.names.slots ≤ s2.names.slots := by omega
    exact ⟨d, m2, hrun, hq2.mono fun y hy => Nat.le_trans hle hy, hholds,
      (hq2.slots _ hold).trans hresult1⟩
  refine hwanted.append (fun m2 hq2 hm2 => ?_) fun _ h => h
  · have hfits2 := (hfits.quiet hs.base hq1).quiet hs.base hq2
    have hwithin2 := ((hwithin.of_prefix h5.units).changes hq1.toChanges).changes hq2.toChanges
    cases hdecides : decides op x with
    | true =>
      have hskip : m2.holds guard = false := by rw [hm2.1, hdecides]; rfl
      exact Run.does_noCall hskip hq2.stored hm2.2
    | false =>
      have hcall : m2.holds guard = true := by rw [hm2.1, hdecides]; rfl
      refine (hunit m2 env guard hwithin2 hq2.stored hfits2 hcall).mono fun y hy => ?_
      rcases hy with rfl | hy
      · exact Nat.le_refl s.names.slots
      · have hy' : s3.names.slots ≤ y.index := hy
        show s.names.slots ≤ y.index
        omega

theorem lowerLogical_yields (hl : ExprLowered L k l) (hr : ExprLowered L k r) (hs : Ready L s)
    (span : Span) :
    Yields s (lowerLogical k op l r) (Computes L s (Expr.value · (.logical op l r span))) := by
  have hvalue : ∀ env, Expr.value env (.logical op l r span) =
      if decides op (l.value env) then l.value env else r.value env :=
    fun env => logicalValue_eq op (l.value env) (r.value env)
  refine (hl s hs).bind fun v1 is1 s1 h1 hv1 => ?_
  have hs1 := h1.slots
  cases v1 with
  | known c =>
    -- the left side is known, so one of the two sides is left
    have hknown : ∀ {m env}, s1.Within m → m.Stored → L.Fits env m →
        Run.Does (From s.names.slots) is1 m fun _ => c = l.value env :=
      fun hwithin hm hfits => hv1.runs _ _ hwithin hm hfits
    cases hdecides : decides op c with
    | true =>
      simp only [hdecides, if_true]
      refine .pure ⟨trivial, fun m env hwithin hm hfits => ?_⟩
      rw [List.append_nil]
      refine (hknown hwithin hm hfits).imp fun m1 _ hc => ?_
      show c = _
      rw [hvalue, ← hc, hdecides, if_pos rfl]
    | false =>
      simp only [hdecides, Bool.false_eq_true, if_false]
      refine (hr s1 (hs.emits h1)).imp fun v2 is2 s2 h2 hv2 => ?_
      refine ⟨hv2.below, fun m env hwithin hm hfits => ?_⟩
      refine (hknown (hwithin.of_prefix h2.units) hm hfits).append (fun m1 hq1 hc => ?_)
        fun _ => Nat.le_trans hs1
      refine (hv2.runs m1 env (hwithin.changes hq1.toChanges) hq1.stored
        (hfits.quiet hs.base hq1)).imp fun m2 _ hx => ?_
      rw [hvalue, ← hc, hdecides]
      exact hx
  | slot a =>
    refine (skipping_yields hr (hs.emits h1) hv1.below).imp fun v is2 s2 h2 hv => ?_
    refine ⟨hv.1, fun m env hwithin hm hfits => ?_⟩
    refine (hv1.runs m env (hwithin.of_prefix h2.units) hm hfits).append (fun m1 hq1 hx1 => ?_)
      fun _ => Nat.le_trans hs1
    rw [hvalue]
    exact hv.2 m1 env _ (hwithin.changes hq1.toChanges) hq1.stored (hfits.quiet hs.base hq1) hx1

/-- One of two sides, as a flag tells. -/
theorem choosing_yields {flag : Slot} (hyes : ExprLowered L k yes) (hno : ExprLowered L k no)
    (hs : Ready L s) (hflag : flag.index < s.names.slots) :
    Yields s (do
      let result ← freshSlot
      let unit ← exprUnit k result yes
      invoke (isTrue flag) (.unit unit) none
      let unit ← exprUnit k result no
      invoke (isFalse flag) (.unit unit) none
      return Lowered.slot result) fun v is s' => v.Below s'.names.slots ∧
        ∀ m env b, s'.Within m → m.Stored → L.Fits env m → m.Flagged flag b →
          Run.Does (From s.names.slots) is m
            (v.Holds · (if b then yes.value env else no.value env)) := by
  refine (freshSlot_yields s).bind fun result is1 s1 h1 hslot => ?_
  obtain ⟨rfl, rfl, hs1⟩ := hslot
  refine (exprUnit_yields hyes (hs.emits h1) ⟨s.names.slots⟩).bind fun unit is2 s2 h2 hunit => ?_
  obtain ⟨rfl, hunit⟩ := hunit
  refine (emit_yields _ s2).bind fun _ is3 s3 h3 hcode => ?_
  subst hcode
  have hready := ((hs.emits h1).emits h2).emits h3
  refine (exprUnit_yields hno hready ⟨s.names.slots⟩).bind fun unit' is4 s4 h4 hunit' => ?_
  obtain ⟨rfl, hunit'⟩ := hunit'
  refine (emit_yields _ s4).bind fun _ is5 s5 h5 hcode => ?_
  subst hcode
  have hs2 := h2.slots
  have hs3 := h3.slots
  have hs4 := h4.slots
  have hs5 := h5.slots
  refine .pure ⟨by show s.names.slots < _; omega, fun m env b hwithin hm hfits hb => ?_⟩
  rw [List.append_nil, List.nil_append, List.nil_append, List.nil_append]
  have hwithin4 := hwithin.of_prefix h5.units
  have hwithin3 := hwithin4.of_prefix h4.units
  have hwithin2 := hwithin3.of_prefix h3.units
  have hfrom : ∀ {n} {y : Slot}, s1.names.slots ≤ n → y = ⟨s.names.slots⟩ ∨ From n y →
      From s.names.slots y := by
    rintro n y hn (rfl | hy)
    · exact Nat.le_refl s.names.slots
    · have hy' : n ≤ y.index := hy
      show s.names.slots ≤ y.index
      omega
  cases b with
  | true =>
    -- the first side runs, and leaves the flag as it is
    have hrun := (hunit m env (isTrue flag) hwithin2 hm hfits (Machine.holds_isTrue hb)).imp
      (R := fun m1 => m1.slots.get? (Slot.key ⟨s.names.slots⟩) = some (yes.value env).slot ∧
        m1.Flagged flag true) fun m1 hq1 hresult => ⟨hresult, (hq1.slots flag ?_).trans hb⟩
    · refine (hrun.mono fun _ => hfrom (Nat.le_refl _)).append (fun m1 hq1 hm1 => ?_)
        fun _ h => h
      have hskip : m1.holds (isFalse flag) = false := by rw [Machine.holds_isFalse hm1.2]; rfl
      exact Run.does_noCall hskip hq1.stored hm1.1
    · rintro (h | h)
      · rw [h] at hflag
        exact Nat.lt_irrefl _ hflag
      · have h' : s1.names.slots ≤ flag.index := h
        omega
  | false =>
    have hskip : m.holds (isTrue flag) = false := Machine.holds_isTrue hb
    refine (Run.does_noCall (P := From s.names.slots) (Q := (· = m)) hskip hm rfl).append
      (fun m1 hq1 hm1 => ?_) fun _ h => h
    subst hm1
    have hcall : m1.holds (isFalse flag) = true := by rw [Machine.holds_isFalse hb]; rfl
    exact (hunit' m1 env (isFalse flag) hwithin4 hm hfits hcall).mono fun _ => hfrom (by omega)

theorem lowerConditional_yields {test : Expr} (htest : ExprLowered L k test)
    (hyes : ExprLowered L k yes) (hno : ExprLowered L k no) (hs : Ready L s) (span : Span) :
    Yields s (lowerConditional k test yes no)
      (Computes L s (Expr.value · (.conditional test yes no span))) := by
  have hvalue : ∀ env, Expr.value env (.conditional test yes no span) =
      if (test.value env).truthy then yes.value env else no.value env := fun _ => rfl
  refine Yields.assoc ((test_yields htest hs).bind fun t is1 s1 h1 ht => ?_)
  -- one side only is compiled if the test is known
  have hside : ∀ {b e}, t = .known b → ExprLowered L k e →
      (∀ env, b = (test.value env).truthy →
        Expr.value env (.conditional test yes no span) = e.value env) →
      Yields s1 (k.expr e) fun v is2 s2 =>
        Computes L s (Expr.value · (.conditional test yes no span)) v (is1 ++ is2) s2 := by
    rintro b e rfl he hcond
    refine (he s1 (hs.emits h1)).imp fun v is2 s2 h2 hv => ?_
    refine ⟨hv.below, fun m env hwithin hm hfits => ?_⟩
    refine (ht.2 m env (hwithin.of_prefix h2.units) hm hfits).append (fun m1 hq1 hb => ?_)
      fun _ => Nat.le_trans h1.slots
    rw [hcond env hb]
    exact hv.runs m1 env (hwithin.changes hq1.toChanges) hq1.stored (hfits.quiet hs.base hq1)
  cases t with
  | known b =>
    cases b with
    | true => exact hside rfl hyes fun env hb => by rw [hvalue, ← hb, if_pos rfl]
    | false => exact hside rfl hno fun env hb => by rw [hvalue, ← hb]; rfl
  | flag flag =>
    refine (choosing_yields hyes hno (hs.emits h1) ht.1.2).imp fun v is2 s2 h2 hv => ?_
    refine ⟨hv.1, fun m env hwithin hm hfits => ?_⟩
    refine (ht.2 m env (hwithin.of_prefix h2.units) hm hfits).append (fun m1 hq1 hb => ?_)
      fun _ => Nat.le_trans h1.slots
    exact hv.2 m1 env _ (hwithin.changes hq1.toChanges) hq1.stored (hfits.quiet hs.base hq1) hb

end Compile

/-! ### All pure expressions -/

/-- A pure expression writes no variable. -/
theorem Expr.mayAssign_of_isPure {names : List String} :
    ∀ e : Expr, e.isPure names = true → e.mayAssign = false
  | .literal _ _, _ => rfl
  | .ident _, _ => rfl
  | .unary .not a _, h => mayAssign_of_isPure a h
  | .binary _ l r _, h => by
    simp only [isPure, Bool.and_eq_true] at h
    simp [mayAssign, mayAssign_of_isPure l h.1.2, mayAssign_of_isPure r h.2]
  | .logical _ l r _, h => by
    simp only [isPure, Bool.and_eq_true] at h
    simp [mayAssign, mayAssign_of_isPure l h.1, mayAssign_of_isPure r h.2]
  | .conditional t y n _, h => by
    simp only [isPure, Bool.and_eq_true] at h
    simp [mayAssign, mayAssign_of_isPure t h.1.1, mayAssign_of_isPure y h.1.2,
      mayAssign_of_isPure n h.2]

/-- A pure expression over the variables is compiled to code that computes its value. -/
theorem lowering_expr (L : Layout) (hsize : e.size < n) (he : e.isPure L.names = true) :
    ExprLowered L (lowering n) e := by
  induction n generalizing e with
  | zero => exact absurd hsize (Nat.not_lt_zero _)
  | succ n ih =>
    intro s hs
    show Compile.Yields s (Compile.lowerExpr (lowering n) e) _
    cases e with
    | literal value span =>
      exact .pure ⟨trivial, fun m env _ hm _ => .nil hm rfl⟩
    | ident id =>
      have hid : id.name ∈ L.names := by simpa [Expr.isPure] using he
      exact Compile.lowerIdent_yields hid hs
    | unary op argument span =>
      cases op with
      | not =>
        have hargument : argument.isPure L.names = true := he
        simp only [Expr.size] at hsize
        exact Compile.lowerNot_yields (ih (by omega) hargument) hs span
      | _ => cases he
    | binary op left right span =>
      simp only [Expr.isPure, Bool.and_eq_true] at he
      simp only [Expr.size] at hsize
      exact Compile.lowerBinary_yields he.1.1 (ih (by omega) he.1.2) (ih (by omega) he.2)
        (right.mayAssign_of_isPure he.2) hs span
    | logical op left right span =>
      simp only [Expr.isPure, Bool.and_eq_true] at he
      simp only [Expr.size] at hsize
      exact Compile.lowerLogical_yields (ih (by omega) he.1) (ih (by omega) he.2) hs span
    | conditional test yes no span =>
      simp only [Expr.isPure, Bool.and_eq_true] at he
      simp only [Expr.size] at hsize
      exact Compile.lowerConditional_yields (ih (by omega) he.1.1) (ih (by omega) he.1.2)
        (ih (by omega) he.2) hs span
    | _ => cases he

end PackScript
