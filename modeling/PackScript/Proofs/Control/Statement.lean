import PackScript.Proofs.Control.Part

namespace PackScript

/-!
# Assignments, commands, branches and loops

Single forms of statements are compiled to code that does what they mean, if their parts are.

* `Lowers.andThen` — statements one after the other.
* `Compile.lowerAssign_yields`, `Compile.lowerCommand_yields` — what changes the state.
* `Compile.lowerBranch_lowers` — branches; a flag that was computed once guards both sides.
* `Compile.loopRound_yields`, `Compile.doWhileRound_yields` — rounds of loops.
-/

variable {test : Expr} {guard : Guard} {id : Ident} {is : List Instr} {m m' : Machine} {n : Nat}
  {no : Option Stmt} {flag : Slot} {S : Slot → Prop} {body yes : Stmt} {act : Store.Action}
  {unit : String}

open Machine (From)

/-! ### Actions -/

namespace Store

/-- The action that does nothing. -/
def skip : Action := fun σ => some (.next, σ)

/-- The action of a change of the state. -/
def change (f : Store → Store) : Action := fun σ => some (.next, f σ)

theorem andThen_skip (act : Action) (σ : Store) : andThen act skip σ = act σ := by
  rw [andThen]
  rcases act σ with _ | ⟨_ | _, σ'⟩ <;> rfl

theorem leave_of_stays {act : Action} (h : act.Stays) (σ : Store) : leave act σ = act σ := by
  rw [leave]
  cases hact : act σ with
  | none => rfl
  | some result =>
    obtain ⟨flow, σ'⟩ := result
    rw [h σ flow σ' hact]
    rfl

end Store

/-! ### Code for actions -/

namespace Run

variable {L : Layout} {P : Slot → Prop} {is : List Instr} {m : Machine} {σ : Store}

/-- A variable that got a value. -/
theorem Does.assigns {x : String} {v : Scalar} (hx : x ∈ L.names)
    (h : Does (· = L.slot x) is m fun m' => m'.slots.get? (L.slot x).key = some v.slot)
    (hm : L.Matches σ m) : Follows L (L.Written n) is m (some (.next, σ.assign x v)) := by
  obtain ⟨d, m', hrun, hquiet, hslot⟩ := h
  refine ⟨d, m', hrun, hquiet.toChanges.mono fun s hs => .inl ⟨x, hx, hs⟩,
    ⟨hquiet.stored, fun y hy => ?_, hquiet.commands ▸ hm.commands⟩⟩
  by_cases hyx : y = x
  · rw [hyx, hslot, Store.assign]
    simp
  · -- the other variables have slots of their own
    have hne : L.slot y ≠ L.slot x := fun heq => hyx (L.injective y hy x hx heq)
    rw [hquiet.slots _ hne, hm.fits y hy, Store.assign]
    simp [hyx]

/-- A command that is run. -/
theorem follows_raw (text : String) (hm : L.Matches σ m) :
    Follows L P [.raw text] m (some (.next, σ.run text)) := by
  have hrun : Straight [.raw text] m (m.command text) := .single fun _ _ _ => step_raw text
  have hcommands : (m.command text).commands = m.commands.push text := rfl
  refine ⟨0, m.command text, hrun.reaches, ⟨rfl, ⟨hm.stored.slots, hm.stored.channels⟩,
    fun _ _ => rfl⟩, ⟨⟨hm.stored.slots, hm.stored.channels⟩, hm.fits, ?_⟩⟩
  rw [hcommands, Array.toList_push, hm.commands]
  rfl

/-- A `break`. -/
theorem follows_break (hm : L.Matches σ m) :
    Follows L P [.returnWith Instr.breakCode] m (some (.broke, σ)) :=
  ⟨0, m, reaches_returnWith m _, .refl P hm.stored, hm⟩

end Run

/-! ### Statements one after the other -/

section

variable {L : Layout} {inside : Bool} {c c' : Compile Unit} {act act' : Store.Action}

theorem Lowers.skip : Lowers L inside (pure ()) Store.skip :=
  fun _ _ _ => .pure fun _ _ _ hm => .nil hm

theorem Simulates.append {s s1 s2 : Compiler} {js : List Instr} (h : Simulates L s act is s1)
    (h' : Simulates L s1 act' js s2) (hemits : Emits s is s1) (hunits : s1.units <+: s2.units) :
    Simulates L s (Store.andThen act act') (is ++ js) s2 := by
  intro m σ hwithin hm
  have hwritten : ∀ x, L.Written s1.names.slots x → L.Written s.names.slots x :=
    fun x hx => hx.mono hemits.slots
  refine (h m σ (hwithin.of_prefix hunits) hm).append (fun σ' m' _ hchanges hm' => ?_)
    (fun _ hx => hx) hwritten
  exact h' m' σ' (hwithin.changes hchanges) hm'

theorem Lowers.andThen (h : Lowers L inside c act) (h' : Lowers L inside c' act') :
    Lowers L inside (c >>= fun _ => c') (Store.andThen act act') := by
  intro s hs hinside
  refine (h s hs hinside).bind fun _ is1 s1 h1 hfirst => ?_
  have hinside1 : inside = true → 0 < s1.context.breakables := by
    rw [h1.context]
    exact hinside
  refine (h' s1 (hs.emits h1) hinside1).imp fun _ is2 s2 h2 hsecond => ?_
  exact hfirst.append hsecond h1 h2.units

/-- The same action, said in another way. -/
theorem Lowers.congr (h : Lowers L inside c act) (heq : ∀ σ, act σ = act' σ) :
    Lowers L inside c act' := by
  rw [← funext heq]
  exact h

end

namespace Compile

variable {L : Layout} {s : Compiler} {k : Lowering} {inside : Bool}

/-! ### Assignments and commands -/

theorem lowerAssign_yields {right : Expr} (hid : id.name ∈ L.names) (hright : ExprLowered L k right)
    (hs : Ready L s) (span : Span) :
    Yields s (lowerAssign k .assign (.ident id) right span) fun _ is s' =>
      Simulates L s (fun σ => some (.next, σ.assign id.name (right.value σ.env))) is s' := by
  have htarget : targetReference k (.ident id) s = .ok (.variable_ (L.slot id.name)) s := by
    have hresolve : resolve id.name s = .ok (some ⟨L.slot id.name, .let_⟩) s :=
      congrArg (EStateM.Result.ok · s) (hs.bound _ hid)
    have hcapture : checkLoopCapture (L.slot id.name) id s = .ok () s := by
      refine (bind_of_ok rfl).trans ?_
      rw [hs.loopBindings]
      rfl
    have hslot : assignableSlot id s = .ok (L.slot id.name) s :=
      (bind_of_ok hresolve).trans ((bind_of_ok hcapture).trans rfl)
    exact (bind_of_ok hslot).trans rfl
  refine .read htarget ((hright s hs).bind fun v is1 s1 h1 hv => ?_)
  refine (assign_yields (L.slot id.name) v s1).bind fun _ is2 s2 h2 hassign => ?_
  refine .pure fun m σ hwithin hm => ?_
  rw [List.append_nil]
  refine (hv.runs m σ.env (hwithin.of_prefix h2.units) hm.stored hm.fits).follows
    (fun m1 hquiet hx => ?_) fun _ => .inr
  have hm1 : L.Matches σ m1 := hm.quiet hquiet fun x hx => L.not_isVariable hx hs.base
  exact (hassign m1 _ hm1.stored hx).assigns hid hm1

theorem lowerCommand_yields {text : String} {span' : Span} (hid : id.name = Intrinsic.run.name)
    (htext : k.expr (.literal (.string text) span') = pure (.known (.string text))) (hs : Ready L s)
    (span : Span) :
    Yields s (lowerCall k (.ident id) [.literal (.string text) span'] false span)
      fun _ is s' => Simulates L s (fun σ => some (.next, σ.run text)) is s' := by
  have hintrinsic : intrinsic? id s = .ok (some .run) s := by
    have hresolve : resolve id.name s = .ok none s := by
      rw [hid]
      exact congrArg (EStateM.Result.ok · s) hs.run
    have hname : Intrinsic.ofName? id.name = some .run := by
      rw [hid]
      decide
    refine (bind_of_ok hresolve).trans ?_
    rw [hname]
    rfl
  refine .read hintrinsic ?_
  have hvalues : (List.mapM k.expr [.literal (.string text) span']) s =
      .ok [.known (.string text)] s := by
    rw [List.mapM_cons, htext]
    rfl
  refine .read hvalues ((emit_yields _ s).bind fun _ is s1 _ his => ?_)
  subst his
  exact .pure fun m σ _ hm => Run.follows_raw text hm

/-! ### Branches -/

theorem reads_always (S : Slot → Prop) : Guard.always.Reads S :=
  fun _ ht => absurd ht List.not_mem_nil

theorem reads_isTrue (h : S flag) : (isTrue flag).Reads S := by
  intro t ht
  rw [List.mem_singleton.1 ht]
  exact ⟨flag, ["value"], rfl, h⟩

theorem reads_isFalse (h : S flag) : (isFalse flag).Reads S := by
  intro t ht
  rw [List.mem_singleton.1 ht]
  exact ⟨flag, ["value"], rfl, h⟩

/-- One side of a branch, which is run where the guard holds. -/
theorem lowerSide_yields (hbody : Lowers L inside (unitBody k body) act)
    (hstays : inside = false → act.Stays) (hs : Ready L s)
    (hinside : inside = true → 0 < s.context.breakables)
    (hguard : guard.Reads (·.index < s.names.slots)) :
    Yields s (lowerSide k guard body) fun _ is s' => ∀ m σ, s'.Within m → L.Matches σ m →
      Run.Follows L (L.Written s.names.slots) is m
        (if m.holds guard then act σ else some (.next, σ)) := by
  have hpart : Yields (s.openPart .block true) (unitBody k body) fun _ is s' =>
      Simulates L s act is s' := hbody _ (hs.openPart _ _) hinside
  refine (part_yields hs hguard hpart).imp fun _ is s' _ hcode m σ hwithin hm => ?_
  have hact : (if !false && decide (s.context.breakables > 0) then act σ else Store.leave act σ) =
      act σ := by
    cases inside with
    | true => simp [hinside rfl]
    | false => simp [Store.leave_of_stays (hstays rfl)]
  rw [← hact]
  exact hcode m σ hwithin hm

/-- What a side that may be missing does. -/
def sideAction (act : Stmt → Store.Action) : Option Stmt → Store.Action
  | some body => act body
  | none => Store.skip

theorem lowerSide?_yields {body : Option Stmt} {act : Stmt → Store.Action}
    (hbody : ∀ b ∈ body, Lowers L inside (unitBody k b) (act b))
    (hstays : ∀ b ∈ body, inside = false → (act b).Stays) (hs : Ready L s)
    (hinside : inside = true → 0 < s.context.breakables)
    (hguard : guard.Reads (·.index < s.names.slots)) :
    Yields s (lowerSide? k guard body) fun _ is s' => ∀ m σ, s'.Within m → L.Matches σ m →
      Run.Follows L (L.Written s.names.slots) is m
        (if m.holds guard then sideAction act body σ else some (.next, σ)) := by
  cases body with
  | some body => exact lowerSide_yields (hbody _ rfl) (hstays _ rfl) hs hinside hguard
  | none =>
    refine .pure fun m σ _ hm => ?_
    have hskip : (if m.holds guard then sideAction act none σ else some (.next, σ)) =
        some (.next, σ) := ite_self _
    rw [hskip]
    exact .nil hm

/-- A flag stays as it is while statements run. -/
theorem flagged_changes {b : Bool} (h : m.Flagged flag b) (hchanges : m.Changes (L.Written n) m')
    (hlt : flag.index < n) (hvar : ¬ L.IsVariable flag) : m'.Flagged flag b :=
  (hchanges.slots flag (L.not_written hlt hvar)).trans h

/-- Both sides of a branch on a flag. -/
theorem sides_yields {act : Stmt → Store.Action} (hyes : Lowers L inside (unitBody k yes) (act yes))
    (hno : ∀ b ∈ no, Lowers L inside (unitBody k b) (act b))
    (hstays : inside = false → (act yes).Stays) (hstays' : ∀ b ∈ no, inside = false → (act b).Stays)
    (hs : Ready L s) (hinside : inside = true → 0 < s.context.breakables)
    (hlt : flag.index < s.names.slots) (hvar : ¬ L.IsVariable flag) :
    Yields s (do
      lowerSide k (isTrue flag) yes
      lowerSide? k (isFalse flag) no) fun _ is s' =>
        ∀ m σ b, s'.Within m → L.Matches σ m → m.Flagged flag b →
          Run.Follows L (L.Written s.names.slots) is m
            (if b then act yes σ else sideAction act no σ) := by
  refine (lowerSide_yields hyes hstays hs hinside (reads_isTrue hlt)).bind
    fun _ is1 s1 h1 hfirst => ?_
  have hs1 := h1.slots
  refine (lowerSide?_yields hno hstays' (hs.emits h1) (by rw [h1.context]; exact hinside)
    (reads_isFalse (Nat.lt_of_lt_of_le hlt hs1))).imp fun _ is2 s2 h2 hsecond => ?_
  intro m σ b hwithin hm hflag
  have hrun := hfirst m σ (hwithin.of_prefix h2.units) hm
  rw [Machine.holds_isTrue hflag] at hrun
  have hwritten : ∀ x, L.Written s1.names.slots x → L.Written s.names.slots x :=
    fun x hx => hx.mono hs1
  have hboth : Run.Follows L (L.Written s.names.slots) (is1 ++ is2) m
      (Store.andThen (fun σ => if b then act yes σ else some (.next, σ))
        (fun σ => if !b then sideAction act no σ else some (.next, σ)) σ) := by
    refine Run.Follows.append hrun (fun σ' m' _ hchanges hm' => ?_) (fun _ hx => hx) hwritten
    have hflag' := flagged_changes hflag hchanges hlt hvar
    have hrun' := hsecond m' σ' (hwithin.changes hchanges) hm'
    rw [Machine.holds_isFalse hflag'] at hrun'
    exact hrun'
  cases b with
  | true =>
    have heq := Store.andThen_skip (act yes) σ
    rw [if_pos rfl, ← heq]
    exact hboth
  | false => exact hboth

theorem lowerBranch_lowers {act : Stmt → Store.Action} (htest : ExprLowered L k test)
    (hyes : Lowers L inside (unitBody k yes) (act yes))
    (hno : ∀ b ∈ no, Lowers L inside (unitBody k b) (act b))
    (hstays : inside = false → (act yes).Stays) (hstays' : ∀ b ∈ no, inside = false → (act b).Stays)
    :
    Lowers L inside (lowerBranch k test yes no) fun σ =>
      if (test.value σ.env).truthy then act yes σ else sideAction act no σ := by
  intro s hs hinside
  refine Yields.assoc ((test_yields htest hs).bind fun t is1 s1 h1 ht => ?_)
  obtain ⟨hbetween, htest⟩ := ht
  have hinside1 : inside = true → 0 < s1.context.breakables := by
    rw [h1.context]
    exact hinside
  have hwritten : ∀ x, From s.names.slots x → L.Written s.names.slots x := fun _ => .inr
  -- it is enough to look at what follows the test
  refine Yields.imp (Q := fun _ is2 s2 => ∀ m σ b, s2.Within m → L.Matches σ m → t.Holds m b →
    Run.Follows L (L.Written s1.names.slots) is2 m
      (if b then act yes σ else sideAction act no σ)) ?_ fun _ is2 s2 h2 hcode m σ hwithin hm => ?_
  · cases t with
    | known b =>
      cases b with
      | true =>
        refine (lowerSide_yields hyes hstays (hs.emits h1) hinside1 (reads_always _)).imp ?_
        rintro _ is2 s2 _ hcode m σ b hwithin hm rfl
        exact hcode m σ hwithin hm
      | false =>
        refine (lowerSide?_yields hno hstays' (hs.emits h1) hinside1 (reads_always _)).imp ?_
        rintro _ is2 s2 _ hcode m σ b hwithin hm rfl
        exact hcode m σ hwithin hm
    | flag flag =>
      exact sides_yields hyes hno hstays hstays' (hs.emits h1) hinside1 hbetween.2
        (L.not_isVariable hbetween.1 hs.base)
  · refine (htest m σ.env (hwithin.of_prefix h2.units) hm.stored hm.fits).follows
      (fun m1 hquiet hb => ?_) hwritten
    have hm1 : L.Matches σ m1 := hm.quiet hquiet fun x hx => L.not_isVariable hx hs.base
    exact (hcode m1 σ _ (hwithin.changes hquiet.toChanges) hm1 hb).mono
      fun x hx => hx.mono h1.slots

/-! ### Loops -/

/-- The state of the compiler in the unit of a loop. -/
def loopStart (s : Compiler) : Compiler :=
  { s.openPart .loop true with
    context := ((s.openPart .loop true).context.enter 1 0).enter 0 1 }

theorem ready_loopStart (hs : Ready L s) : Ready L (loopStart s) :=
  ((hs.openPart .loop true).enter 1 0).enter 0 1

/-- The test before a round, and whether the rest of the round can run. -/
theorem loopTest_yields {test : Option Expr} (htest : ∀ e ∈ test, ExprLowered L k e)
    (hs : Ready L s) :
    Yields s (loopTest k test) fun go is s' => ∀ m σ, s'.Within m → L.Matches σ m →
      if testHolds test σ then go = true ∧ Run.Does (From s.names.slots) is m fun _ => True
      else ∃ d m', Run.Reaches is d m (some Instr.normal) m' ∧ m.Quiet (From s.names.slots) m' := by
  cases test with
  | none => exact .pure fun m σ _ hm => ⟨rfl, .nil hm.stored trivial⟩
  | some e =>
    refine Yields.assoc ((test_yields (htest e rfl) hs).bind fun t is1 s1 h1 ht => ?_)
    cases t with
    | known b =>
      cases b with
      | true =>
        refine .pure fun m σ hwithin hm => ?_
        obtain ⟨d, m1, hrun, hquiet, hb⟩ := ht.2 m σ.env hwithin hm.stored hm.fits
        have htrue : testHolds (some e) σ = true := Eq.symm hb
        rw [htrue, List.append_nil]
        exact ⟨rfl, d, m1, hrun, hquiet, trivial⟩
      | false =>
        refine (emit_yields _ s1).bind fun _ is2 s2 h2 his => ?_
        subst his
        refine .pure fun m σ hwithin hm => ?_
        obtain ⟨d, m1, hrun, hquiet, hb⟩ :=
          ht.2 m σ.env (hwithin.of_prefix h2.units) hm.stored hm.fits
        have hfalse : testHolds (some e) σ = false := Eq.symm hb
        rw [hfalse, List.append_nil]
        exact ⟨_, m1, hrun.append (Run.reaches_returnWith m1 _), hquiet⟩
    | flag flag =>
      refine (emit_yields _ s1).bind fun _ is2 s2 h2 his => ?_
      subst his
      refine .pure fun m σ hwithin hm => ?_
      obtain ⟨d, m1, hrun, hquiet, hflag⟩ :=
        ht.2 m σ.env (hwithin.of_prefix h2.units) hm.stored hm.fits
      have hexit : Run.Reaches [.returnIf (isFalse flag) Instr.normal] 0 m1 _ m1 :=
        Run.reaches_returnIf m1 Instr.normal
      rw [Machine.holds_isFalse hflag] at hexit
      rw [List.append_nil]
      cases hvalue : testHolds (some e) σ with
      | true =>
        have htruthy : (e.value σ.env).truthy = true := hvalue
        rw [htruthy] at hexit
        exact ⟨rfl, _, m1, hrun.append hexit, hquiet, trivial⟩
      | false =>
        have htruthy : (e.value σ.env).truthy = false := hvalue
        rw [htruthy] at hexit
        exact ⟨_, m1, hrun.append hexit, hquiet⟩

/-- The end of a round, in the unit of a loop. -/
theorem iterate_yields (hs : Ready L s) (hinside : 0 < s.context.breakables)
    (hguard : guard.Reads (·.index < s.names.slots)) :
    Yields s (iterate guard unit) fun _ is _ => ∀ m σ, L.Matches σ m →
      Run.Turns L (L.Written s.names.slots) is unit m (some (m.holds guard, σ)) := by
  refine (invokeRelaying_yields guard unit false hs).imp ?_
  rintro _ is s' _ rfl m σ hm
  have hcell : From s.names.slots ⟨s.names.slots⟩ := Nat.le_refl _
  have hvar : ¬ L.IsVariable ⟨s.names.slots⟩ := L.not_isVariable hcell hs.base
  have hholds : (m.putSlot ⟨s.names.slots⟩ (.int Instr.normal)).holds guard = m.holds guard := by
    refine Machine.holds_congr hguard fun a ha => ?_
    have hput := Machine.Quiet.putSlot (P := From s.names.slots) hm.stored hcell
      (.int Instr.normal)
    exact hput.slots a (Nat.not_le_of_lt ha)
  have hrelays : (!false && decide (s.context.breakables > 0)) = true := by
    simpa using hinside
  rw [hrelays]
  exact Run.turns_again hm hholds (.inr hcell) hvar

/-- A round that ends the loop at its test. -/
theorem turns_ended {d : Nat} {code : Int32} {σ : Store} (h : Run.Reaches is d m (some code) m')
    (hquiet : m.Quiet (From n) m') (hn : L.base ≤ n) (hm : L.Matches σ m) (js : List Instr)
    (name : String) : Run.Turns L (L.Written n) (is ++ js) name m (some (false, σ)) :=
  ⟨d, _, m', (h.ended js).answers, hquiet.toChanges.mono fun _ => .inr,
    hm.quiet hquiet fun _ hx => L.not_isVariable hx hn⟩

/-- One round of a loop that tests before its body. -/
theorem loopRound_yields {test update : Option Expr} {change : Store → Store}
    (htest : ∀ e ∈ test, ExprLowered L k e) (hbody : Lowers L true (unitBody k body) act)
    (hupdate : Lowers L true (effect k update) (Store.change change)) (hs : Ready L s)
    (hinside : 0 < s.context.breakables) :
    Yields s (loopRound k test body update) fun _ is s' => ∀ m σ, s'.Within m → L.Matches σ m →
      Run.Turns L (L.Written s.names.slots) is s.current.name m
        (Store.testedRound (testHolds test) act change σ) := by
  refine .read rfl ((loopTest_yields htest hs).bind fun go is1 s1 h1 hgo => ?_)
  cases go with
  | false =>
    refine .pure fun m σ hwithin hm => ?_
    have hended := hgo m σ hwithin hm
    rw [Store.testedRound]
    cases hvalue : testHolds test σ with
    | true =>
      rw [hvalue] at hended
      exact absurd hended.1 Bool.false_ne_true
    | false =>
      rw [hvalue] at hended
      obtain ⟨d, m', hrun, hquiet⟩ := hended
      exact turns_ended hrun hquiet hs.base hm [] _
  | true =>
    have hs1 : Ready L s1 := hs.emits h1
    have hinside1 : true = true → 0 < s1.context.breakables := fun _ => h1.context ▸ hinside
    rw [if_pos rfl]
    -- the body and the update are done one after the other
    have hround : Yields s1 (unitBody k body >>= fun _ => effect k update) fun _ is s' =>
        Simulates L s1 (Store.andThen act (Store.change change)) is s' :=
      (hbody.andThen hupdate) s1 hs1 hinside1
    have hbind : (do
        unitBody k body
        effect k update
        iterate .always s.current.name) = ((unitBody k body >>= fun _ => effect k update) >>=
          fun _ => iterate .always s.current.name) := (bind_assoc _ _ _).symm
    rw [hbind]
    refine hround.bind fun _ is2 s2 h2 hround2 => ?_
    have hinside2 : 0 < s2.context.breakables := h2.context ▸ hinside1 rfl
    refine (iterate_yields (hs1.emits h2) hinside2 (reads_always _)).imp
      fun _ is3 s3 h3 hagain => ?_
    intro m σ hwithin hm
    have hwithin2 := hwithin.of_prefix h3.units
    have htest1 := hgo m σ (hwithin2.of_prefix h2.units) hm
    cases hvalue : testHolds test σ with
    | false =>
      rw [hvalue] at htest1
      obtain ⟨d, m1, hrun, hquiet⟩ := htest1
      rw [Store.testedRound, hvalue]
      exact turns_ended hrun hquiet hs.base hm _ _
    | true =>
      rw [hvalue] at htest1
      refine htest1.2.turns (fun m1 hquiet _ => ?_) fun _ => .inr
      have hm1 : L.Matches σ m1 := hm.quiet hquiet fun x hx => L.not_isVariable hx hs.base
      have hwritten : ∀ x, L.Written s1.names.slots x → L.Written s.names.slots x :=
        fun x hx => hx.mono h1.slots
      have hrun := (hround2 m1 σ (hwithin2.changes hquiet.toChanges) hm1).mono hwritten
      have hnext : ∀ σ' m', m1.Changes (L.Written s.names.slots) m' → L.Matches σ' m' →
          Run.Turns L (L.Written s.names.slots) is3 s.current.name m' (some (true, σ')) :=
        fun σ' m' _ hm' => (hagain m' σ' hm').mono fun x hx => hwritten x (hx.mono h2.slots)
      -- what comes of the round is what comes of its body
      convert hrun.turns hnext using 1
      rw [Store.testedRound, hvalue, if_pos rfl, Store.andThen]
      rcases act σ with _ | ⟨_ | _, σ'⟩ <;> rfl

/-- The test after a round, and the call of the next one. -/
theorem roundTest_yields (htest : ExprLowered L k test) (hs : Ready L s)
    (hinside : 0 < s.context.breakables) :
    Yields s (do
      match ← truth (← k.expr test) with
      | .known false => return
      | .known true => iterate .always unit
      | .flag flag => iterate (isTrue flag) unit) fun _ is s' =>
        ∀ m σ, s'.Within m → L.Matches σ m → Run.Turns L (L.Written s.names.slots) is unit m
          (some (testHolds (some test) σ, σ)) := by
  rw [← bind_assoc]
  refine (test_yields htest hs).bind fun t is1 s1 h1 ht => ?_
  have hs1 : Ready L s1 := hs.emits h1
  have hinside1 : 0 < s1.context.breakables := h1.context ▸ hinside
  -- it is enough to look at what follows the test
  suffices hend : Yields s1 (match t with
      | .known false => return
      | .known true => iterate .always unit
      | .flag flag => iterate (isTrue flag) unit) fun _ is2 _ =>
        ∀ m σ b, L.Matches σ m → t.Holds m b →
          Run.Turns L (L.Written s1.names.slots) is2 unit m (some (b, σ)) by
    refine hend.imp fun _ is2 s2 h2 hcode m σ hwithin hm => ?_
    refine (ht.2 m σ.env (hwithin.of_prefix h2.units) hm.stored hm.fits).turns
      (fun m1 hquiet hb => ?_) fun _ => .inr
    have hm1 : L.Matches σ m1 := hm.quiet hquiet fun x hx => L.not_isVariable hx hs.base
    exact (hcode m1 σ _ hm1 hb).mono fun x hx => hx.mono h1.slots
  match t with
  | .known false =>
    refine .pure fun m σ b hm hb => ?_
    obtain rfl : false = b := hb
    exact (Run.Follows.nil hm).ends
  | .known true =>
    refine (iterate_yields hs1 hinside1 (reads_always _)).imp ?_
    rintro _ is2 _ _ hagain m σ b hm rfl
    exact hagain m σ hm
  | .flag flag =>
    refine (iterate_yields hs1 hinside1 (reads_isTrue ht.1.2)).imp ?_
    rintro _ is2 _ _ hagain m σ b hm hflag
    rw [← Machine.holds_isTrue hflag]
    exact hagain m σ hm

/-- One round of a loop that tests after its body. -/
theorem doWhileRound_yields (htest : ExprLowered L k test)
    (hbody : Lowers L true (unitBody k body) act) (hs : Ready L s)
    (hinside : 0 < s.context.breakables) :
    Yields s (doWhileRound k body test) fun _ is s' => ∀ m σ, s'.Within m → L.Matches σ m →
      Run.Turns L (L.Written s.names.slots) is s.current.name m
        (Store.testingRound (testHolds (some test)) act σ) := by
  refine .read rfl ((hbody s hs fun _ => hinside).bind fun _ is1 s1 h1 hbody1 => ?_)
  refine (roundTest_yields htest (hs.emits h1) (h1.context ▸ hinside)).imp
    fun _ is2 s2 h2 hcode m σ hwithin hm => ?_
  have hrun := hbody1 m σ (hwithin.of_prefix h2.units) hm
  have hnext : ∀ σ' m', m.Changes (L.Written s.names.slots) m' → L.Matches σ' m' →
      Run.Turns L (L.Written s.names.slots) is2 s.current.name m'
        (some (testHolds (some test) σ', σ')) := fun σ' m' hchanges hm' =>
    (hcode m' σ' (hwithin.changes hchanges) hm').mono fun x hx => hx.mono h1.slots
  convert hrun.turns hnext using 1
  rw [Store.testingRound]
  rcases act σ with _ | ⟨_ | _, σ'⟩ <;> rfl

/-- A loop, from what its rounds do. -/
theorem runLoop_lowers {round : Compile Unit} {action : Store → Option (Bool × Store)}
    (hround : ∀ s, Ready L s → 0 < s.context.breakables → Yields s round fun _ is s' =>
      ∀ m σ, s'.Within m → L.Matches σ m →
        Run.Turns L (L.Written s.names.slots) is s.current.name m (action σ)) :
    Lowers L inside (runLoop round) (Store.loop action) := by
  intro s hs _
  exact loop_yields hs (hround (loopStart s) (ready_loopStart hs) (Nat.succ_pos _))

end Compile

end PackScript
