import PackScript.Proofs.Control.Expression

namespace PackScript

/-!
# Parts of structured code

A branch, a round of a loop and a case are units that are called, and how they end is told by
their return code. This module says what the calls of such units do.

* `Layout.Matches σ m` — the machine is in the state of the variables and commands.
* `Run.Follows` — the code does what an action of the reference does, or fails if that one does
  not end.
* `Simulates`, `Lowers` — the same of the code that a step of the compiler emits.
* `Compile.part_yields` — a unit that is called where the guard holds.
* `Compile.loop_yields` — a unit that calls itself goes through the rounds of a loop.
-/

variable {u : CodeUnit} {body : Compile Unit} {guard : Guard} {code : Int32} {js : List Instr}
  {m1 : Machine} {Q : Machine → Prop} {d : Nat} {r : Option (Bool × Store)} {cell s : Slot}
  {P' : Slot → Prop} {act : Store.Action} {name : String}

open Machine (From)

/-! ### Code that follows the reference -/

/-- The return code with which a statement ends its unit, if it does. -/
def Flow.exit : Flow → Option Int32
  | .next => none
  | .broke => some Instr.breakCode

namespace Layout

/-- The slot is that of a variable. -/
def IsVariable (L : Layout) (s : Slot) : Prop :=
  ∃ x ∈ L.names, s = L.slot x

/-- The slots that statements may write: those of variables, and those from a number on. -/
def Written (L : Layout) (n : Nat) (s : Slot) : Prop :=
  L.IsVariable s ∨ From n s

/-- The machine is in the state that the variables and commands tell. -/
structure Matches (L : Layout) (σ : Store) (m : Machine) : Prop where
  stored : m.Stored
  fits : L.Fits σ.env m
  commands : m.commands.toList = σ.commands

variable {L : Layout} {σ : Store} {m m' : Machine} {n n' : Nat}

theorem Written.mono (h : L.Written n' s) (hn : n ≤ n') : L.Written n s :=
  h.imp_right (Nat.le_trans hn)

theorem not_written (hlt : s.index < n) (hs : ¬ L.IsVariable s) : ¬ L.Written n s := by
  rintro (h | h)
  · exact hs h
  · exact absurd hlt (Nat.not_lt_of_le h)

/-- Slots that are not variables do not matter. -/
theorem Matches.quiet {P : Slot → Prop} (h : L.Matches σ m) (hquiet : m.Quiet P m')
    (hP : ∀ s, P s → ¬ L.IsVariable s) : L.Matches σ m' where
  stored := hquiet.stored
  fits x hx := (hquiet.slots _ fun hp => hP _ hp ⟨x, hx, rfl⟩).trans (h.fits x hx)
  commands := hquiet.commands ▸ h.commands

/-- A slot behind those of the variables. -/
theorem not_isVariable (hs : From n s) (hn : L.base ≤ n) : ¬ L.IsVariable s := by
  rintro ⟨x, hx, rfl⟩
  have hlow := L.below x hx
  have hhigh : n ≤ (L.slot x).index := hs
  omega

end Layout

namespace Run

/-- The code does what the action did: it goes on or breaks in a state that matches, or it fails
    if the action did not end. Only slots of the set have changed. -/
def Follows (L : Layout) (P : Slot → Prop) (is : List Instr) (m : Machine) :
    Option (Flow × Store) → Prop
  | none => Fails is m
  | some (flow, σ) => ∃ d m', Reaches is d m flow.exit m' ∧ m.Changes P m' ∧ L.Matches σ m'

variable {L : Layout} {P P' : Slot → Prop} {is js : List Instr} {m : Machine} {σ : Store}
  {r : Option (Flow × Store)}

theorem Follows.nil (hm : L.Matches σ m) : Follows L P [] m (some (.next, σ)) :=
  ⟨0, m, (Straight.nil m).reaches, .refl P hm.stored, hm⟩

theorem Follows.mono (h : Follows L P is m r) (hP : ∀ s, P s → P' s) : Follows L P' is m r := by
  cases r with
  | none => exact h
  | some result =>
    obtain ⟨d, m', hrun, hchanges, hm'⟩ := h
    exact ⟨d, m', hrun, hchanges.mono hP, hm'⟩

/-- Code for one action, then code for the next one. -/
theorem Follows.append {P1 P2 : Slot → Prop} {first second : Store.Action}
    (h : Follows L P1 is m (first σ))
    (h' : ∀ σ' m', first σ = some (.next, σ') → m.Changes P1 m' → L.Matches σ' m' →
      Follows L P2 js m' (second σ'))
    (hP1 : ∀ s, P1 s → P s) (hP2 : ∀ s, P2 s → P s) :
    Follows L P (is ++ js) m (Store.andThen first second σ) := by
  rw [Store.andThen]
  cases hfirst : first σ with
  | none =>
    rw [hfirst] at h
    exact Fails.append h js
  | some result =>
    obtain ⟨flow, σ'⟩ := result
    rw [hfirst] at h
    obtain ⟨d, m1, hrun, hchanges, hm1⟩ := h
    cases flow with
    | broke => exact ⟨d, m1, hrun.ended js, hchanges.mono hP1, hm1⟩
    | next =>
      have hrest := h' σ' m1 hfirst hchanges hm1
      show Follows L P (is ++ js) m (second σ')
      cases hsecond : second σ' with
      | none =>
        rw [hsecond] at hrest
        exact hrun.fails hrest
      | some result =>
        rw [hsecond] at hrest
        obtain ⟨d', m2, hrun', hchanges', hm2⟩ := hrest
        exact ⟨max d d', m2, hrun.append hrun', (hchanges.mono hP1).trans (hchanges'.mono hP2),
          hm2⟩

/-- Code without effect on the state, then code for an action. -/
theorem Does.follows (h : Does P' is m Q) (h' : ∀ m', m.Quiet P' m' → Q m' → Follows L P js m' r)
    (hP : ∀ s, P' s → P s) : Follows L P (is ++ js) m r := by
  obtain ⟨d, m1, hrun, hquiet, hQ⟩ := h
  have hrest := h' m1 hquiet hQ
  cases r with
  | none => exact hrun.fails hrest
  | some result =>
    obtain ⟨d', m2, hrun', hchanges, hm2⟩ := hrest
    exact ⟨max d d', m2, hrun.append hrun', (hquiet.toChanges.mono hP).trans hchanges, hm2⟩

end Run

/-- The code does what the action does, in all states. -/
def Simulates (L : Layout) (s : Compiler) (act : Store.Action) (is : List Instr)
    (s' : Compiler) : Prop :=
  ∀ m σ, s'.Within m → L.Matches σ m → Run.Follows L (L.Written s.names.slots) is m (act σ)

/-- The step emits code that does what the action does. The flag tells that there is something to
    break out of. -/
def Lowers (L : Layout) (inside : Bool) (c : Compile Unit) (act : Store.Action) : Prop :=
  ∀ s, Ready L s → (inside = true → 0 < s.context.breakables) →
    Compile.Yields s c fun _ is s' => Simulates L s act is s'

/-- The action never breaks. -/
def Store.Action.Stays (act : Store.Action) : Prop :=
  ∀ σ flow σ', act σ = some (flow, σ') → flow = .next

/-! ### Calls of parts -/

namespace Run

variable {L : Layout} {P : Slot → Prop} {is : List Instr} {m : Machine} {σ : Store}

/-- The instructions that call a part of the present unit and pass a `break` on. -/
def relayCode (cell : Slot) (guard : Guard) (name : String) (relays : Bool) : List Instr :=
  [.set .always (.slot cell) (.literal (.int Instr.normal)),
    .invoke guard (.unit name) none (some (.slot cell))] ++
    if relays then [.returnIf (.when (.slot cell) (.int Instr.breakCode)) Instr.breakCode] else []

/-- A slot that holds a return code is compared with one. -/
theorem holds_code {code' : Int32} (h : m.slots.get? cell.key = some (.int code)) :
    m.holds (.when (.slot cell) (.int code')) = (code == code') := by
  have hread : m.read (.slot cell) = some (.int code) := (Nbt.getPath_single _ _).trans h
  simp [Machine.holds, Guard.when, Machine.meets, hread, Nbt.fits, Nbt.same]

/-- The end of a call of a part: the code is in its cell, and a `break` may be passed on. -/
theorem reaches_relay (relays : Bool) (h : m.slots.get? cell.key = some (.int code)) :
    Reaches (if relays then
        [.returnIf (.when (.slot cell) (.int Instr.breakCode)) Instr.breakCode] else [])
      0 m (if relays ∧ code = Instr.breakCode then some Instr.breakCode else none) m := by
  cases relays with
  | false => simpa using (Straight.nil m).reaches
  | true =>
    have hrun : Reaches [.returnIf (.when (.slot cell) (.int Instr.breakCode)) Instr.breakCode] 0 m
        (if m.holds (.when (.slot cell) (.int Instr.breakCode)) then some Instr.breakCode
          else none) m := reaches_returnIf m Instr.breakCode
    rw [holds_code h] at hrun
    simpa using hrun

/-- The cell of a call starts with the code of a normal end. -/
theorem straight_cell (hm : m.Stored) :
    Straight [.set .always (.slot cell) (.literal (.int Instr.normal))] m
      (m.putSlot cell (.int Instr.normal)) :=
  straight_set_slot hm rfl fun _ => rfl

/-- The code of a call of a part that answers. -/
theorem reaches_part (relays : Bool) (hm : m.Stored)
    (hguard : (m.putSlot cell (.int Instr.normal)).holds guard = true)
    (hu : m.program.units.find? name = some u)
    (hanswers : Answers u.instrs d (m.putSlot cell (.int Instr.normal)).inside code m1)
    (hm1 : m1.Stored) :
    Reaches (relayCode cell guard name relays) (d + 1) m
      (if relays ∧ code = Instr.breakCode then some Instr.breakCode else none)
      (m1.outside.putSlot cell (.int code)) := by
  have hstore : ∀ k, storeCode (some (.slot cell)) code (m1.outside.cap k) =
      .ok () ((m1.outside.putSlot cell (.int code)).cap k) := fun k =>
    write_slot (m := m1.outside.cap k) ⟨hm1.slots, hm1.channels⟩ _ _
  have hcall := (straight_cell hm).reaches.append (reaches_call hguard hu hanswers hstore)
  have hrun := hcall.append (reaches_relay relays (Machine.get?_putSlot_self m1.outside cell _))
  have hdepth : max (max 0 (d + 1)) 0 = d + 1 := by omega
  rw [hdepth] at hrun
  exact hrun

/-- The code of a call of a part that fails. -/
theorem fails_part (relays : Bool) (hm : m.Stored)
    (hguard : (m.putSlot cell (.int Instr.normal)).holds guard = true)
    (hu : m.program.units.find? name = some u)
    (hfails : Fails u.instrs (m.putSlot cell (.int Instr.normal)).inside) :
    Fails (relayCode cell guard name relays) m := by
  have hcall : Fails [.invoke guard (.unit name) none (some (.slot cell))]
      (m.putSlot cell (.int Instr.normal)) := fails_call hguard hu hfails
  exact ((straight_cell hm).reaches.fails hcall).append _

/-- The code of a call of a part whose guard does not hold. -/
theorem straight_noPart (relays : Bool) (hm : m.Stored)
    (hguard : (m.putSlot cell (.int Instr.normal)).holds guard = false) :
    Reaches (relayCode cell guard name relays) 0 m none (m.putSlot cell (.int Instr.normal)) := by
  have hskip : Straight [.invoke guard (.unit name) none (some (.slot cell))]
      (m.putSlot cell (.int Instr.normal)) (m.putSlot cell (.int Instr.normal)) :=
    straight_noCall hguard
  have hrelay := reaches_relay relays (Machine.get?_putSlot_self m cell (.int Instr.normal))
  have hnormal : ¬ (relays = true ∧ Instr.normal = Instr.breakCode) := by
    rintro ⟨_, h⟩
    exact absurd h (by decide)
  rw [if_neg hnormal] at hrelay
  exact ((straight_cell hm).append hskip).reaches.append hrelay

/-- The code of a whole unit goes to the state, and answers some code; or it fails. -/
def Ends (L : Layout) (P : Slot → Prop) (is : List Instr) (m : Machine) : Option Store → Prop
  | none => Fails is m
  | some σ => ∃ d code m', Answers is d m code m' ∧ m.Changes P m' ∧ L.Matches σ m'

theorem Follows.ends {r : Option (Flow × Store)} (h : Follows L P is m r) :
    Ends L P is m (r.map (·.2)) := by
  cases r with
  | none => exact h
  | some result =>
    obtain ⟨d, m', hrun, hchanges, hm'⟩ := h
    exact ⟨d, _, m', hrun.answers, hchanges, hm'⟩

section

variable {cell : Slot} {guard : Guard} {name : String} {u : CodeUnit}

/-- The state in which a part starts. -/
theorem matches_part (hm : L.Matches σ m) (hcell : ¬ L.IsVariable cell) (v : Nbt) :
    L.Matches σ (m.putSlot cell v).inside := by
  have hput : m.Quiet (· = cell) (m.putSlot cell v) :=
    Machine.Quiet.putSlot (P := (· = cell)) hm.stored rfl v
  refine hm.quiet (hput.trans (.inside hput.stored)) fun s hs => ?_
  rwa [hs]

/-- The state behind a part. -/
theorem matches_behind (hm1 : L.Matches σ m1) (hcell : ¬ L.IsVariable cell) (v : Nbt) :
    L.Matches σ (m1.outside.putSlot cell v) := by
  have hout : m1.Quiet (· = cell) m1.outside := .outside hm1.stored
  have hput : m1.outside.Quiet (· = cell) (m1.outside.putSlot cell v) :=
    Machine.Quiet.putSlot (P := (· = cell)) hout.stored rfl v
  refine hm1.quiet (hout.trans hput) fun s hs => ?_
  rwa [hs]

/-- What a part changes, and its cell. -/
theorem changes_part {v v' : Nbt} (hm : m.Stored) (h : (m.putSlot cell v).inside.Changes P m1)
    (hcell : P cell) : m.Changes P (m1.outside.putSlot cell v') := by
  have hput : m.Changes P (m.putSlot cell v) := (Machine.Quiet.putSlot hm hcell v).toChanges
  have hin : (m.putSlot cell v).Changes P (m.putSlot cell v).inside :=
    (Machine.Quiet.inside hput.stored).toChanges
  have hout : m1.Changes P m1.outside := (Machine.Quiet.outside h.stored).toChanges
  exact (((hput.trans hin).trans h).trans hout).trans
    (Machine.Quiet.putSlot hout.stored hcell v').toChanges

/-- A call that passes a `break` on does what the part does. -/
theorem Follows.relayed {r : Option (Flow × Store)} (hm : m.Stored)
    (hguard : (m.putSlot cell (.int Instr.normal)).holds guard = true)
    (hu : m.program.units.find? name = some u) (hcell : P cell) (hvar : ¬ L.IsVariable cell)
    (h : Follows L P u.instrs (m.putSlot cell (.int Instr.normal)).inside r) :
    Follows L P (relayCode cell guard name true) m r := by
  cases r with
  | none => exact fails_part true hm hguard hu h
  | some result =>
    obtain ⟨flow, σ⟩ := result
    obtain ⟨d, m1, hrun, hchanges, hm1⟩ := h
    have hcall := reaches_part true hm hguard hu hrun.answers hm1.stored
    have hexit : (if true = true ∧ flow.exit.getD Instr.normal = Instr.breakCode then
        some Instr.breakCode else none) = flow.exit := by
      cases flow <;> decide
    rw [hexit] at hcall
    exact ⟨d + 1, _, hcall, changes_part hm hchanges hcell, matches_behind hm1 hvar _⟩

/-- A call that keeps a `break` goes on behind the part. -/
theorem Ends.consumed {r : Option Store} (hm : m.Stored)
    (hguard : (m.putSlot cell (.int Instr.normal)).holds guard = true)
    (hu : m.program.units.find? name = some u) (hcell : P cell) (hvar : ¬ L.IsVariable cell)
    (h : Ends L P u.instrs (m.putSlot cell (.int Instr.normal)).inside r) :
    Follows L P (relayCode cell guard name false) m (r.map (Flow.next, ·)) := by
  cases r with
  | none => exact fails_part false hm hguard hu h
  | some σ =>
    obtain ⟨d, code, m1, hrun, hchanges, hm1⟩ := h
    have hcall := reaches_part false hm hguard hu hrun hm1.stored
    rw [if_neg fun h => Bool.noConfusion h.1] at hcall
    exact ⟨d + 1, _, hcall, changes_part hm hchanges hcell, matches_behind hm1 hvar _⟩

/-- A call whose guard does not hold. -/
theorem follows_skip (relays : Bool) (hm : L.Matches σ m)
    (hguard : (m.putSlot cell (.int Instr.normal)).holds guard = false)
    (hcell : P cell) (hvar : ¬ L.IsVariable cell) :
    Follows L P (relayCode cell guard name relays) m (some (.next, σ)) := by
  have hput : m.Quiet (· = cell) (m.putSlot cell (.int Instr.normal)) :=
    Machine.Quiet.putSlot (P := (· = cell)) hm.stored rfl _
  refine ⟨0, _, straight_noPart relays hm.stored hguard, hput.toChanges.mono fun s hs => ?_,
    hm.quiet hput fun s hs => ?_⟩
  · rwa [hs]
  · rwa [hs]

end

/-! ### Loops -/

section

variable {name : String} {u : CodeUnit} {round : Store → Option (Bool × Store)}

/-- The code of a unit that calls itself at its end, for a round of a loop: the call is reached
    exactly when another round follows. -/
def Turns (L : Layout) (P : Slot → Prop) (is : List Instr) (name : String) (m : Machine) :
    Option (Bool × Store) → Prop
  | none => Fails is m
  | some (false, σ) => Ends L P is m (some σ)
  | some (true, σ) => ∃ before cell guard d m', is = before ++ relayCode cell guard name true ∧
      Reaches before d m none m' ∧ m.Changes P m' ∧ L.Matches σ m' ∧
      (m'.putSlot cell (.int Instr.normal)).holds guard = true ∧ P cell ∧ ¬ L.IsVariable cell

theorem Turns.mono (h : Turns L P is name m r) (hP : ∀ s, P s → P' s) : Turns L P' is name m r := by
  match r with
  | none => exact h
  | some (false, σ) =>
    obtain ⟨d, code, m', hrun, hchanges, hm'⟩ := h
    exact ⟨d, code, m', hrun, hchanges.mono hP, hm'⟩
  | some (true, σ) =>
    obtain ⟨before, cell, guard, d, m', his, hrun, hchanges, hm', hguard, hcell, hvar⟩ := h
    exact ⟨before, cell, guard, d, m', his, hrun, hchanges.mono hP, hm', hguard, hP _ hcell, hvar⟩

theorem Reaches.turns {m' : Machine} (h : Reaches is d m none m') (hchanges : m.Changes P m')
    (hturns : Turns L P js name m' r) : Turns L P (is ++ js) name m r := by
  match r with
  | none => exact h.fails hturns
  | some (false, σ) =>
    obtain ⟨d', code, m1, hrun, hchanges', hm1⟩ := hturns
    exact ⟨_, code, m1, h.thenAnswers hrun, hchanges.trans hchanges', hm1⟩
  | some (true, σ) =>
    obtain ⟨before, cell, guard, d', m1, rfl, hrun, hchanges', hrest⟩ := hturns
    exact ⟨is ++ before, cell, guard, _, m1, (List.append_assoc _ _ _).symm, h.append hrun,
      hchanges.trans hchanges', hrest⟩

/-- Code without effect on the state before the rest of a round. -/
theorem Does.turns (h : Does P' is m Q) (h' : ∀ m', m.Quiet P' m' → Q m' → Turns L P js name m' r)
    (hP : ∀ s, P' s → P s) : Turns L P (is ++ js) name m r := by
  obtain ⟨d, m', hrun, hquiet, hQ⟩ := h
  exact hrun.turns (hquiet.toChanges.mono hP) (h' m' hquiet hQ)

/-- The body of a round before the rest of it, which is left out after a `break`. -/
theorem Follows.turns {next : Store → Option (Bool × Store)} (h : Follows L P is m (act σ))
    (h' : ∀ σ' m', m.Changes P m' → L.Matches σ' m' → Turns L P js name m' (next σ')) :
    Turns L P (is ++ js) name m (match act σ with
      | none => none
      | some (.next, σ') => next σ'
      | some (.broke, σ') => some (false, σ')) := by
  match hact : act σ with
  | none =>
    rw [hact] at h
    exact Fails.append h js
  | some (.next, σ') =>
    rw [hact] at h
    obtain ⟨d, m', hrun, hchanges, hm'⟩ := h
    exact hrun.turns hchanges (h' σ' m' hchanges hm')
  | some (.broke, σ') =>
    rw [hact] at h
    obtain ⟨d, m', hrun, hchanges, hm'⟩ := h
    exact ⟨d, _, m', (hrun.ended js).answers, hchanges, hm'⟩

/-- The end of a round: the unit calls itself if the guard holds. -/
theorem turns_again {again : Bool} (hm : L.Matches σ m)
    (hguard : (m.putSlot cell (.int Instr.normal)).holds guard = again) (hcell : P cell)
    (hvar : ¬ L.IsVariable cell) :
    Turns L P (relayCode cell guard name true) name m (some (again, σ)) := by
  cases again with
  | true =>
    exact ⟨[], cell, guard, 0, m, rfl, (Straight.nil m).reaches, .refl P hm.stored, hm, hguard,
      hcell, hvar⟩
  | false => exact (follows_skip true hm hguard hcell hvar).ends

variable (hturns : ∀ m1 σ1, m1.program = m.program → L.Matches σ1 m1 →
    Turns L P u.instrs name m1 (round σ1))
  (hu : m.program.units.find? name = some u) (hm : L.Matches σ m)

include hturns hu hm

/-- A loop that ends: its unit goes through the rounds. -/
theorem ends_rounds {σ' : Store} (hrounds : Store.Rounds round σ σ') :
    Ends L P u.instrs m (some σ') := by
  -- by induction on the rounds that the loop goes through
  suffices hmain : ∀ m1, m1.program = m.program → L.Matches σ m1 →
      Ends L P u.instrs m1 (some σ') from hmain m rfl hm
  clear hm
  induction hrounds with
  | last hround =>
    intro m1 hprogram hm1
    have hturn := hturns m1 _ hprogram hm1
    rw [hround] at hturn
    exact hturn
  | @again σ σ2 σ' hround hrest ih =>
    intro m1 hprogram hm1
    have hu1 : m1.program.units.find? name = some u := hprogram ▸ hu
    have hturn := hturns m1 σ hprogram hm1
    rw [hround] at hturn
    obtain ⟨before, cell, guard, d, m2, his, hrun, hchanges, hm2, hguard, hcell, hvar⟩ := hturn
    have hinside : L.Matches σ2 (m2.putSlot cell (.int Instr.normal)).inside :=
      matches_part hm2 hvar _
    obtain ⟨d', code, m3, hrun', hchanges', hm3⟩ :=
      ih (m2.putSlot cell (.int Instr.normal)).inside
        (hchanges.program.trans hprogram) hinside
    have hcall := reaches_part true hm2.stored hguard (hchanges.program ▸ hu1) hrun' hm3.stored
    have hanswers := (hrun.append hcall).answers
    rw [← his] at hanswers
    exact ⟨_, _, _, hanswers, hchanges.trans (changes_part hm2.stored hchanges' hcell),
      matches_behind hm3 hvar _⟩

/-- A loop that does not end: its unit fails however deep calls may be. -/
theorem fails_rounds (hrounds : ∀ σ', ¬ Store.Rounds round σ σ') : Fails u.instrs m := by
  -- each round calls the unit again, so the depth runs out
  intro k levels
  suffices hmain : ∀ m1 σ, m1.program = m.program → L.Matches σ m1 →
      (∀ σ', ¬ Store.Rounds round σ σ') → ∀ channel rest, ∃ e m',
        steps (execute levels) channel (u.instrs ++ rest) (m1.cap k) = .error e m' from
    hmain m σ rfl hm hrounds
  induction levels using Nat.strongRecOn with
  | ind levels ih =>
    intro m1 σ hprogram hm1 hrounds channel rest
    have hu1 : m1.program.units.find? name = some u := hprogram ▸ hu
    have hturn := hturns m1 σ hprogram hm1
    rcases hresult : round σ with _ | ⟨_ | _, σ2⟩
    · rw [hresult] at hturn
      exact hturn k levels channel rest
    · exact absurd (.last hresult) (hrounds σ2)
    · rw [hresult] at hturn
      obtain ⟨before, cell, guard, d, m2, his, hrun, hchanges, hm2, hguard, hcell, hvar⟩ := hturn
      rw [his, List.append_assoc]
      by_cases hlevels : levels < d
      · exact hrun.shallow k levels hlevels channel _
      · rw [hrun.deep k levels (Nat.le_of_not_lt hlevels)]
        show ∃ e m', steps (execute levels) channel
          ([.set .always (.slot cell) (.literal (.int Instr.normal))] ++
            ([.invoke guard (.unit name) none (some (.slot cell))] ++
              .returnIf (.when (.slot cell) (.int Instr.breakCode)) Instr.breakCode :: rest))
                (m2.cap k) =
          .error e m'
        rw [straight_cell hm2.stored]
        have hu2 : (m2.putSlot cell (.int Instr.normal)).program.units.find? name = some u :=
          hchanges.program ▸ hu1
        refine steps_call_error hguard (execute_error hu2 k none fun l hl => ?_)
        have hfails := ih l hl (m2.putSlot cell (.int Instr.normal)).inside σ2
          (hchanges.program.trans hprogram) (matches_part hm2 hvar _)
          (fun σ' hrest => hrounds σ' (.again hresult hrest)) none []
        rwa [List.append_nil] at hfails

/-- The unit of a loop goes through its rounds. -/
theorem ends_loop : Ends L P u.instrs m (Store.rounds round σ) := by
  cases hrounds : Store.rounds round σ with
  | none =>
    refine fails_rounds hturns hu hm fun σ' h => ?_
    rw [Store.rounds_eq_some_iff.2 h] at hrounds
    cases hrounds
  | some σ' => exact ends_rounds hturns hu hm (Store.rounds_eq_some_iff.1 hrounds)

end

end Run

/-! ### Parts as they are compiled -/

namespace Compile

variable {L : Layout} {s : Compiler}

/-- A call of a part, outside of all functions. -/
theorem invokeRelaying_yields (guard : Guard) (name : String) (consumes : Bool)
    (hs : Ready L s) :
    Yields s (invokeRelaying guard (.unit name) none consumes) fun _ is _ =>
      is = Run.relayCode ⟨s.names.slots⟩ guard name
        (!consumes && decide (s.context.breakables > 0)) := by
  refine (freshSlot_yields s).bind fun cell is1 s1 h1 hcell => ?_
  obtain ⟨rfl, rfl, _⟩ := hcell
  refine (emit_yields _ s1).bind fun _ is2 s2 h2 his2 => ?_
  refine (emit_yields _ s2).bind fun _ is3 s3 h3 his3 => ?_
  subst his2 his3
  have hcontext : s3.context = s.context := h3.context.trans (h2.context.trans h1.context)
  refine .read rfl ?_
  simp only [hcontext, hs.script, ne_eq, not_true_eq_false, if_false]
  cases hrelays : !consumes && decide (s.context.breakables > 0) with
  | false => exact .pure rfl
  | true =>
    refine (emit_yields _ s3).bind fun _ is4 s4 _ his4 => ?_
    subst his4
    exact .pure rfl

/-- A part that is called where the guard holds. -/
theorem part_yields {kind : UnitKind} {consumes : Bool} (hs : Ready L s)
    (hguard : guard.Reads (·.index < s.names.slots))
    (hbody : Yields (s.openPart kind true) body fun _ is s' => Simulates L s act is s') :
    Yields s (do
      let unit ← inChild kind true body
      invokeRelaying guard (.unit unit) none consumes) fun _ is s' =>
        ∀ m σ, s'.Within m → L.Matches σ m → Run.Follows L (L.Written s.names.slots) is m
          (if m.holds guard then
            if !consumes && decide (s.context.breakables > 0) then act σ else Store.leave act σ
          else some (.next, σ)) := by
  refine (inChild_yields hs hbody).bind fun name is1 s1 h1 hunit => ?_
  obtain ⟨rfl, rfl, u, s2, hu, hcode, hunits, hnames⟩ := hunit
  refine (invokeRelaying_yields guard _ consumes (hs.emits h1)).imp ?_
  rintro _ is2 s3 h2 rfl m σ hwithin hm
  rw [h1.context, List.nil_append]
  -- the cell of the call is new
  have hwithin1 := hwithin.of_prefix h2.units
  have hcell : From s.names.slots ⟨s1.names.slots⟩ := h1.slots
  have hvar : ¬ L.IsVariable ⟨s1.names.slots⟩ := L.not_isVariable hcell hs.base
  have hholds : (m.putSlot ⟨s1.names.slots⟩ (.int Instr.normal)).holds guard = m.holds guard := by
    refine Machine.holds_congr hguard fun a ha => ?_
    have hput := Machine.Quiet.putSlot (P := From s.names.slots) hm.stored hcell
      (.int Instr.normal)
    exact hput.slots a (Nat.not_le_of_lt ha)
  cases hg : m.holds guard with
  | false => exact Run.follows_skip _ hm (hholds.trans hg) (.inr hcell) hvar
  | true =>
    have hin : L.Matches σ (m.putSlot ⟨s1.names.slots⟩ (.int Instr.normal)).inside :=
      Run.matches_part hm hvar _
    have hruns := hcode (m.putSlot ⟨s1.names.slots⟩ (.int Instr.normal)).inside σ
      (hwithin1.of_prefix hunits) hin
    have hfind := hwithin1 _ u hu
    have hwritten : L.Written s.names.slots ⟨s1.names.slots⟩ := .inr hcell
    rw [if_pos rfl]
    cases hrelays : !consumes && decide (s.context.breakables > 0) with
    | true =>
      rw [if_pos rfl]
      exact hruns.relayed hm.stored (hholds.trans hg) hfind hwritten hvar
    | false =>
      have hends := hruns.ends.consumed hm.stored (hholds.trans hg) hfind hwritten hvar
      rw [Option.map_map] at hends
      exact hends

/-- A unit that calls itself goes through the rounds of a loop. -/
theorem loop_yields {round : Store → Option (Bool × Store)} (hs : Ready L s)
    (hbody : Yields { s.openPart .loop true with
        context := ((s.openPart .loop true).context.enter 1 0).enter 0 1 } body fun _ is s' =>
      ∀ m σ, s'.Within m → L.Matches σ m →
        Run.Turns L (L.Written s.names.slots) is (generatedUnit s.names.units) m (round σ)) :
    Yields s (runLoop body) fun _ is s' => Simulates L s (Store.loop round) is s' := by
  have hunit : Yields (s.openPart .loop true) (inBreakable (inLoop body)) fun _ is s' =>
      ∀ m σ, s'.Within m → L.Matches σ m →
        Run.Turns L (L.Written s.names.slots) is (generatedUnit s.names.units) m (round σ) :=
    enter_yields 1 0 (enter_yields 0 1 hbody fun _ _ _ h => h) fun _ _ _ h => h
  refine (inChild_yields hs hunit).bind fun name is1 s1 h1 hunit => ?_
  obtain ⟨rfl, rfl, u, s2, hu, hcode, hunits, hnames⟩ := hunit
  refine (invokeRelaying_yields .always _ true (hs.emits h1)).imp ?_
  rintro _ is2 s3 h2 rfl m σ hwithin hm
  have hwithin1 := hwithin.of_prefix h2.units
  have hcell : From s.names.slots ⟨s1.names.slots⟩ := h1.slots
  have hvar : ¬ L.IsVariable ⟨s1.names.slots⟩ := L.not_isVariable hcell hs.base
  have hin : L.Matches σ (m.putSlot ⟨s1.names.slots⟩ (.int Instr.normal)).inside :=
    Run.matches_part hm hvar _
  have hturns : ∀ m1 σ1, m1.program =
      (m.putSlot ⟨s1.names.slots⟩ (.int Instr.normal)).inside.program → L.Matches σ1 m1 →
      Run.Turns L (L.Written s.names.slots) u.instrs (generatedUnit s.names.units) m1
        (round σ1) := by
    intro m1 σ1 hprogram hm1
    refine hcode m1 σ1 (fun name v hv => ?_) hm1
    rw [hprogram]
    exact hwithin1.of_prefix hunits name v hv
  have hfind := hwithin1 _ u hu
  have hends := Run.ends_loop hturns hfind hin
  exact hends.consumed hm.stored rfl hfind (.inr hcell) hvar

end Compile

end PackScript
