import PackScript.Proofs.Uses.Run

namespace PackScript

/-!
# Machines that are reached

* `Uses.Enters` — how units of a program that keeps to the uses enter others by their names.
* `Guards` — what a check and the frames it sees have to do with the limits.
* `Run.executors_checked` — what the code of a unit may enter.
* `Run.checked_keeps` — every unit keeps a machine to the limits, by induction on how deep calls may
  be.
* `HostStep.runBy_keeps` — so does every step from outside.
* `Machine.Onward.proceeds` — so does every machine that comes after one that keeps to the limits.
* `Machine.Reached.tidy` — every machine that is reached keeps to the uses.
-/

variable {L : Limits} {frames : List Frame} {m : Machine} {levels : Nat} {channel : Option String}
  {name : String} {α : Type}

/-! ### Frames -/

/-- A unit enters another one by its name: a part of the same function, or a function that may be
    called there. -/
def Uses.Enters (G : Uses) (unit name : String) : Prop :=
  ∃ owner, G.Owned unit owner ∧
    ((∃ u, G.unit name = some u ∧ u.isPart = true ∧ u.owner = some owner ∧
        ∃ v, G.unit unit = some v ∧ v.role.HasPart u.role) ∨
      (G.IsCalled name ∧ G.MayCall owner name))

/-- The limits hold in runs with the check. Some property of the frames is kept when units are
    entered, errors of the check are not those that do not come up, and the check ends a run before
    every instruction that does not keep to the limits. -/
structure Guards (L : Limits) (check : Check) (Valid : List Frame → Prop) : Prop where
  called : ∀ frames name, Valid frames → L.uses.IsCalled name → Valid (⟨name, false⟩ :: frames)
  entered : ∀ f frames name, Valid (f :: frames) → L.uses.Enters f.unit name →
    Valid (⟨name, true⟩ :: f :: frames)
  quiet : ∀ frames is m e, Valid frames → check frames is m = some e → L.Quiet e
  permits : ∀ name u, L.program.units.find? name = some u → ∀ i ∈ u.instrs, ∀ f frames,
    f.unit = name → L.Permits (check (f :: frames)) i

/-- A further check makes no difference, if no error is ruled out. -/
theorem Guards.or {limit : Check} {Valid : List Frame → Prop} (h : Guards L limit Valid)
    (hlenient : L.Lenient) (check : Check) :
    Guards L (limit.or check) Valid where
  called := h.called
  entered := h.entered
  quiet _ _ _ e _ _ := hlenient.quiet e
  permits name u hu i hi f frames hf := by
    refine (h.permits name u hu i hi f frames hf).imp_right fun hends rest m hnone => ?_
    exact hends rest m (Option.or_eq_none_iff.1 hnone).1

/-- The uses alone hold in all runs. -/
theorem guards_never (hspared : L.spared = none) (hvariables : ∀ s v, L.variables_ s v) :
    Guards L .never fun _ => True where
  called _ _ _ _ := trivial
  entered _ _ _ _ _ := trivial
  quiet _ _ _ _ _ := nofun
  permits _ _ _ _ _ _ _ _ :=
    .inl ⟨fun _ ha => (nomatch hspared.symm.trans ha), fun _ s _ _ => .inl (hvariables s)⟩

/-! ### Units -/

/-- The unit may be entered: the return address that it relies on does not lead to the slot that is
    not to be written. -/
def Limits.Ready (L : Limits) (m : Machine) (name : String) : Prop :=
  ∃ u, L.uses.unit name = some u ∧ ∀ d, u.home = some d → L.Away m d

/-- A function has no return address of the code around it. -/
theorem Uses.IsCalled.ready (h : L.uses.IsCalled name) : L.Ready m name := by
  obtain ⟨u, hu, _, hhome⟩ := h
  exact ⟨u, hu, fun d hd => (nomatch hhome.symm.trans hd)⟩

namespace Run

variable {L : Limits} {n : Nat} {m : Machine} {check : Check} {Valid : List Frame → Prop}

theorem deeper_keeps {body : Run α} (hm : Tidy L n m)
    (hbody : ∀ m', Proceeds L n m n m' → GoesOn L n m' body) :
    GoesOn L n m (deeper body) := by
  have hin : Proceeds L n m n { m with depth := m.depth + 1 } :=
    .ofSlots (Nat.le_refl n) { hm with } rfl
  have hrun := hbody _ hin
  unfold GoesOn Keeps at hrun ⊢
  unfold deeper
  cases hresult : body { m with depth := m.depth + 1 } with
  | ok answer m1 =>
    rw [hresult] at hrun
    obtain ⟨n1, h1, _⟩ := hrun
    exact ⟨n1, (hin.trans h1).trans (.ofSlots (Nat.le_refl n1) { h1.tidy with } rfl), trivial⟩
  | error e m1 =>
    rw [hresult] at hrun
    obtain ⟨n1, h1, he⟩ := hrun
    exact ⟨n1, (hin.trans h1).trans (.ofSlots (Nat.le_refl n1) { h1.tidy with } rfl), he⟩

/-- A unit that is there runs its instructions one level deeper, unless there is none left. -/
theorem checked_unit {direct : Bool} (hm : Tidy L n m) (hready : L.Ready m name)
    (hunit : ∀ k u, levels = k + 1 → L.program.units.find? name = some u → ∀ m',
      Proceeds L n m n m' →
      GoesOn L n m' (checkedSteps (check (⟨name, direct⟩ :: frames))
        (checked check k (⟨name, direct⟩ :: frames)) channel u.instrs)) :
    GoesOn L n m (checked check levels frames direct name channel) := by
  cases hu : m.program.units.find? name with
  | none =>
    have hfind : findUnit name m = .error (.unknownUnit name) m := by rw [findUnit_run, hu]
    have hquiet : L.Quiet (.unknownUnit name) := by
      refine ⟨nofun, fun hunfailing => ?_⟩
      obtain ⟨use, huse, _⟩ := hready
      have hhas := hm.complete hunfailing name use huse
      rw [Table.has, ← hm.program, hu] at hhas
      cases hhas
    cases levels with
    | zero =>
      unfold checked GoesOn Keeps
      rw [bind_of_error hfind]
      exact ⟨n, .refl hm, hquiet⟩
    | succ k =>
      unfold checked GoesOn Keeps
      rw [bind_of_error hfind]
      exact ⟨n, .refl hm, hquiet⟩
  | some u =>
    have hfind : findUnit name m = .ok u m := by rw [findUnit_run, hu]
    cases levels with
    | zero => exact .onward (bind_of_ok hfind) (.refl hm) (.get hm (.throw hm hm.maxDepth))
    | succ k =>
      refine .onward (bind_of_ok hfind) (.refl hm) (deeper_keeps hm ?_)
      exact hunit k u rfl (hm.program ▸ hu)

variable (Valid) in
/-- The code of a unit may enter others, if every unit keeps to the limits. -/
theorem executors_checked {site : Site} (howned : L.uses.Owned site.unit site.owner)
    (hrole : ∃ v, L.uses.unit site.unit = some v ∧ v.role = site.role)
    (hcalled : ∀ name, L.uses.IsCalled name → Valid (⟨name, false⟩ :: frames))
    (hentered : ∀ name, L.uses.Enters site.unit name → Valid (⟨name, true⟩ :: frames))
    (hunit : ∀ direct name channel n m, Tidy L n m → Valid (⟨name, direct⟩ :: frames) →
      L.Ready m name → (∀ key, channel = some key → L.Opens key) →
      GoesOn L n m (checked check levels frames direct name channel)) :
    Executors L site (checked check levels frames) := by
  have hopened : ∀ {key key'}, L.Opens key → some key = some key' → L.Opens key' :=
    fun hkey h => Option.some.inj h ▸ hkey
  obtain ⟨v, hv, hrole⟩ := hrole
  exact
    { value := fun name key n m hm hkey hname =>
        hunit _ name _ n m hm (hcalled name hname) hname.ready fun _ => hopened hkey
      direct := fun name key n m hm hname hmay hkey =>
        hunit _ name _ n m hm (hentered name ⟨_, howned, .inr ⟨hname, hmay⟩⟩) hname.ready
          fun _ => hopened hkey
      part := fun name u channel n m hm henters hchannel =>
        hunit _ name _ n m hm
          (hentered name ⟨_, howned, .inl ⟨u, henters.unit, henters.part, henters.owner, v, hv,
            hrole ▸ henters.role⟩⟩)
          ⟨u, henters.unit, henters.away⟩ hchannel }

/-- Every unit of a program that keeps to the uses. A part needs that the return address which the
    code around it has kept does not lead to the slot that is not to be written. -/
theorem checked_keeps (hp : ProgramOrderly L.uses L.program) (hguards : Guards L check Valid)
    (levels : Nat) (frames : List Frame) (direct : Bool) (name : String) (hm : Tidy L n m)
    (hvalid : Valid (⟨name, direct⟩ :: frames)) (hready : L.Ready m name)
    (hchannel : ∀ key, channel = some key → L.Opens key) :
    GoesOn L n m (checked check levels frames direct name channel) := by
  induction levels generalizing frames direct name channel n m with
  | zero => exact checked_unit hm hready nofun
  | succ levels ih =>
    refine checked_unit hm hready fun k u hk hu m1 h1 => ?_
    cases hk
    obtain ⟨site, b, rfl, _, _, hcode⟩ := hp.units _ (Table.mem_of_find? hu)
    obtain ⟨use, huse, hstanding, hkind⟩ := hcode.unit
    obtain ⟨use', huse', haway⟩ := hready
    obtain rfl := Option.some.inj (huse.symm.trans huse')
    have hkept : L.Kept site.home m1 := fun d hd =>
      h1.away (haway d ((congrArg Standing.home hstanding).trans hd))
    refine hcode.code.steps_keep (fun is m e => hguards.quiet _ is m e hvalid) h1.tidy hkept
      (fun i hi => hguards.permits _ u hu i hi _ _ rfl) ?_ hchannel
    have hrole : use.role = site.role := by simp [UnitUse.role, Site.role, hstanding, hkind]
    exact executors_checked Valid hcode.owned ⟨use, huse, hrole⟩
      (fun _ => hguards.called _ _ hvalid) (fun _ => hguards.entered _ _ _ hvalid)
      fun _ name' _ _ _ => ih _ _ name'

/-! ### Steps from outside -/

theorem free_hostResult (L : Limits) : L.Free hostResult := by
  intro a _ h
  obtain ⟨digits, hkey, _⟩ := a.toList_key
  rw [← h] at hkey
  simp [hostResult] at hkey

theorem opens_hostChannel (L : Limits) : L.Opens hostChannel := by
  refine ⟨_, .host, fun t ht => ?_⟩
  cases ht
  exact ⟨.inr (.inl rfl), free_hostResult L⟩

theorem opens_scheduleChannel (L : Limits) : L.Opens scheduleChannel :=
  ⟨_, .schedule, nofun⟩

/-- The channel of a call from outside. -/
theorem hostEntries_tidy (args : List Scalar) :
    ∀ e ∈ hostEntries args, EntryTidy L n hostChannel e.1 e.2 := by
  intro e he
  rw [hostEntries, List.append_assoc] at he
  rcases List.mem_append.1 he with he | he
  · exact frame_tidy hostChannel e he
  · rcases List.mem_append.1 he with he | he
    · obtain ⟨i, hi, rfl⟩ := List.mem_mapIdx.1 he
      exact .ofPassed .host (fun _ => Scalar.fair _ _ _)
        fun h => absurd h (argumentName_ne i (by decide))
    · rw [List.mem_singleton.1 he]
      exact .ofPassed .host (fun h => absurd rfl (valueEntry_ne h).1) fun _ => ⟨_, rfl, rfl⟩

section

variable (hp : ProgramOrderly L.uses L.program) (hguards : Guards L check Valid)
  (hnone : Valid []) (hm : Tidy L n m)

include hp hguards hnone

/-- Functions that are called from outside. -/
theorem watched_keeps (hm : Tidy L n m) (hname : L.uses.IsCalled name)
    (hchannel : ∀ key, channel = some key → L.Opens key) :
    GoesOn L n m (watched check name channel) := by
  refine .get hm (checked_keeps hp hguards _ _ _ name hm (hguards.called _ _ hnone hname)
    hname.ready hchannel)

theorem watched_executor : (watched check).Keeps L := by
  intro name key n m hm hkey hname
  refine watched_keeps hp hguards hnone hm hname fun key' h => ?_
  cases h
  exact hkey

include hm

theorem entryBy_keeps : GoesOn L n m (entryBy (watched check)) := by
  refine .get hm ?_
  have hentry : L.uses.IsCalled m.program.entry := by
    rw [hm.program]
    exact ⟨_, hp.entry, rfl, rfl⟩
  have hchannel : ∀ key, (none : Option String) = some key → L.Opens key := nofun
  refine (watched_keeps hp hguards hnone hm hentry hchannel).bind fun _ _ _ h' _ => ?_
  exact .pure h'.tidy trivial

theorem callGlobalBy_keeps (name : String) (args : List Scalar)
    (hoffered : L.unfailing → L.program.functions.has name = true) :
    GoesOn L n m (callGlobalBy (watched check) name args) := by
  refine .get hm ?_
  cases hf : m.program.functions.find? name with
  | none =>
    refine .throw hm ⟨nofun, fun hunfailing => ?_⟩
    have hhas := hoffered hunfailing
    rw [Table.has, ← hm.program, hf] at hhas
    cases hhas
  | some f =>
    rw [hm.program] at hf
    obtain ⟨_, hunit, _⟩ := hp.functions _ (Table.mem_of_find? hf)
    refine (setChannel_keeps hm (hostEntries_tidy args)).bind fun n1 _ m1 h1 _ => ?_
    have hresult := slotTidy_hostResult (Nbt.fair_undefined L n1)
    refine (setValue_keeps h1.tidy (free_hostResult L) hresult fun d _ hkey => ?_).bind
      fun n2 _ m2 h2 _ => ?_
    · obtain ⟨digits, hlist, _⟩ := d.toList_key
      rw [← hkey] at hlist
      simp [hostResult] at hlist
    · refine (watched_keeps hp hguards hnone h2.tidy ⟨_, hunit, rfl, rfl⟩ fun key hkey => ?_).bind
        fun n3 _ m3 h3 _ => .get h3.tidy (.pure h3.tidy trivial)
      cases hkey
      exact opens_hostChannel L

theorem runTaskBy_keeps {t : Task} (ht : t.function.Callable L n) :
    GoesOn L n m (runTaskBy (watched check) t) := by
  refine (setChannel_keeps hm (frame_tidy scheduleChannel)).bind fun n1 _ m1 h1 _ => ?_
  refine (invokeFunction_keeps h1.tidy (watched_executor hp hguards hnone) (ht.mono h1.le)
    (opens_scheduleChannel L)).bind fun n2 _ m2 h2 _ => ?_
  exact .pure h2.tidy trivial

theorem passTickBy_keeps : GoesOn L n m (passTickBy (watched check)) := by
  refine .get hm ?_
  simp only [List.partition_eq_filter_filter]
  have hset : GoesOn L n m (set { m with
      tick := m.tick + 1
      scheduled := m.scheduled.filter (not ∘ fun t => decide (t.due ≤ m.tick + 1)) }) := by
    refine ⟨n, .ofSlots (Nat.le_refl n) { hm with scheduled := fun t ht => ?_ } rfl, trivial⟩
    exact hm.scheduled t (List.mem_of_mem_filter ht)
  refine hset.bind fun n1 _ m1 h1 _ => ?_
  refine .forM h1.tidy fun t ht n' m' h' => ?_
  have hfunction := hm.scheduled t (List.mem_of_mem_filter ht)
  exact runTaskBy_keeps hp hguards hnone h'.tidy (hfunction.mono (h1.trans h').le)

theorem passTicksBy_keeps (count : Nat) :
    GoesOn L n m (passTicksBy (watched check) count) := by
  induction count generalizing n m with
  | zero => exact .pure hm trivial
  | succ count ih =>
    exact (passTickBy_keeps hp hguards hnone hm).bind fun _ _ _ h' _ => ih h'.tidy

theorem untilIdleBy_keeps (most : Nat) :
    GoesOn L n m (untilIdleBy (watched check) most) := by
  induction most generalizing n m with
  | zero => exact .pure hm trivial
  | succ most ih =>
    refine .get hm ?_
    split
    · exact (passTickBy_keeps hp hguards hnone hm).bind fun _ _ _ h' _ => ih h'.tidy
    · exact .pure hm trivial

end

end Run

section

variable {L : Limits} {n : Nat} {m : Machine} {check : Check} {Valid : List Frame → Prop}

/-- Every step from outside keeps a machine to the limits. -/
theorem HostStep.runBy_keeps (hp : ProgramOrderly L.uses L.program)
    (hguards : Guards L check Valid) (hnone : Valid []) (hm : Tidy L n m) (step : HostStep)
    (hoffered : L.unfailing → step.offered L.program = true) :
    Run.Keeps L n m (step.runBy (Run.watched check)) fun _ _ _ => True := by
  cases step with
  | entry => exact Run.entryBy_keeps hp hguards hnone hm
  | call name args =>
    refine (Run.callGlobalBy_keeps hp hguards hnone hm name args hoffered).bind
      fun _ _ _ h' _ => ?_
    exact .pure h'.tidy trivial
  | ticks count => exact Run.passTicksBy_keeps hp hguards hnone hm count
  | untilIdle most => exact Run.untilIdleBy_keeps hp hguards hnone hm most

theorem Run.Keeps.final {c : Run α} {Q : Nat → α → Machine → Prop} (h : Run.Keeps L n m c Q) :
    ∃ n', Proceeds L n m n' (Run.final (c m)) := by
  unfold Run.Keeps at h
  cases hc : c m with
  | ok a m' | error e m' =>
    rw [hc] at h
    obtain ⟨n', h', _⟩ := h
    exact ⟨n', h'⟩

section

variable (hp : ProgramOrderly L.uses L.program) (hguards : Guards L check Valid) (hnone : Valid [])

include hp hguards hnone

theorem Tidy.afterBy (hm : Tidy L n m) (step : HostStep)
    (hoffered : L.unfailing → step.offered L.program = true) :
    ∃ n', Proceeds L n m n' (m.afterBy check step) :=
  (step.runBy_keeps hp hguards hnone hm hoffered).final

/-- Steps from outside, one after the other. -/
theorem Tidy.afterAllBy (hm : Tidy L n m) (steps : List HostStep)
    (hoffered : L.unfailing → ∀ step ∈ steps, step.offered L.program = true) :
    ∃ n', Proceeds L n m n' (steps.foldl (Machine.afterBy check) m) := by
  induction steps generalizing n m with
  | nil => exact ⟨n, .refl hm⟩
  | cons step rest ih =>
    obtain ⟨n1, h1⟩ := hm.afterBy hp hguards hnone step fun h => hoffered h step List.mem_cons_self
    obtain ⟨n2, h2⟩ := ih h1.tidy fun h s hs => hoffered h s (List.mem_cons_of_mem step hs)
    exact ⟨n2, h1.trans h2⟩

/-- What comes after a machine that keeps to the limits. -/
theorem Machine.Onward.proceeds {m' : Machine} (hlenient : L.Lenient) (hm : Tidy L n m)
    (h : m.Onward check m') : ∃ n', Proceeds L n m n' m' := by
  obtain ⟨before, step, further, rfl⟩ := h
  obtain ⟨n1, h1⟩ := hm.afterAllBy hp hguards hnone before fun h => absurd h hlenient.fault
  obtain ⟨n2, h2⟩ := h1.tidy.afterBy hp (hguards.or hlenient further) hnone step
    fun h => absurd h hlenient.fault
  exact ⟨n2, h1.trans h2⟩

end

end

/-- Every machine that is reached keeps to the uses. -/
theorem Machine.Reached.tidy {G : Uses} {p : Program} {maxDepth : Nat} (h : m.Reached p maxDepth)
    (hp : ProgramOrderly G p) : ∃ n, Tidy (.ofUses G p) n m := by
  have hlenient := Limits.lenient_ofUses G p
  have hstart := Tidy.startLenient hlenient hp.ns hp.records maxDepth
  have hguards : Guards (.ofUses G p) .never fun _ => True := guards_never rfl fun _ _ => trivial
  obtain ⟨n, h'⟩ := Machine.Onward.proceeds hp hguards trivial hlenient hstart h
  exact ⟨n, h'.tidy⟩

/-! ### Alarms -/

/-- A depth error with another limit than that of the machine does not come up. -/
def Limits.alarmed (G : Uses) (p : Program) (limit : Nat) : Limits where
  uses := G
  program := p
  variables_ _ _ := True
  spared := none
  alarm := some limit
  unfailing := False

section

variable {G : Uses} {p : Program} (check : Check) (Valid : List Frame → Prop)
  (hcalled : ∀ frames name, Valid frames → G.IsCalled name → Valid (⟨name, false⟩ :: frames))
  (hentered : ∀ f frames name, Valid (f :: frames) → G.Enters f.unit name →
    Valid (⟨name, true⟩ :: f :: frames))
  (hquiet : ∀ frames is m, Valid frames → check frames is m = none)

include hcalled hentered hquiet

theorem guards_alarmed {limit : Nat} : Guards (.alarmed G p limit) check Valid where
  called := hcalled
  entered := hentered
  quiet frames is m e hframes he := by
    rw [hquiet frames is m hframes] at he
    cases he
  permits _ _ _ _ _ _ _ _ := .inl ⟨nofun, fun _ _ _ _ => .inl fun _ => trivial⟩

/-- A check that does not end runs with frames as they come up never ends one with a depth error
    that is not that of the machine. The program of the machine is the one it started with. -/
theorem HostStep.runBy_ne_alarm (step : HostStep) (hp : ProgramOrderly G p) (hnone : Valid [])
    (maxDepth : Nat) (before : List HostStep) :
    (before.foldl Machine.after (.start p maxDepth)).program = p ∧
      ¬ ∃ m', step.runBy (Run.watched check) (before.foldl Machine.after (.start p maxDepth)) =
        .error (.depthExceeded (maxDepth + 1)) m' := by
  have hstart : Tidy (.alarmed G p (maxDepth + 1)) G.records (.start p maxDepth) := by
    refine Tidy.start hp.ns hp.records ⟨?_, fun h => h.elim⟩ fun h => h.elim
    rintro limit ⟨⟩ h
    simp at h
  have hnever : Guards (.alarmed G p (maxDepth + 1)) .never Valid :=
    guards_alarmed _ _ hcalled hentered fun _ _ _ _ => rfl
  obtain ⟨n, hbefore⟩ := hstart.afterAllBy hp hnever hnone before fun h => h.elim
  rw [Machine.afterBy_never] at hbefore
  refine ⟨hbefore.tidy.program, ?_⟩
  rintro ⟨m', hends⟩
  have hguards : Guards (.alarmed G p (maxDepth + 1)) check Valid :=
    guards_alarmed _ _ hcalled hentered hquiet
  have hkeeps := step.runBy_keeps hp hguards hnone hbefore.tidy fun h => h.elim
  unfold Run.Keeps at hkeeps
  rw [hends] at hkeeps
  obtain ⟨_, _, halarm⟩ := hkeeps
  exact halarm.alarm _ rfl rfl

end

end PackScript
