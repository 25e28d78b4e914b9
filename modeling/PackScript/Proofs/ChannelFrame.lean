import PackScript.Proofs.Feeding
import PackScript.Proofs.Machine.Framed

namespace PackScript

/-!
# Parameters come with a frame

A unit that takes parameters is executed with a channel that holds its own key. So a command that is
written with the frame of its channel can always be filled in, and no parameter is left out because
there is no channel.

* `Run.gated` — execution in which a gate looks at each unit as it is entered, and may end the run.
* `Chunk.steps_matches` — each piece of code enters units the way they have to be entered.
* `parameters_come_with_a_frame` — a gate that ends the run where a unit takes parameters without a
  frame makes no difference.
-/

variable {c : Channel} {entries : Compile.Entries} {call call' : Executor} {G : Feeding}
  {guard : Guard} {is : List Instr} {m : Machine} {channel : Option String} {P : Permits}
  {target : Place} {p : Program} {source : Source} {key name : String}

/-! ### Gates -/

/-- The instruction takes an entry of the channel that its unit was called with. -/
def Instr.takesParam : Instr → Bool
  | .set _ _ (.param _) => true
  | .append _ (.param _) => true
  | _ => false

/-- The unit takes entries of the channel that it was called with. -/
def CodeUnit.takesParams (u : CodeUnit) : Bool :=
  u.instrs.any Instr.takesParam

/-- There is a channel, and it holds its own key as its frame. -/
def Machine.hasFrame (m : Machine) : Option String → Bool
  | none => false
  | some key => match (m.channels.get? key).bind (·.get? "frame") with
    | some (.string t) => t = key
    | _ => false

/-- Looks at a unit that is entered with a channel, and may end the run. -/
def Gate := CodeUnit → Option String → Machine → Option MachineError

/-- Ends the run where a unit takes parameters without a frame. -/
def Gate.unframed (e : MachineError) : Gate := fun u channel m =>
  if u.takesParams && !m.hasFrame channel then some e else none

namespace Run

/-- Executes a unit with a gate. -/
def gated (gate : Gate) : Nat → Executor
  | 0, name, _ => do
    let _ ← findUnit name
    throw (.depthExceeded (← get).maxDepth)
  | levels + 1, name, channel => do
    let u ← findUnit name
    stopIf (gate u channel)
    deeper (steps (gated gate levels) channel u.instrs)

/-- Executes a unit with a gate, from outside of all units. -/
def gatedFromHost (gate : Gate) : Executor := fun name channel => do
  gated gate (← get).maxDepth name channel

/-! ### Instructions -/

variable {m : Machine} {call call' : Executor} {channel : Option String} {rest : List Instr}

theorem steps_cons_matches {i : Instr} {Q : Machine → Prop}
    (hstep : Matches m (step call channel i) (step call' channel i) fun _ m' => Q m')
    (hrest : ∀ m', Framing m m' → Q m' →
      Alike m' (steps call channel rest) (steps call' channel rest)) :
    Alike m (steps call channel (i :: rest)) (steps call' channel (i :: rest)) := by
  refine hstep.bind fun code m' h' hQ => ?_
  cases code with
  | none => exact hrest m' h' hQ
  | some code => exact .pure h'.framed trivial

/-- A write to a slot or heap record leaves the channels alone. -/
theorem set_matches (hm : m.Framed) (htarget : target.address.storage ≠ .channels) :
    Matches m (step call channel (.set guard target source))
      (step call' channel (.set guard target source)) fun _ m' => m'.channels = m.channels := by
  have hwrite : ∀ v, Spares (write target.address.storage target.fullPath v) := by
    intro v
    cases haddress : target.address.storage with
    | slots =>
      intro m
      rw [write_run]
      cases (m.storage .slots).setPath target.fullPath v <;> exact ⟨rfl, rfl⟩
    | heap => exact .writeHeap _ _
    | channels => exact absurd haddress htarget
  refine Matches.of_spares (c := step call channel (.set guard target source)) ?_ hm
  refine .get fun m => ?_
  split
  · cases m.take channel source with
    | none => exact .pure _
    | some v => exact (hwrite v).bind fun _ => .pure _
  · exact .pure _

/-- One entry is written to a channel that is there, if there is something to write. -/
theorem setEntry_matches (hm : m.Framed) (hkey : m.HasChannel c.key) (hname : name ≠ "frame") :
    Matches m (step call channel (.set .always (.entry c name) source))
      (step call' channel (.set .always (.entry c name) source))
      fun _ m' => m'.HasChannel c.key ∧
        ∀ v, source = .literal v → m'.channels.getPath [c.key, name] = some v := by
  unfold Matches
  rw [step_set, step_set, Machine.holds_always, if_pos rfl]
  cases htake : m.take channel source with
  | none =>
    refine ⟨rfl, .refl hm, hkey, fun v hv => ?_⟩
    rw [hv] at htake
    cases htake
  | some w =>
    refine (Matches.writeEntry hm hkey hname).bind fun _ m₁ h₁ hwritten => ?_
    refine .pure h₁.framed ⟨hwritten.1, fun v hv => ?_⟩
    rw [hv] at htake
    rw [Option.some.inj htake]
    exact hwritten.2

theorem setEntries_matches (entries : Compile.Entries) :
    ∀ {m : Machine}, m.Framed → m.HasChannel c.key → (∀ e ∈ entries, e.1 ≠ "frame") →
      (∀ m', Framing m m' → m'.HasChannel c.key →
        Alike m' (steps call channel rest) (steps call' channel rest)) →
      Alike m
        (steps call channel ((entries.map fun e => .set .always (.entry c e.1) e.2) ++ rest))
        (steps call' channel ((entries.map fun e => .set .always (.entry c e.1) e.2) ++ rest)) := by
  induction entries with
  | nil => exact fun hm hkey _ hrest => hrest _ (.refl hm) hkey
  | cons e others ih =>
    intro m hm hkey hnames hrest
    have hname := hnames e List.mem_cons_self
    refine steps_cons_matches (setEntry_matches hm hkey hname) fun m₁ h₁ ⟨hkey₁, _⟩ => ?_
    refine ih h₁.framed hkey₁ (fun e' he' => hnames e' (List.mem_cons_of_mem e he')) ?_
    exact fun m₂ h₂ hkey₂ => hrest m₂ (h₁.trans h₂) hkey₂

/-- A channel is filled. It is there afterwards. -/
theorem fill_matches (hm : m.Framed) (hnames : ∀ e ∈ entries, e.1 ≠ "frame")
    (hrest : ∀ m', Framing m m' → m'.HasChannel c.key →
      Alike m' (steps call channel rest) (steps call' channel rest)) :
    Alike m (steps call channel (fillCode c entries ++ rest))
      (steps call' channel (fillCode c entries ++ rest)) := by
  have hframe : Matches m
      (step call channel
        (.set .always (.channel c) (.literal (.compound [("frame", .string c.key)]))))
      (step call' channel
        (.set .always (.channel c) (.literal (.compound [("frame", .string c.key)]))))
      fun _ m' => m'.HasChannel c.key := by
    unfold Matches
    rw [step_set, step_set]
    refine (Matches.writeFrame _ [] hm).bind fun _ m₁ h₁ hget => ?_
    exact .pure h₁.framed ⟨_, hget⟩
  refine steps_cons_matches hframe fun m₁ h₁ hkey => ?_
  exact setEntries_matches entries h₁.framed hkey hnames fun m₂ h₂ => hrest m₂ (h₁.trans h₂)

theorem invoke_matches {target : Callee} {args : Option Channel} {store : Option Place}
    (hm : m.Framed) (hstore : ∀ p, store = some p → ∃ a, p = .slot a)
    (hcallee : Alike m (callee call (args.map (·.key)) target)
      (callee call' (args.map (·.key)) target)) :
    Alike m (step call channel (.invoke guard target args store))
      (step call' channel (.invoke guard target args store)) := by
  have hcode : ∀ code, Spares (storeCode store code) := by
    intro code
    cases store with
    | none => exact .pure _
    | some p =>
      obtain ⟨a, rfl⟩ := hstore p rfl
      exact .setSlot a.key _
  refine .get ?_
  dsimp only
  split
  · refine hcallee.bind fun code m₁ h₁ _ => ?_
    exact (Matches.of_spares (hcode code) h₁.framed).bind fun _ m₂ h₂ _ => .pure h₂.framed trivial
  · exact .pure hm trivial

/-- A routine that does not take a channel from its arguments is called. -/
theorem library_matches (hcall : Executor.Matches p call call') (hp : m.program = p) (hm : m.Framed)
    {r : Routine} (hr : r ≠ .callFunction) (key : Option String) :
    Alike m (callee call key (.library r)) (callee call' key (.library r)) :=
  .get (routine_matches hcall hp hm fun h => absurd h hr)

end Run

open Run in
/-- Each piece of code enters units with a channel that is there, or without one if it is permitted
    to. -/
theorem Chunk.steps_matches {rest : List Instr} (h : Chunk P is)
    (hcall : Executor.Matches p call call')
    (hpart : ∀ name m, P.part name → m.program = p → m.Framed →
      Alike m (call name none) (call' name none)) (hp : m.program = p)
    (hm : m.Framed)
    (hrest : ∀ m', Framing m m' →
      Alike m' (steps call channel rest) (steps call' channel rest)) :
    Alike m (steps call channel (is ++ rest)) (steps call' channel (is ++ rest)) := by
  have hplace : ∀ {place : Place}, P.place place → place.address.storage ≠ .channels := by
    intro place hplace hstorage
    unfold Permits.place at hplace
    cases haddress : place.address <;> simp [haddress, Address.storage] at hplace hstorage
  have hnone : ∀ p, (none : Option Place) = some p → ∃ a, p = Place.slot a := by simp
  have hnext : ∀ {i : Instr} {m₁ : Machine}, Framing m m₁ →
      Alike m₁ (step call channel i) (step call' channel i) →
      Alike m₁ (steps call channel (i :: rest)) (steps call' channel (i :: rest)) :=
    fun h₁ hstep => steps_cons_matches hstep fun m₂ h₂ _ => hrest m₂ (h₁.trans h₂)
  cases h with
  | write hguard htarget hsource =>
    exact hnext (.refl hm) ((set_matches hm (hplace htarget)).imp fun _ _ _ _ => trivial)
  | enter hguard hunit hstore =>
    refine hnext (.refl hm) (invoke_matches hm (fun p hp => ?_) (hpart _ m hunit hp hm))
    obtain ⟨a, ha, _⟩ := hstore p hp
    exact ⟨a, ha⟩
  | returnIf hguard | returnWith => exact hnext (.refl hm) ⟨rfl, .refl hm, trivial⟩
  | raw => exact hnext (.refl hm) ⟨rfl, .of_eq hm rfl rfl, trivial⟩
  | library hr hentries =>
    rw [List.append_assoc]
    refine fill_matches hm (fun e he => (hentries e he).name) fun m₁ h₁ _ => ?_
    exact hnext h₁ (invoke_matches h₁.framed hnone
      (library_matches hcall (h₁.program.trans hp) h₁.framed hr.2 _))
  | call hentries =>
    rw [List.append_assoc]
    refine fill_matches hm (fun e he => (hentries e he).name) fun m₁ h₁ hkey => ?_
    exact hnext h₁ (invoke_matches h₁.framed hnone
      (hcall _ _ m₁ (h₁.program.trans hp) h₁.framed hkey))
  | @through c d entries callee hcallee hentries =>
    rw [List.append_assoc, List.append_assoc]
    refine fill_matches hm (fun e he => (hentries e he).name) fun m₁ h₁ hkey => ?_
    -- the routine is told the channel that was filled before
    let told : Instr := .set .always (.entry d "channel") (.text c.key)
    have hfill : fillCode d [("function", .addressOf callee), ("channel", .text c.key)] ++
        ([.invoke .always (.library .callFunction) (some d) none] ++ rest) =
        fillCode d [("function", .addressOf callee)] ++
          (told :: .invoke .always (.library .callFunction) (some d) none :: rest) := rfl
    rw [hfill]
    refine fill_matches h₁.framed (by simp) fun m₂ h₂ hkey₂ => ?_
    refine steps_cons_matches (setEntry_matches h₂.framed hkey₂ (by decide))
      fun m₃ h₃ hentries₃ => ?_
    have h₁₃ := (h₁.trans h₂).trans h₃
    refine hnext h₁₃ (invoke_matches h₃.framed hnone (.get ?_))
    refine routine_matches hcall (h₁₃.program.trans hp) h₃.framed fun _ key htext => ?_
    have hget := hentries₃.2 (.string c.key) rfl
    rw [Nbt.getPath_pair] at hget
    obtain ⟨v, hv, hentry⟩ := Option.bind_eq_some_iff.1 hget
    have hkey' : c.key = key := by simpa [Args.text?, hv, hentry, Nbt.text?] using htext
    rw [← hkey']
    exact (h₂.trans h₃).channels _ hkey
  | each harray hcell =>
    rw [List.append_assoc]
    refine fill_matches hm (by simp) fun m₁ h₁ _ => ?_
    refine steps_cons_matches (set_matches h₁.framed (hplace hcell)) fun m₂ h₂ _ => ?_
    have h₁₂ := h₁.trans h₂
    refine hnext h₁₂ (invoke_matches h₂.framed (fun p hp => ⟨_, (Option.some.inj hp).symm⟩) ?_)
    exact library_matches hcall (h₁₂.program.trans hp) h₂.framed (by decide) _

open Run in
theorem Chunks.steps_matches (h : Chunks P is) (hcall : Executor.Matches p call call')
    (hpart : ∀ name m, P.part name → m.program = p → m.Framed →
      Alike m (call name none) (call' name none)) :
    ∀ {m : Machine}, m.program = p → m.Framed →
      Alike m (steps call channel is) (steps call' channel is) := by
  induction h with
  | nil => exact fun _ hm => .pure hm trivial
  | cons his _ ih =>
    intro m hp hm
    refine his.steps_matches hcall hpart hp hm fun m₁ h₁ => ?_
    exact ih (h₁.program.trans hp) h₁.framed

/-! ### Units that take no parameters -/

section

variable {P : Permits} (hP : ¬ P.params)

include hP

theorem takesParam_set (h : P.source source) :
    Instr.takesParam (.set guard target source) = false := by
  cases source with
  | param name => exact absurd h hP
  | _ => rfl

theorem takesParam_fillCode (h : ∀ e ∈ entries, P.source e.2) :
    (fillCode c entries).any Instr.takesParam = false := by
  refine List.any_eq_false.2 fun i hi => ?_
  rcases List.mem_cons.1 hi with rfl | hi
  · simp [Instr.takesParam]
  · obtain ⟨e, he, rfl⟩ := List.mem_map.1 hi
    simp [takesParam_set hP (h e he)]

theorem Chunk.takesParam (h : Chunk P is) : is.any Instr.takesParam = false := by
  cases h with
  | write hguard htarget hsource => simp [takesParam_set hP hsource]
  | library hr hentries | call hentries =>
    simp [takesParam_fillCode hP fun e he => (hentries e he).source, Instr.takesParam]
  | through hcallee hentries =>
    rw [List.any_append, takesParam_fillCode hP fun e he => (hentries e he).source]
    rfl
  | each harray hcell => simp [Instr.takesParam, fillCode, Source.addressOf, Source.text]
  | _ => rfl

/-- Code that may not read what its unit was called with takes no parameters. -/
theorem Chunks.takesParam (h : Chunks P is) : is.any Instr.takesParam = false := by
  induction h with
  | nil => rfl
  | cons his _ ih => simp [his.takesParam hP, ih]

end

/-! ### Execution -/

/-- The unit may be executed: if it takes parameters, there is a channel. -/
def Machine.Ready (m : Machine) (name : String) (channel : Option String) : Prop :=
  ∀ u, m.program.units.find? name = some u → u.takesParams = true →
    ∃ key, channel = some key ∧ m.HasChannel key

section

variable {m : Machine} {name : String} {channel : Option String} {G : Feeding}

theorem Machine.ready_of_channel (h : m.HasChannel key) : m.Ready name (some key) :=
  fun _ _ _ => ⟨key, rfl, h⟩

/-- A unit that is entered without a channel takes no parameters. -/
theorem Machine.ready_of_part (hfed : m.program.Fed G) (hname : G name = some false) :
    m.Ready name channel := by
  intro u hu htakes
  have hP : ¬ (G.permits name).params := by
    show ¬ G name = some true
    rw [hname]
    simp
  have hnone := (hfed.units _ (Table.mem_of_find? hu)).takesParam hP
  exact absurd (hnone.symm.trans htakes) (by simp)

theorem Machine.Framed.hasFrame (hm : m.Framed) (hkey : m.HasChannel key) :
    m.hasFrame (some key) = true := by
  obtain ⟨v, hv⟩ := hkey
  have hframe : v.get? "frame" = some (.string key) := hm.2 key v hv
  simp [Machine.hasFrame, hv, hframe]

/-- The gate lets a unit pass that may be executed. -/
theorem Gate.unframed_ready {u : CodeUnit} (e : MachineError) (hm : m.Framed)
    (hready : m.Ready name channel) (hu : m.program.units.find? name = some u) :
    Gate.unframed e u channel m = none := by
  unfold Gate.unframed
  cases htakes : u.takesParams with
  | false => rfl
  | true =>
    obtain ⟨key, rfl, hkey⟩ := hready u hu htakes
    simp [hm.hasFrame hkey]

end

namespace Run

variable {α : Type} {m : Machine} {p : Program} {G : Feeding} {e : MachineError}

theorem deeper_matches {c c' : Run α}
    (h : Alike { m with depth := m.depth + 1 } c c') : Alike m (deeper c) (deeper c') := by
  obtain ⟨hsame, hrun⟩ := h
  unfold Alike Matches deeper
  rw [hsame]
  refine ⟨rfl, ?_⟩
  cases hc : c { m with depth := m.depth + 1 } with
  | ok a m' =>
    rw [hc] at hrun
    exact ⟨⟨hrun.1.program, hrun.1.framed, hrun.1.channels⟩, trivial⟩
  | error e m' =>
    rw [hc] at hrun
    exact ⟨hrun.program, hrun.framed, hrun.channels⟩

/-- A check that does not end the run makes no difference. -/
theorem stopIf_matches {check : Machine → Option MachineError} {c c' : Run α}
    (hcheck : check m = none) (h : Alike m c c') : Alike m (stopIf check >>= fun _ => c) c' := by
  unfold Alike Matches
  rw [bind_of_ok (stopIf_none hcheck)]
  exact h

theorem Matches.final {c c' : Run α} (h : Alike m c c') : Framing m (Run.final (c' m)) := by
  obtain ⟨hsame, hrun⟩ := h
  rw [hsame]
  cases hc : c m with
  | ok a m' =>
    rw [hc] at hrun
    exact hrun.1
  | error e m' =>
    rw [hc] at hrun
    exact hrun

section

variable (hfed : p.Fed G)

include hfed

/-- Execution with the gate is execution without it, by induction over the depth of calls. -/
theorem gated_matches (levels : Nat) :
    ∀ name channel m, m.program = p → m.Framed → m.Ready name channel →
      Alike m (gated (.unframed e) levels name channel) (execute levels name channel) := by
  induction levels with
  | zero => exact fun name channel m _ hm _ => .look hm findUnit_looks fun u _ => .get (.throw hm)
  | succ levels ih =>
    intro name channel m hp hm hready
    refine .look hm findUnit_looks fun u hu => ?_
    refine stopIf_matches (Gate.unframed_ready e hm hready hu) (deeper_matches ?_)
    have hchunks := hfed.units _ (Table.mem_of_find? (hp ▸ hu))
    refine hchunks.steps_matches (fun name key m hp hm hkey => ?_)
      (fun name m hpart hp hm => ?_) hp hm
    · exact ih name (some key) m hp hm (Machine.ready_of_channel hkey)
    · exact ih name none m hp hm (Machine.ready_of_part (hp ▸ hfed) hpart)

variable (hp : m.program = p) (hm : m.Framed)
include hp hm

theorem gatedFromHost_matches (hready : m.Ready name channel) :
    Alike m (gatedFromHost (.unframed e) name channel) (fromHost name channel) :=
  .get (gated_matches hfed m.maxDepth name channel m hp hm hready)

/-! ### Steps from outside -/

omit hp hm in
theorem executor_matches : Executor.Matches p (gatedFromHost (.unframed e)) fromHost :=
  fun _ _ _ hp hm hkey => gatedFromHost_matches hfed hp hm (Machine.ready_of_channel hkey)

theorem entry_matches :
    Alike m (entryBy (gatedFromHost (.unframed e))) (entryBy fromHost) := by
  refine .get ((gatedFromHost_matches hfed hp hm ?_).bind fun _ m' h' _ => .pure h'.framed trivial)
  refine Machine.ready_of_part (hp ▸ hfed) ?_
  rw [hp]
  exact hfed.entry

theorem callGlobal_matches (name : String) (args : List Scalar) :
    Alike m (callGlobalBy (gatedFromHost (.unframed e)) name args)
      (callGlobalBy fromHost name args) := by
  refine .get ?_
  split
  · exact .throw hm
  · next f _ =>
    have hentries : hostEntries args = frame hostChannel ++
        ((args.mapIdx fun i a => (argumentName i, a.slot)) ++ [("return", .string hostResult)]) :=
      List.append_assoc _ _ _
    rw [hentries]
    refine (Matches.writeFrame _ _ hm).bind fun _ m₁ h₁ hkey => ?_
    refine (Matches.of_spares (.setSlot hostResult _) h₁.framed).bind fun _ m₂ h₂ _ => ?_
    have h₁₂ := h₁.trans h₂
    refine (executor_matches hfed f.unit hostChannel m₂ (h₁₂.program.trans hp) h₂.framed
      (h₂.channels _ ⟨_, hkey⟩)).bind fun _ m₃ h₃ _ => ?_
    exact .get (.pure h₃.framed trivial)

theorem runTask_matches (t : Task) :
    Alike m (runTaskBy (gatedFromHost (.unframed e)) t) (runTaskBy fromHost t) := by
  refine (Matches.writeFrame scheduleChannel [] hm).bind fun _ m₁ h₁ hkey => ?_
  refine (invokeFunction_matches (executor_matches hfed) (h₁.program.trans hp) h₁.framed
    ⟨_, hkey⟩).bind fun _ m₂ h₂ _ => .pure h₂.framed trivial

theorem passTick_matches :
    Alike m (passTickBy (gatedFromHost (.unframed e))) (passTickBy fromHost) := by
  refine .get ?_
  have hset : ∀ scheduled, Alike m (set { m with tick := m.tick + 1, scheduled := scheduled })
      (set { m with tick := m.tick + 1, scheduled := scheduled }) :=
    fun _ => ⟨rfl, .of_eq hm rfl rfl, trivial⟩
  refine (hset _).bind fun _ m₁ h₁ _ => .forM h₁.framed fun t _ m₂ h₂ => ?_
  exact runTask_matches hfed ((h₁.trans h₂).program.trans hp) h₂.framed t

end

end Run

theorem HostStep.runBy_matches {e : MachineError} (hfed : p.Fed G) (hp : m.program = p)
    (hm : m.Framed) (step : HostStep) :
    Run.Alike m (step.runBy (Run.gatedFromHost (.unframed e))) (step.runBy Run.fromHost) := by
  cases step with
  | entry => exact Run.entry_matches hfed hp hm
  | call name args =>
    exact (Run.callGlobal_matches hfed hp hm name args).bind fun _ m' h' _ =>
      .pure h'.framed trivial
  | ticks count =>
    show Run.Matches m (Run.passTicksBy _ count) (Run.passTicksBy _ count) _
    induction count generalizing m with
    | zero => exact .pure hm trivial
    | succ count ih =>
      refine (Run.passTick_matches hfed hp hm).bind fun _ m₁ h₁ _ => ?_
      exact ih (h₁.program.trans hp) h₁.framed
  | untilIdle most =>
    show Run.Matches m (Run.untilIdleBy _ most) (Run.untilIdleBy _ most) _
    induction most generalizing m with
    | zero => exact .pure hm trivial
    | succ most ih =>
      refine .get ?_
      split
      · refine (Run.passTick_matches hfed hp hm).bind fun _ m₁ h₁ _ => ?_
        exact ih (h₁.program.trans hp) h₁.framed
      · exact .pure hm trivial

/-- The channels of a machine have their frames, whatever was done with it before. -/
theorem Machine.afterAll_framed (hfed : p.Fed G) (before : List HostStep) :
    ∀ {m : Machine}, m.program = p → m.Framed →
      (before.foldl Machine.after m).program = p ∧ (before.foldl Machine.after m).Framed := by
  induction before with
  | nil => exact fun hp hm => ⟨hp, hm⟩
  | cons step rest ih =>
    intro m hp hm
    have hframing := (step.runBy_matches (e := .endlessLoop) hfed hp hm).final
    have hafter : Run.final (step.runBy Run.fromHost m) = m.after step := by
      rw [step.runBy_fromHost, Machine.after]
      cases step.run m <;> rfl
    rw [hafter] at hframing
    exact ih (hframing.program.trans hp) hframing.framed

/-- A unit that takes parameters is always executed with a channel that holds its own key: a gate
    that ends the run with an error where this is not so makes no difference, whatever was done with
    the machine before, and whatever the error is. -/
theorem parameters_come_with_a_frame (ns : String) (texts : List String) (maxDepth : Nat)
    (before : List HostStep) (step : HostStep) (e : MachineError) :
    let m := before.foldl Machine.after (.start (compileSources ns texts).program maxDepth)
    step.runBy (Run.gatedFromHost (.unframed e)) m = step.run m := by
  obtain ⟨G, hfed⟩ := compileSources_fed ns texts
  intro m
  obtain ⟨hp, hm⟩ := Machine.afterAll_framed hfed before (Machine.start_program _ maxDepth)
    (Nbt.entries_empty _)
  have hmatches := step.runBy_matches (e := e) hfed hp hm
  rw [← step.runBy_fromHost]
  exact hmatches.1.symm

/-- The gate ends a run in which a function is entered without a channel. -/
example :
    Run.error? (Run.gatedFromHost (.unframed .endlessLoop) "f" none
      (.start (compileSources "pack" ["function f(x) \x7b \x7d"]).program 512)) =
        some .endlessLoop := by
  decide +kernel

end PackScript
