import PackScript.Proofs.Machine.Leaves

namespace PackScript

/-!
# Channels that hold their own key

The first entry of a channel is its own key, its frame. Nothing takes it away: a channel is written
as a whole with its frame, and single entries are added to a channel that is there already.

* `Run.Spares` — a run that leaves the channels alone; most routines do.
* `Run.Matches` — two runs do the same from a machine, and keep the frames of all channels.
* `Run.routine_matches` — routines do the same with two ways of executing units, if these do for
  units that are called with a channel that is there.
-/

variable {a : Args} {m m' : Machine} {value : Nbt} {r : Routine} {key : String}

/-! ### Runs that leave the channels alone -/

namespace Run

variable {α β : Type}

/-- The run leaves the channels and the program alone. -/
def Spares (c : Run α) : Prop :=
  ∀ m, (final (c m)).channels = m.channels ∧ (final (c m)).program = m.program

namespace Spares

theorem pure (a : α) : Spares (Pure.pure a) :=
  fun _ => ⟨rfl, rfl⟩

theorem bind {c : Run α} {f : α → Run β} (h : Spares c) (hf : ∀ a, Spares (f a)) :
    Spares (c >>= f) := by
  intro m
  obtain ⟨hchannels, hprogram⟩ := h m
  cases hc : c m with
  | error e m' =>
    rw [hc] at hchannels hprogram
    rw [bind_of_error hc]
    exact ⟨hchannels, hprogram⟩
  | ok a m' =>
    rw [hc] at hchannels hprogram
    rw [bind_of_ok hc]
    obtain ⟨hchannels', hprogram'⟩ := hf a m'
    exact ⟨hchannels'.trans hchannels, hprogram'.trans hprogram⟩

theorem get {f : Machine → Run β} (hf : ∀ m, Spares (f m)) : Spares (MonadState.get >>= f) :=
  bind (fun _ => ⟨rfl, rfl⟩) hf

theorem of_leaves {c : Run α} (h : Leaves (fun m => (m.channels, m.program)) c) : Spares c := by
  intro m
  exact ⟨congrArg Prod.fst (h m), congrArg Prod.snd (h m)⟩

theorem setSlot (key : String) (value : Nbt) : Spares (Run.setSlot key value) :=
  of_leaves (.write .slots (fun _ _ => rfl) [key] value)

theorem writeHeap (path : List String) (value : Nbt) : Spares (Run.write .heap path value) :=
  of_leaves (.write .heap (fun _ _ => rfl) path value)

theorem append (path : List String) (value : Nbt) : Spares (Run.append .heap path value) :=
  of_leaves (.append (fun _ _ => rfl) path value)

end Spares

/-- Routines that execute no units leave the channels alone. -/
theorem routine_spares (call : Executor) (hr : ¬ r.Calls) : Spares (routine call a r) := by
  have haside : Machine.Aside fun m => (m.channels, m.program) :=
    ⟨fun _ _ => rfl, fun _ _ => rfl, fun _ _ => rfl, fun _ _ => rfl⟩
  by_cases hschedule : r = .schedule
  · rw [hschedule]
    refine .of_leaves (Leaves.normally (slotArgument_leaves.bind fun function => ?_))
    refine scalarArgument_leaves.bind fun ticks => ?_
    split
    · exact .pure _
    · exact unitOf_leaves.bind fun _ => .get fun m _ => rfl
  · exact .of_leaves (routine_leaves haside call hr hschedule)

end Run

/-! ### Frames -/

/-- The channel is there. -/
def Machine.HasChannel (m : Machine) (key : String) : Prop :=
  ∃ v, m.channels.get? key = some v

/-- Every channel holds its own key as its frame. -/
def Machine.Framed (m : Machine) : Prop :=
  m.channels.Entries fun key v => v.get? "frame" = some (.string key)

/-- The second machine comes after the first: channels keep their frames, and none goes away. -/
structure Framing (m m' : Machine) : Prop where
  program : m'.program = m.program
  framed : m'.Framed
  channels : ∀ key, m.HasChannel key → m'.HasChannel key

theorem Framing.refl (h : m.Framed) : Framing m m :=
  ⟨rfl, h, fun _ hkey => hkey⟩

theorem Framing.trans {m'' : Machine} (h : Framing m m') (h' : Framing m' m'') : Framing m m'' :=
  ⟨h'.program.trans h.program, h'.framed, fun key hkey => h'.channels key (h.channels key hkey)⟩

/-- The channels are the same. -/
theorem Framing.of_eq (h : m.Framed) (hchannels : m'.channels = m.channels)
    (hprogram : m'.program = m.program) : Framing m m' where
  program := hprogram
  framed := by
    unfold Machine.Framed
    rw [hchannels]
    exact h
  channels key hkey := by
    unfold Machine.HasChannel
    rw [hchannels]
    exact hkey

namespace Run

variable {α β : Type} {m : Machine}

/-- Two runs do the same from a machine, and channels keep their frames. -/
def Matches (m : Machine) (c c' : Run α) (Q : α → Machine → Prop) : Prop :=
  c' m = c m ∧ match c m with
    | .ok a m' => Framing m m' ∧ Q a m'
    | .error _ m' => Framing m m'

/-- The same, whatever they answer. -/
abbrev Alike (m : Machine) (c c' : Run α) : Prop :=
  Matches m c c' fun _ _ => True

namespace Matches

theorem pure {a : α} {Q : α → Machine → Prop} (h : m.Framed) (hQ : Q a m) :
    Matches m (Pure.pure a) (Pure.pure a) Q :=
  ⟨rfl, .refl h, hQ⟩

theorem throw {e : MachineError} {Q : α → Machine → Prop} (h : m.Framed) :
    Matches m (MonadExcept.throw e) (MonadExcept.throw e) Q :=
  ⟨rfl, .refl h⟩

theorem imp {c c' : Run α} {Q R : α → Machine → Prop} (h : Matches m c c' Q)
    (hQR : ∀ a m', Framing m m' → Q a m' → R a m') : Matches m c c' R := by
  obtain ⟨hsame, hrun⟩ := h
  refine ⟨hsame, ?_⟩
  cases hc : c m with
  | error e m' => rwa [hc] at hrun
  | ok a m' =>
    rw [hc] at hrun
    exact ⟨hrun.1, hQR a m' hrun.1 hrun.2⟩

theorem bind {c c' : Run α} {f f' : α → Run β} {Q : α → Machine → Prop} {R : β → Machine → Prop}
    (h : Matches m c c' Q)
    (hf : ∀ a m', Framing m m' → Q a m' → Matches m' (f a) (f' a) R) :
    Matches m (c >>= f) (c' >>= f') R := by
  obtain ⟨hsame, hrun⟩ := h
  cases hc : c m with
  | error e m' =>
    rw [hc] at hsame hrun
    unfold Matches
    rw [bind_of_error hc, bind_of_error hsame]
    exact ⟨rfl, hrun⟩
  | ok a m' =>
    rw [hc] at hsame hrun
    obtain ⟨hframing, hQ⟩ := hrun
    obtain ⟨hsame', hrun'⟩ := hf a m' hframing hQ
    unfold Matches
    rw [bind_of_ok hc, bind_of_ok hsame]
    refine ⟨hsame', ?_⟩
    cases hf' : f a m' with
    | error e m'' =>
      rw [hf'] at hrun'
      exact hframing.trans hrun'
    | ok b m'' =>
      rw [hf'] at hrun'
      exact ⟨hframing.trans hrun'.1, hrun'.2⟩

/-- First looks at the machine. -/
theorem look {c : Run α} {f f' : α → Run β} {P : α → Prop} {R : β → Machine → Prop} (hm : m.Framed)
    (h : Looks m c P) (hf : ∀ a, P a → Matches m (f a) (f' a) R) :
    Matches m (c >>= f) (c >>= f') R := by
  unfold Looks at h
  unfold Matches
  cases hc : c m with
  | error e m' =>
    rw [hc] at h
    obtain ⟨rfl, _⟩ := h
    rw [bind_of_error hc, bind_of_error hc]
    exact ⟨rfl, .refl hm⟩
  | ok a m' =>
    rw [hc] at h
    obtain ⟨rfl, hP⟩ := h
    rw [bind_of_ok hc, bind_of_ok hc]
    exact hf a hP

theorem get {f f' : Machine → Run β} {R : β → Machine → Prop} (h : Matches m (f m) (f' m) R) :
    Matches m (MonadState.get >>= f) (MonadState.get >>= f') R :=
  h

theorem of_spares {c : Run α} (h : Spares c) (hm : m.Framed) :
    Matches m c c fun _ m' => m'.channels = m.channels := by
  refine ⟨rfl, ?_⟩
  obtain ⟨hchannels, hprogram⟩ := h m
  cases hc : c m with
  | error e m' =>
    rw [hc] at hchannels hprogram
    exact .of_eq hm hchannels hprogram
  | ok a m' =>
    rw [hc] at hchannels hprogram
    exact ⟨.of_eq hm hchannels hprogram, hchannels⟩

theorem forM {items : List β} {f f' : β → Run PUnit} (hm : m.Framed)
    (hf : ∀ b ∈ items, ∀ m', Framing m m' → Alike m' (f b) (f' b)) :
    Alike m (items.forM f) (items.forM f') := by
  induction items generalizing m with
  | nil => exact .pure hm trivial
  | cons b rest ih =>
    refine (hf b List.mem_cons_self m (.refl hm)).bind fun _ m1 h1 _ => ?_
    exact ih h1.framed fun b' hb' m' h' => hf b' (List.mem_cons_of_mem b hb') m' (h1.trans h')

theorem normally {c c' : Run Unit} (h : Alike m c c') :
    Alike m (Run.normally c) (Run.normally c') :=
  h.bind fun _ _ h' _ => .pure h'.framed trivial

/-- A write to a channel that leaves the channel with its frame. -/
theorem writeChannel {path : List String} (hm : m.Framed)
    (hframe : ∀ child, ((m.channels.get? key).getD .empty).setPath path value = some child →
      child.get? "frame" = some (.string key)) :
    Matches m (write .channels (key :: path) value) (write .channels (key :: path) value)
      fun _ m' => ∃ child, ((m.channels.get? key).getD .empty).setPath path value = some child ∧
        m'.channels.get? key = some child := by
  refine ⟨rfl, ?_⟩
  rw [write_run]
  cases hset : (m.storage .channels).setPath (key :: path) value with
  | none => exact .refl hm
  | some tree =>
    obtain ⟨child, hchild, _, hget⟩ := Nbt.setPath_cons hset
    have hself : tree.get? key = some child := by
      rw [hget, if_pos rfl]
    refine ⟨⟨rfl, hm.ofSetPath hset hframe, fun other hother => ?_⟩, child, hchild, hself⟩
    show ∃ v, tree.get? other = some v
    rw [hget]
    split
    · exact ⟨child, rfl⟩
    · exact hother

/-- A whole channel is written. -/
theorem writeFrame (key : String) (entries : List (String × Nbt)) (hm : m.Framed) :
    Matches m (write .channels [key] (.compound (frame key ++ entries)))
      (write .channels [key] (.compound (frame key ++ entries)))
      fun _ m' => m'.channels.get? key = some (.compound (frame key ++ entries)) := by
  refine (writeChannel hm fun child hchild => ?_).imp ?_
  · obtain rfl := Option.some.inj hchild
    rfl
  · rintro _ m' _ ⟨child, hchild, hget⟩
    obtain rfl := Option.some.inj hchild
    exact hget

/-- One entry is written to a channel that is there. -/
theorem writeEntry {name : String} (hm : m.Framed) (hkey : m.HasChannel key)
    (hname : name ≠ "frame") :
    Matches m (write .channels [key, name] value) (write .channels [key, name] value)
      fun _ m' => m'.HasChannel key ∧ m'.channels.getPath [key, name] = some value := by
  refine (writeChannel hm fun child hchild => ?_).imp ?_
  · obtain ⟨v, hv⟩ := hkey
    obtain ⟨_, _, _, hget⟩ := Nbt.setPath_cons hchild
    rw [hget, if_neg hname, hv]
    exact hm.2 key v hv
  · rintro _ m' _ ⟨child, hchild, hget⟩
    obtain ⟨value', hvalue, _, hentries⟩ := Nbt.setPath_cons hchild
    obtain rfl := Option.some.inj hvalue
    refine ⟨⟨child, hget⟩, ?_⟩
    rw [Nbt.getPath_pair, hget]
    show child.get? name = some value
    rw [hentries, if_pos rfl]

end Matches

/-! ### Routines -/

end Run

/-- Two ways of executing units do the same for units that are called with a channel that is
    there. -/
def Executor.Matches (p : Program) (call call' : Executor) : Prop :=
  ∀ name key m, m.program = p → m.Framed → m.HasChannel key →
    Run.Matches m (call name (some key)) (call' name (some key)) fun _ _ => True

namespace Run

variable {m : Machine}

section

variable {p : Program} {call call' : Executor} (hcall : Executor.Matches p call call')
  (hp : m.program = p) (hm : m.Framed)

include hcall hp hm

theorem invokeFunction_matches {callee : Nbt} (hkey : m.HasChannel key) :
    Alike m (invokeFunction call callee key) (invokeFunction call' callee key) := by
  unfold invokeFunction
  split
  · exact .pure hm trivial
  · refine .look hm unitOf_looks fun unit _ => .look hm boundThis_looks fun bound _ => ?_
    cases bound with
    | none => exact hcall unit key m hp hm hkey
    | some that =>
      refine (Matches.writeEntry hm hkey (by decide)).bind fun _ m1 h1 ⟨hkey1, _⟩ => ?_
      exact hcall unit key m1 (h1.program.trans hp) h1.framed hkey1

theorem callListener_matches {listener : Nbt} :
    Alike m (callListener call key value listener) (callListener call' key value listener) := by
  refine (Matches.writeFrame _ _ hm).bind fun _ m1 h1 hkey => ?_
  refine (invokeFunction_matches hcall (h1.program.trans hp) h1.framed ⟨_, hkey⟩).bind
    fun _ m2 h2 _ => .pure h2.framed trivial

omit hp hm in
theorem eachElement_matches {address unit : String} (rounds : Nat) :
    ∀ {m : Machine} (index : Nat), m.program = p → m.Framed →
      Alike m (eachElement call address unit key rounds index)
        (eachElement call' address unit key rounds index) := by
  induction rounds with
  | zero => exact fun _ _ hm => .throw hm
  | succ rounds ih =>
    intro m index hp hm
    refine .get ?_
    cases (m.elements address)[index]? with
    | none => exact .pure hm trivial
    | some element =>
      refine (Matches.writeFrame _ _ hm).bind fun _ m1 h1 hkey => ?_
      have hp1 := h1.program.trans hp
      refine (hcall unit key m1 hp1 h1.framed ⟨_, hkey⟩).bind fun code m2 h2 _ => ?_
      split
      · exact .pure h2.framed trivial
      · split
        · exact .pure h2.framed trivial
        · exact ih (index + 1) (h2.program.trans hp1) h2.framed

theorem loopArrayRoutine_matches (a : Args) :
    Alike m (loopArrayRoutine call a) (loopArrayRoutine call' a) := by
  refine .look hm valueArgument_looks fun array _ => ?_
  split
  · refine .look hm argument_looks fun function _ => .look hm unitOf_looks fun unit _ => ?_
    refine .look hm argument_looks fun channel _ => ?_
    exact eachElement_matches hcall _ 0 hp hm
  · exact .pure hm trivial

theorem resolvePromiseRoutine_matches (a : Args) :
    Alike m (resolvePromiseRoutine call a) (resolvePromiseRoutine call' a) := by
  refine .look hm valueArgument_looks fun promise _ => ?_
  cases promise with
  | scalar value => exact .pure hm trivial
  | reference kind address =>
    refine .look hm promise?_looks fun state _ => ?_
    dsimp only
    split
    · refine .look hm slotArgument_looks fun value _ => ?_
      refine (Matches.of_spares (.writeHeap _ _) hm).bind fun _ m1 h1 _ => ?_
      refine .look h1.framed argument_looks fun channel _ => ?_
      refine .forM h1.framed fun listener _ m2 h2 => ?_
      exact callListener_matches hcall ((h1.trans h2).program.trans hp) h2.framed
    · exact .pure hm trivial

theorem awaitPromiseRoutine_matches (a : Args) :
    Alike m (awaitPromiseRoutine call a) (awaitPromiseRoutine call' a) := by
  refine .look hm slotArgument_looks fun awaited _ => .look hm slotArgument_looks
    fun listener _ => ?_
  refine .look hm argument_looks fun channel _ => .look hm awaitedPromise_looks fun found _ => ?_
  cases found with
  | none => exact callListener_matches hcall hp hm
  | some pair =>
    dsimp only
    split
    · exact callListener_matches hcall hp hm
    · exact (Matches.of_spares (.append _ _) hm).imp fun _ _ _ _ => trivial

/-- A routine calls units with channels that are there. The one that calls a function takes the
    channel from its arguments. -/
theorem routine_matches
    (hchannel : r = .callFunction → ∀ key, a.text? "channel" = some key → m.HasChannel key) :
    Alike m (routine call a r) (routine call' a r) := by
  have hsame : ¬ r.Calls → routine call' a r = routine call a r := by
    cases r <;> simp [Routine.Calls, routine]
  cases r with
  | loopArray => exact loopArrayRoutine_matches hcall hp hm a
  | callFunction =>
    refine .look hm slotArgument_looks fun callee _ => .look hm argument_looks fun key hkey => ?_
    exact invokeFunction_matches hcall hp hm (hchannel rfl key hkey)
  | resolvePromise => exact (resolvePromiseRoutine_matches hcall hp hm a).normally
  | awaitPromise => exact (awaitPromiseRoutine_matches hcall hp hm a).normally
  | _ =>
    rw [hsame id]
    exact (Matches.of_spares (routine_spares call id) hm).imp fun _ _ _ _ => trivial

end

end Run

end PackScript
