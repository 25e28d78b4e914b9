import PackScript.Proofs.HeldValues

namespace PackScript

/-!
# Calls that wait

An asynchronous function keeps its promise and its parameters in slots that all its calls share. A
call that waits in an `await` finds them again later, if they are not written in between.

* `Uses.Writable` — which slots the code of a unit may write at all.
* `Tidy.sparing`, `guards_sparing` — runs of code that may not write a slot leave it as it is.
* `waiting_calls_keep_their_promise` — nothing but a further call of the same function changes its
  promise, and nothing but code that assigns to a variable changes the variable.
* `overlapping_calls_share_a_promise` — a further call that overlaps does change it.
-/

/-! ### Slots that a unit may write -/

/-- The instruction writes a place, other than by a call. -/
def Instr.isWrite : Instr → Bool
  | .set _ _ _ | .append _ _ => true
  | _ => false

namespace Uses

/-- What is written by the code of a unit: results of the function that it is a piece of, and the
    promise only by the body of the function. Variables are written by some instructions only. -/
def Writable (G : Uses) (site : Site) (i : Instr) (s : Slot) : Prop :=
  match G.slot s with
  | some (.variable_ _ _) => i.isWrite = true
  | some (.result root) | some (.scalar root _) | some (.flag root) => root = site.root
  | some (.promise root) => root = site.root ∧ site.unit = root
  | some .listener | some .code | some .address => True
  | none => False

section

variable {G : Uses} {site : Site} {writes : Slot → Prop} {a b : Option Slot} {is : List Instr}
  {i : Instr} {s : Slot}

theorem Within.imp {writes writes' : Slot → Prop} (h : G.Within writes i)
    (himp : ∀ s, writes s → writes' s) : G.Within writes' i := by
  cases i with
  | set guard target source | append target source => exact fun s hs => himp s (h s hs)
  | invoke guard callee channel store =>
    refine ⟨fun c hc => ?_, fun p s hp hs => himp s (h.2 p s hp hs)⟩
    obtain ⟨use, huse, htarget⟩ := h.1 c hc
    exact ⟨use, huse, fun s hs => himp s (htarget s hs)⟩
  | _ => trivial

theorem Takes.writable (h : G.Takes site.root s) (hi : i.isWrite = true) : G.Writable site i s := by
  unfold Writable
  rcases h with ⟨kind, loop, h⟩ | h
  · rw [h]
    exact hi
  · rw [h]

theorem Target.writable (h : G.Target site s) : G.Writable site i s := by
  unfold Writable
  rcases h with h | ⟨h, hunit⟩
  · rw [h]
  · rw [h]
    exact ⟨rfl, hunit⟩

theorem Piece.within (h : G.Piece site writes a is) :
    ∀ i ∈ is, G.Within (G.Writable site i) i := by
  intro i hi
  -- what a channel is filled with is written to no slot
  have hfill : ∀ {c entries}, i ∈ fillCode c entries → G.Within (G.Writable site i) i := by
    intro c entries hi
    rcases mem_fillCode hi with rfl | ⟨e, _, rfl⟩
    · exact nofun
    · exact nofun
  have hcall : ∀ {guard callee c use}, G.channel c = some use →
      (∀ s, use.target? = some s → G.Target site s) → i = .invoke guard callee (some c) none →
      G.Within (G.Writable site i) i := by
    rintro guard callee c use hc htarget rfl
    refine ⟨?_, nofun⟩
    rintro _ ⟨⟩
    exact ⟨use, hc, fun s hs => (htarget s hs).writable⟩
  have hresult : ∀ {result s}, G.slot result = some (.result site.root) → some result = some s →
      G.Target site s := fun hs heq => .inl (Option.some.inj heq ▸ hs)
  cases h with
  | value _ hs _ _ _ =>
    rw [List.mem_singleton.1 hi]
    rintro s ⟨⟩
    exact hs.writable rfl
  | flag hs _ _ | raised _ hs _ _ | listener hs _ _ | code hs _ _ =>
    rw [List.mem_singleton.1 hi]
    rintro s ⟨⟩
    simp [Writable, hs]
  | record _ _ | property _ _ =>
    rw [List.mem_singleton.1 hi]
    exact nofun
  | returnIf _ _ | returnWith _ | raw =>
    rw [List.mem_singleton.1 hi]
    trivial
  | scalar hs _ _ =>
    rcases List.mem_cons.1 hi with rfl | hi
    · rintro s ⟨⟩
      simp [Writable, hs]
    · obtain ⟨e, _, rfl⟩ := List.mem_map.1 hi
      rintro s ⟨⟩
      simp [Writable, hs]
  | library hc htarget _ =>
    rcases List.mem_append.1 hi with hi | hi
    · exact hfill hi
    · exact hcall hc (fun s hs => (htarget s hs).1) (List.mem_singleton.1 hi)
  | call hc hs _ _ _ _ _ =>
    rcases List.mem_append.1 hi with hi | hi
    · exact hfill hi
    · exact hcall hc (fun _ => hresult hs) (List.mem_singleton.1 hi)
  | through hc hd hs _ _ _ =>
    rcases List.mem_append.1 hi with hi | hi
    · exact hfill hi
    · rcases List.mem_append.1 hi with hi | hi
      · exact hfill hi
      · exact hcall hd (fun _ => hresult hs) (List.mem_singleton.1 hi)
  | part _ _ _ hstore =>
    rw [List.mem_singleton.1 hi]
    refine ⟨nofun, fun p s hp hs => ?_⟩
    obtain ⟨s', rfl, huse, _⟩ := hstore p hp
    cases hs
    simp [Writable, huse]
  | each hc _ _ _ _ hs _ =>
    rcases List.mem_append.1 hi with hi | hi
    · exact hfill hi
    · rcases List.mem_pair.1 hi with rfl | rfl
      · rintro s ⟨⟩
        simp [Writable, hs]
      · refine ⟨?_, ?_⟩
        · rintro c ⟨⟩
          exact ⟨_, hc, nofun⟩
        · rintro p s ⟨⟩ ⟨⟩
          simp [Writable, hs]
  | @answer c d s hc _ _ _ _ =>
    have hcode : answerCode c d s = fillCode c [("target", .valueOf d), ("source", .addressOf s)] ++
        [.invoke .always (.library .setVariable) (some c) none] := rfl
    rcases List.mem_append.1 (hcode ▸ hi) with hi | hi
    · exact hfill hi
    · exact hcall hc nofun (List.mem_singleton.1 hi)

theorem Pieces.within (h : G.Pieces site writes a is b) :
    ∀ i ∈ is, G.Within (G.Writable site i) i := by
  refine h.forall_mem (fun _ _ h => h.within) fun d hd => ⟨?_, ?_⟩
  · rintro s ⟨⟩
    simp [Writable, hd]
  · rintro s ⟨⟩
    simp [Writable, hd]

end

end Uses

/-! ### What is handed to the caller -/

/-- The key of the slot whose value the instruction prepares to hand to the caller. -/
def Instr.answered? : Instr → Option String
  | .set _ ⟨.channel _, ["source"]⟩ (.literal (.string key)) => some key
  | _ => none

theorem Instr.answered?_eq_some {i : Instr} {key : String} (h : i.answered? = some key) :
    ∃ guard c, i = .set guard (.entry c "source") (.text key) := by
  unfold answered? at h
  split at h
  · cases h
    exact ⟨_, _, rfl⟩
  · cases h

namespace Uses

variable {G : Uses} {site : Site} {writes : Slot → Prop} {a b : Option Slot} {is : List Instr}
  {i : Instr} {key : String}

/-- The arguments of other routines and functions have other names. -/
theorem EntryFits.ne_source {name : String} {source : Source} {use : ChannelUse}
    (h : G.EntryFits name source use) : name ≠ "source" := by
  rintro rfl
  cases use with
  | library r target =>
    have huse : r.argUse "source" = .foreign := by
      cases r <;> decide
    have hfits : G.ArgFits target (r.argUse "source") source := h
    rw [huse] at hfits
    exact hfits
  | answer d s => exact h
  | call result =>
    rcases h with ⟨hname, _⟩ | ⟨hname, _⟩
    · exact (valueEntry_ne hname).2.2.2.1 rfl
    · exact absurd hname (by decide)
  | each unit => simp [EntryFits] at h
  | filled => exact h

/-- An asynchronous function hands out its promise, and does so in its body. -/
theorem Piece.answered (hasync : site.isAsync = true) (h : G.Piece site writes a is) :
    ∀ i ∈ is, ∀ key, i.answered? = some key →
      ∃ a, key = a.key ∧ G.slot a = some (.promise site.root) ∧ site.unit = site.root := by
  intro i hi key hkey
  obtain ⟨guard, c, rfl⟩ := Instr.answered?_eq_some hkey
  have hfill : ∀ {c' entries use}, (∀ e ∈ entries, G.EntryFits e.1 e.2 use) →
      .set guard (.entry c "source") (.text key) ∉ fillCode c' entries := by
    intro c' entries use hfits hi
    rcases mem_fillCode hi with hi | ⟨e, he, hi⟩
    · simp [Place.entry, Place.channel] at hi
    · refine (hfits e he).ne_source ?_
      simp [Place.entry] at hi
      exact hi.2.1.2.symm
  cases h with
  | library _ _ hentries =>
    exact (List.mem_append.1 hi).elim (absurd · (hfill hentries.fits)) (by simp)
  | call _ _ _ hentries _ _ _ =>
    exact (List.mem_append.1 hi).elim (absurd · (hfill hentries.entryFits)) (by simp)
  | through hc _ hresult _ hentries hcallee =>
    refine (List.mem_append.1 hi).elim (absurd · (hfill hentries.entryFits)) fun hi => ?_
    exact (List.mem_append.1 hi).elim
      (absurd · (hfill (throughEntries_fit hc hresult hcallee.isValue))) (by simp)
  | each _ hd harray _ _ _ _ =>
    exact (List.mem_append.1 hi).elim (absurd · (hfill (eachEntries_fit hd harray.isValue)))
      (by simp [Place.entry, Place.slot])
  | @answer c' d a _ _ _ _ hpromise =>
    have hanswer : guard = .always ∧ c = c' ∧ key = a.key := by
      simpa [Place.entry, Place.channel, Source.addressOf, Source.valueOf, Source.text] using hi
    exact ⟨a, hanswer.2.2, hpromise hasync⟩
  | _ => simp [Place.entry, Place.slot, Place.field, Place.record] at hi

end Uses

/-! ### Runs that leave a slot alone -/

/-- Ends a run before the slot is assigned to. -/
def Check.assigning (s : Slot) : Check := fun _ is _ =>
  match is with
  | .set _ target _ :: _ | .append target _ :: _ =>
    if target.address = .slot s then some .endlessLoop else none
  | _ => none

/-- The uses, and that a slot is not written. -/
def Limits.sparing (G : Uses) (p : Program) (a : Slot) : Limits :=
  { Limits.ofUses G p with spared := some a }

section

variable {G : Uses} {p : Program} {n : Nat} {m m' : Machine} {a : Slot}

/-- What is held in slots, channels and records has nothing to do with the slot. -/
theorem Tidy.sparing (h : Tidy (.ofUses G p) n m) : Tidy (.sparing G p a) n m where
  program := h.program
  ns := h.ns
  slots := h.slots.mono fun _ _ hv => ⟨hv.holds, hv.refers⟩
  channels := h.channels.mono fun _ _ hw => hw.mono fun _ _ hv => ⟨hv.value, hv.returned, hv.holds⟩
  heap := h.heap
  scheduled := h.scheduled
  maxDepth := ⟨nofun, h.maxDepth.fault⟩
  next := h.next
  base := h.base
  handed := h.handed
  complete := h.complete

theorem lenient_sparing (G : Uses) (p : Program) (a : Slot) : (Limits.sparing G p a).Lenient :=
  ⟨rfl, id⟩

/-- A slot is not written in runs with a check that ends them before every instruction that may. -/
theorem guards_sparing {check : Check}
    (h : ∀ name u, p.units.find? name = some u → ∀ i ∈ u.instrs, ∀ f frames, f.unit = name →
      G.Within (· ≠ a) i ∨ ∀ rest m, check (f :: frames) (i :: rest) m ≠ none) :
    Guards (.sparing G p a) check fun _ => True where
  called _ _ _ _ := trivial
  entered _ _ _ _ _ := trivial
  quiet _ _ _ e _ _ := (lenient_sparing G p a).quiet e
  permits name u hu i hi f frames hf := by
    refine (h name u hu i hi f frames hf).imp_left
      fun hwithin => ⟨?_, fun _ _ _ _ => .inl fun _ => trivial⟩
    rintro _ ⟨⟩
    exact hwithin

/-- Whatever comes after a machine that is reached leaves the slot as it is. -/
theorem Machine.Onward.slot_eq {check : Check} {maxDepth : Nat} (hp : ProgramOrderly G p)
    (hm : m.Reached p maxDepth)
    (h : ∀ name u, p.units.find? name = some u → ∀ i ∈ u.instrs, ∀ f frames, f.unit = name →
      G.Within (· ≠ a) i ∨ ∀ rest m, check (f :: frames) (i :: rest) m ≠ none)
    (honward : m.Onward check m') : m'.slots.get? a.key = m.slots.get? a.key := by
  obtain ⟨n, htidy⟩ := hm.tidy hp
  obtain ⟨n', hproceeds⟩ :=
    honward.proceeds hp (guards_sparing h) trivial (lenient_sparing G p a) htidy.sparing
  exact hproceeds.spared a rfl

end

/-! ### Promises and variables -/

section

variable {G : Uses} {p : Program} {m m' : Machine} {maxDepth : Nat}

/-- The promise of a function is written by the body of the function only. -/
theorem ProgramOrderly.promise_within {a : Slot} {root : String} (hp : ProgramOrderly G p)
    (ha : G.slot a = some (.promise root)) {e : String × CodeUnit} (he : e ∈ p.units)
    (hne : e.1 ≠ root) {i : Instr} (hi : i ∈ e.2.instrs) : G.Within (· ≠ a) i := by
  obtain ⟨site, _, hunit, _, _, hcode⟩ := hp.units e he
  refine (hcode.code.within i hi).imp fun s hs => ?_
  rintro rfl
  rw [Uses.Writable, ha] at hs
  exact hne (hunit.symm.trans hs.2)

/-- No call writes a variable, whatever is called. -/
theorem ProgramOrderly.variable_within {s : Slot} {kind : BindingKind} {loop : Option Nat}
    (hp : ProgramOrderly G p) (hs : G.slot s = some (.variable_ kind loop))
    {e : String × CodeUnit} (he : e ∈ p.units) {i : Instr} (hi : i ∈ e.2.instrs) (f : Frame)
      (frames : List Frame) :
    G.Within (· ≠ s) i ∨ ∀ rest m, Check.assigning s (f :: frames) (i :: rest) m ≠ none := by
  obtain ⟨site, _, _, _, _, hcode⟩ := hp.units e he
  have hwithin := hcode.code.within i hi
  cases i with
  | set guard target source | append target source =>
    by_cases htarget : target.address = .slot s
    · exact .inr fun rest m => by simp [Check.assigning, htarget]
    · refine .inl fun s' hs' => ?_
      rintro rfl
      exact htarget hs'
  | _ =>
    refine .inl (hwithin.imp fun s' hs' => ?_)
    rintro rfl
    simp [Uses.Writable, hs, Instr.isWrite] at hs'

end

/-- At every moment, whatever is done with the machine of a compiled program from then on: the
    promise that an asynchronous function hands to its callers stays the same until the function
    itself is entered again, also when the rest of the function goes on after an `await`; and a
    variable, such as a parameter of the function, keeps its value until an instruction assigns to
    it. -/
theorem waiting_calls_keep_their_promise (ns : String) (texts : List String) (maxDepth : Nat)
    {m : Machine} (hm : m.Reached (compileSources ns texts).program maxDepth) :
    (∀ name u i key, (name, u) ∈ (compileSources ns texts).program.units →
      u.info.isAsync = true → i ∈ u.instrs → i.answered? = some key →
      ∀ m', m.Onward (.entering name) m' → m'.slots.get? key = m.slots.get? key) ∧
    (∀ s : Slot, IsVariableKey ns texts s.key →
      ∀ m', m.Onward (.assigning s) m' → m'.slots.get? s.key = m.slots.get? s.key) := by
  obtain ⟨G, hp, htop, _⟩ := compileSources_orderly ns texts
  constructor
  · intro name u i key hu hasync hi hkey m' honward
    obtain ⟨site, _, rfl, hsite, _, hcode⟩ := hp.units _ hu
    obtain ⟨a, rfl, hpromise, hroot⟩ := hcode.code.forall_mem
      (fun _ _ h => h.answered (hsite.trans hasync)) (fun _ _ => ⟨nofun, nofun⟩) i hi key hkey
    refine honward.slot_eq hp hm fun name u hu i hi f frames hf => ?_
    by_cases hname : name = site.unit
    · exact .inr fun rest m => by simp [Check.entering, hf, hname]
    · exact .inl (hp.promise_within hpromise (Table.mem_of_find? hu) (hroot ▸ hname) hi)
  · rintro s ⟨t, ht, e, he, hkey⟩ m' honward
    obtain rfl := Slot.key_injective hkey
    exact honward.slot_eq hp hm fun _ _ hu i hi f frames _ =>
      hp.variable_within (htop.binding ht he) (Table.mem_of_find? hu) hi f frames

/-- A call waits while another function is called that waits as well, and both go on. -/
def waitingText : String :=
  "let p = \x7b\x7d;\n__initPromise(p);\n" ++
  "async function f(k) \x7b await p; return k; \x7d\n" ++
  "async function g() \x7b await p; \x7d\n" ++
  "function other() \x7b g(); __resolvePromise(p, \"\"); \x7d\n" ++
  "let a = f(\"a\");\n"

/-- The text that a value has for a payload. -/
def Nbt.payloadText? (v : Nbt) : Option String :=
  (v.get? "value").bind text?

/-- The text that the promise in a record is resolved with. -/
def Machine.resolvedText? (m : Machine) (address : String) : Option String := do
  let state ← (← m.record? address).get? "promise"
  if isResolved state then (← state.get? "value").payloadText? else none

/-- The promise of the first call is the same when the rest of the function resolves it. -/
theorem waiting_calls_keep_their_promise_resolved :
    ∃ m m' : Machine, m.Reached (compileSources "pack" [waitingText]).program 512 ∧
      m.Onward (.entering "f") m' ∧ m'.slots.get? "s8" = m.slots.get? "s8" ∧
      (m.slots.get? "s8").bind Nbt.payloadText? = some "h7" ∧
      m.resolvedText? "h7" = none ∧ m'.resolvedText? "h7" = some "a" := by
  have hunits : (compileSources "pack" [waitingText]).program.units.any (fun e =>
      e.1 = "f" && e.2.info.isAsync && e.2.instrs.any fun i => i.answered? = some "s8") = true := by
    decide +kernel
  obtain ⟨⟨name, u⟩, hu, hunit⟩ := List.any_eq_true.1 hunits
  simp only [Bool.and_eq_true, decide_eq_true_eq, List.any_eq_true] at hunit
  obtain ⟨⟨rfl, hasync⟩, i, hi, hkey⟩ := hunit
  have hm := Machine.reached_afterAll (compileSources "pack" [waitingText]).program 512 [.entry]
  have honward := Machine.onward_afterBy (.entering "f") .never
    ([HostStep.entry].foldl Machine.after (.start (compileSources "pack" [waitingText]).program
      512))
    (.call "other" [])
  exact ⟨_, _, hm, honward,
    (waiting_calls_keep_their_promise "pack" _ 512 hm).1 "f" u i "s8" hu hasync hi hkey _ honward,
    by decide +kernel⟩

/-- Two calls of one function wait at the same time, each for a promise of its own. -/
def overlappingText : String :=
  "let pa = \x7b\x7d; let pb = \x7b\x7d;\n__initPromise(pa); __initPromise(pb);\n" ++
  "async function f(p, k) \x7b await p; return k; \x7d\n" ++
  "let a = f(pa, \"a\"); let b = f(pb, \"b\");\n" ++
  "let va = \"\"; let vb = \"\";\n" ++
  "__thenPromise(a, (v) => \x7b va = v; \x7d);\n" ++
  "__thenPromise(b, (v) => \x7b vb = v; \x7d);\n" ++
  "__resolvePromise(pa, \"\"); __resolvePromise(pb, \"\");\n"

/-- Both calls have gone on to their end, and the promise of the first one is not resolved. The
    promise of the second one is resolved where the first call goes on. -/
theorem overlapping_calls_share_a_promise :
    (compileSources "pack" [overlappingText]).diagnostics = [] ∧
    (((Machine.start (compileSources "pack" [overlappingText]).program 512).after .entry).global?
      "va").bind Nbt.payloadText? = some "" ∧
    (((Machine.start (compileSources "pack" [overlappingText]).program 512).after .entry).global?
      "vb").bind Nbt.payloadText? = some "b" := by
  decide +kernel

end PackScript
