import PackScript.Proofs.Machine.Alarm
import PackScript.Proofs.Uses.Reached

namespace PackScript

/-!
# Functions that are entered again

All calls of a function share its slots, so the compiler refuses calls by name between top-level
functions that lead back to where they started.

* `Frame.returnsTo`, `Check.reentering` — a top-level function is entered again while it runs, and
  only units that are entered by their names are in between.
* `Uses.not_enters_circle` — the units of a program do not enter each other in such a circle.
* `calls_by_name_never_reenter` — so this never happens, if function names are declared as such only
  and no two functions share a unit.
* `variable_function_reenters` — it does happen for a function whose name is also that of a
  variable.
-/

/-! ### Frames -/

/-- The unit is executed in one of the frames, and only units that were entered by their names are
    above it. -/
def Frame.returnsTo (unit : String) : List Frame → Bool
  | [] => false
  | f :: rest => f.unit = unit || (f.direct && returnsTo unit rest)

/-- Ends a run where a top-level function is entered by its name, and is already executed outside of
    units that were all entered by their names. -/
def Check.reentering (p : Program) (e : MachineError) : Check := fun frames _ _ =>
  match frames with
  | [] => none
  | f :: rest =>
    if p.functions.any (·.2.unit = f.unit) && f.direct && Frame.returnsTo f.unit rest then some e
    else none

theorem Check.reentering_raises (p : Program) (e : MachineError) :
    (Check.reentering p e).Raises e := by
  intro frames is m e' h
  unfold reentering at h
  split at h
  · cases h
  · split at h
    · exact (Option.some.inj h).symm
    · cases h

/-- Units that were entered by their names follow the code of the units that they were entered
    from. -/
def Uses.Linked (G : Uses) : List Frame → Prop
  | [] => True
  | [f] => f.direct = false
  | f :: g :: rest => (f.direct = true → G.Enters g.unit f.unit) ∧ Linked G (g :: rest)

section

variable {G : Uses}

/-- A frame that leads back to a unit is entered from it, perhaps through others. -/
theorem Uses.Linked.path {unit : String} {f : Frame} {rest : List Frame}
    (h : G.Linked (f :: rest)) (hdirect : f.direct = true)
    (hreturns : Frame.returnsTo unit rest = true) :
    Relation.TransGen G.Enters unit f.unit := by
  induction rest generalizing f with
  | nil => cases hreturns
  | cons g rest ih =>
    have hlast := h.1 hdirect
    simp only [Frame.returnsTo, Bool.or_eq_true, Bool.and_eq_true, decide_eq_true_eq] at hreturns
    rcases hreturns with rfl | ⟨hg, hreturns⟩
    · exact .single hlast
    · exact (ih h.2 hg hreturns).tail hlast

/-! ### Calls between functions -/

/-- No two top-level functions share a unit, and their names are declared as functions only. -/
structure Uses.Plain (G : Uses) : Prop where
  unit : ∀ f g sig sig', G.function f sig → G.function g sig' → sig.unit = sig'.unit → f = g
  body : ∀ f sig, G.function f sig → G.unit sig.unit = some (.declared sig.unit)
  kind : ∀ f sig kind loop, G.function f sig →
    G.slot sig.binding = some (.variable_ kind loop) → kind = .function

theorem Uses.Plain.owned_unique (h : G.Plain) {name : String} {owner owner' : Option String}
    (hname : G.Owned name owner) (hname' : G.Owned name owner') : owner = owner' := by
  obtain ⟨u, hu, howner⟩ := hname
  obtain ⟨u', hu', howner'⟩ := hname'
  obtain rfl := Option.some.inj (hu.symm.trans hu')
  rcases howner with howner | ⟨hnone, f, sig, rfl, hf, hunit⟩
  · rcases howner' with howner' | ⟨hnone', _⟩
    · exact Option.some.inj (howner.symm.trans howner')
    · rw [howner] at hnone'
      cases hnone'
  · rcases howner' with howner' | ⟨_, g, sig', rfl, hg, hunit'⟩
    · rw [howner'] at hnone
      cases hnone
    · exact congrArg some (h.unit f g sig sig' hf hg (hunit.trans hunit'.symm))

/-- The unit of a top-level function is a piece of that function. -/
theorem Uses.Plain.owned (h : G.Plain) {f : String} {sig : Signature} (hf : G.function f sig) :
    G.Owned sig.unit (some f) :=
  ⟨_, h.body f sig hf, .inr ⟨rfl, f, sig, rfl, hf, rfl⟩⟩

/-- A piece of a top-level function enters another piece, or a function that it calls. -/
theorem Uses.Plain.enters (h : G.Plain) {unit name f : String} (hunit : G.Owned unit (some f))
    (henters : G.Enters unit name) :
    (G.Owned name (some f) ∧ ∃ u, G.unit name = some u ∧ u.isPart = true) ∨
      ∃ g sig, G.function g sig ∧ sig.unit = name ∧ G.calls f g := by
  obtain ⟨owner, howned, hpart | ⟨_, g, sig, hg, hname, hcall⟩⟩ := henters
  · left
    obtain rfl := h.owned_unique hunit howned
    obtain ⟨u, hu, hisPart, howner, _⟩ := hpart
    exact ⟨⟨u, hu, .inl howner⟩, u, hu, hisPart⟩
  · right
    obtain rfl := h.owned_unique hunit howned
    refine ⟨g, sig, hg, hname, (hcall f rfl).resolve_right ?_⟩
    rintro ⟨kind, loop, hslot, hne⟩
    exact hne (h.kind g sig kind loop hg hslot)

/-- What a top-level function leads to is a piece of a function that its calls lead to. -/
theorem Uses.Plain.reaches (h : G.Plain) {unit name f : String} (hunit : G.Owned unit (some f))
    (hpath : Relation.ReflTransGen G.Enters unit name) :
    ∃ g, G.Owned name (some g) ∧ Relation.ReflTransGen G.calls f g := by
  induction hpath with
  | refl => exact ⟨f, hunit, .refl⟩
  | tail _ hlast ih =>
    obtain ⟨g, howned, hcalls⟩ := ih
    rcases h.enters howned hlast with ⟨howned', _⟩ | ⟨g', sig, hg', rfl, hcall⟩
    · exact ⟨g, howned', hcalls⟩
    · exact ⟨g', h.owned hg', hcalls.tail hcall⟩

/-- The unit of a top-level function does not lead back to itself, if calls do not. -/
theorem Uses.not_enters_circle (h : G.Plain) (hacyclic : ∀ f, ¬ Relation.TransGen G.calls f f)
    {f : String} {sig : Signature} (hf : G.function f sig) :
    ¬ Relation.TransGen G.Enters sig.unit sig.unit := by
  intro hcircle
  obtain ⟨name, hpath, hlast⟩ := Relation.TransGen.tail'_iff.1 hcircle
  obtain ⟨g, howned, hcalls⟩ := h.reaches (h.owned hf) hpath
  -- the unit is no part of another one, so the last step is a call of the function
  rcases h.enters howned hlast with ⟨_, u, hu, hpart⟩ | ⟨f', sig', hf', hunit, hcall⟩
  · obtain rfl := Option.some.inj ((h.body f sig hf).symm.trans hu)
    cases hpart
  · obtain rfl := h.unit f' f sig' sig hf' hf hunit
    exact hacyclic f' (.tail' hcalls hcall)

end

/-! ### Runs -/

theorem Uses.Linked.called {G : Uses} {frames : List Frame} (h : G.Linked frames) (name : String) :
    G.Linked (⟨name, false⟩ :: frames) := by
  cases frames with
  | nil => exact rfl
  | cons g rest => exact ⟨nofun, h⟩

theorem Uses.Linked.entered {G : Uses} {f : Frame} {frames : List Frame} {name : String}
    (h : G.Linked (f :: frames)) (henters : G.Enters f.unit name) :
    G.Linked (⟨name, true⟩ :: f :: frames) :=
  ⟨fun _ => henters, h⟩

/-- A run with an alarm that goes off when a top-level function is entered again is the run itself:
    the alarm does not go off. Here the function is entered again by its name, from a unit that it
    has led to by names only. The sources are ones without a report, in which the names of top-level
    functions are those of functions only and no two of them share a unit. The error of the alarm is
    one that no run ends with otherwise. -/
theorem calls_by_name_never_reenter (ns : String) (texts : List String) (maxDepth : Nat)
    (hclean : (compileSources ns texts).diagnostics = [])
    (hnames : ∀ e ∈ (compileSources ns texts).program.functions,
      ((Compiler.after ns texts).globalBinding? e.1).map (·.kind) = some .function)
    (hunits : ∀ e ∈ (compileSources ns texts).program.functions,
      ∀ e' ∈ (compileSources ns texts).program.functions, e.2.unit = e'.2.unit → e.1 = e'.1)
    (before : List HostStep) (step : HostStep) :
    step.runBy (Run.watched (.reentering (compileSources ns texts).program
        (.depthExceeded (maxDepth + 1))))
        (before.foldl Machine.after (.start (compileSources ns texts).program maxDepth)) =
      step.run
        (before.foldl Machine.after (.start (compileSources ns texts).program maxDepth)) := by
  obtain ⟨G, hp, htop, _, htracked⟩ := compileSources_orderly ns texts
  obtain ⟨hfunctions, hacyclic⟩ := htracked hclean
  have hplain : G.Plain :=
    { unit := fun f g sig sig' hf hg hunit =>
        hunits _ (Table.mem_of_find? (hfunctions f sig hf)) _
          (Table.mem_of_find? (hfunctions g sig' hg)) hunit
      body := fun f sig hf => (hp.functions _ (Table.mem_of_find? (hfunctions f sig hf))).2.1
      kind := fun f sig kind loop hf hslot => by
        have horderly := htop.orderly ((Compiler.after ns texts).terms True)
        have hmem := Table.mem_of_find? (hfunctions f sig hf)
        obtain ⟨b, hb, hbinding⟩ := horderly.declared _ hmem
        have hkind := (horderly.own hb).slot
        rw [hbinding, hslot] at hkind
        have hsame : kind = b.kind := by
          cases hkind
          rfl
        have hfunction := hnames _ hmem
        rw [hb] at hfunction
        exact hsame.trans (Option.some.inj hfunction) }
  generalize (compileSources ns texts).program = p at *
  have hquiet : ∀ frames is m, G.Linked frames →
      Check.reentering p (.depthExceeded (maxDepth + 1)) frames is m = none := by
    intro frames is m hlinked
    cases frames with
    | nil => rfl
    | cons f rest =>
      refine if_neg fun hends => ?_
      simp only [Bool.and_eq_true, List.any_eq_true, decide_eq_true_eq] at hends
      obtain ⟨⟨⟨e, he, hunit⟩, hdirect⟩, hreturns⟩ := hends
      have hcircle := hlinked.path hdirect hreturns
      rw [← hunit] at hcircle
      exact Uses.not_enters_circle hplain hacyclic (hp.functions e he).1 hcircle
  obtain ⟨-, hends⟩ := step.runBy_ne_alarm _ G.Linked (fun _ name hframes _ => hframes.called name)
    (fun _ _ _ => .entered) hquiet hp trivial maxDepth before
  exact (step.runBy_sameUnless (Check.reentering_raises p _) _).resolve_right hends

/-- A function that is called in a loop of another one, and by the part of it that comes after. -/
def nestedText : String :=
  "function f(a) \x7b return a; \x7d\n" ++
  "function g(a) \x7b for (const x of a) \x7b f(x); \x7d return f(a); \x7d\n" ++
  "g([true, false]);\n"

theorem calls_by_name_never_reenter_nested :
    (compileSources "pack" [nestedText]).diagnostics = [] ∧
    (∀ e ∈ (compileSources "pack" [nestedText]).program.functions,
      ((Compiler.after "pack" [nestedText]).globalBinding? e.1).map (·.kind) = some .function) ∧
    (∀ e ∈ (compileSources "pack" [nestedText]).program.functions,
      ∀ e' ∈ (compileSources "pack" [nestedText]).program.functions,
        e.2.unit = e'.2.unit → e.1 = e'.1) ∧
    (HostStep.call "g" [.null]).runBy (Run.watched (.reentering
        (compileSources "pack" [nestedText]).program (.depthExceeded 513)))
        ([HostStep.entry].foldl Machine.after
          (.start (compileSources "pack" [nestedText]).program 512)) =
      (HostStep.call "g" [.null]).run ([HostStep.entry].foldl Machine.after
        (.start (compileSources "pack" [nestedText]).program 512)) := by
  have hclean : (compileSources "pack" [nestedText]).diagnostics = [] := by decide +kernel
  have hnames : ∀ e ∈ (compileSources "pack" [nestedText]).program.functions,
      ((Compiler.after "pack" [nestedText]).globalBinding? e.1).map (·.kind) = some .function := by
    decide +kernel
  have hunits : ∀ e ∈ (compileSources "pack" [nestedText]).program.functions,
      ∀ e' ∈ (compileSources "pack" [nestedText]).program.functions,
        e.2.unit = e'.2.unit → e.1 = e'.1 := by
    decide +kernel
  exact ⟨hclean, hnames, hunits,
    calls_by_name_never_reenter "pack" _ 512 hclean hnames hunits [.entry] _⟩

/-- A function that calls itself, under a name that is declared as a variable too. -/
def variableFunctionText : String :=
  "var f; function f(n) \x7b if (n) \x7b return f(false); \x7d return 1; \x7d"

/-- Nothing is reported, and the function is entered again while it runs. -/
theorem variable_function_reenters :
    (compileSources "pack" [variableFunctionText]).diagnostics = [] ∧
    Run.error? ((HostStep.call "f" [.boolean true]).runBy (Run.watched (.reentering
      (compileSources "pack" [variableFunctionText]).program (.depthExceeded 513)))
        ([HostStep.entry].foldl Machine.after
          (.start (compileSources "pack" [variableFunctionText]).program 512))) =
      some (.depthExceeded 513) := by
  decide +kernel

end PackScript
