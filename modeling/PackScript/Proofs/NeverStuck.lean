import PackScript.Proofs.Uses.Reached

namespace PackScript

/-!
# Compiled programs never get stuck

* `Limits.strict` — runs that keep to the uses of names, and in which no single step fails.
* `ProgramOrderly.not_isFault` — every run of a complete program is one.
* `never_stuck` — so on the machine of a compiled program each step of any sequence ends without an
  error, or stops since calls are too deep or a loop over an array does not end.

Two functions whose names are spelled alike share a unit. If the second one cannot be compiled, the
unit of the first is lost with it, and a call of the first gets stuck: `lost_unit_gets_stuck`.
-/

/-- The uses, and that no single step fails. -/
def Limits.strict (G : Uses) (p : Program) : Limits :=
  { Limits.ofUses G p with unfailing := True }

theorem MachineError.of_not_isFault {e : MachineError} (h : ¬ e.IsFault) :
    (∃ limit, e = .depthExceeded limit) ∨ e = .endlessLoop := by
  cases e with
  | depthExceeded limit => exact .inl ⟨limit, rfl⟩
  | endlessLoop => exact .inr rfl
  | unknownUnit name => exact absurd trivial h
  | storage path problem => exact absurd trivial h

/-- No step from outside fails since a single step does, whatever was done with the machine
    before. -/
theorem ProgramOrderly.not_isFault {G : Uses} {p : Program} (hp : ProgramOrderly G p)
    (hcomplete : G.Complete p) (maxDepth : Nat) {before : List HostStep} {step : HostStep}
    (hbefore : ∀ s ∈ before, s.offered p = true) (hstep : step.offered p = true)
    {e : MachineError} {m' : Machine}
    (hrun : step.run (before.foldl Machine.after (.start p maxDepth)) = .error e m') :
    ¬ e.IsFault := by
  have hguards : Guards (.strict G p) .never fun _ => True := guards_never rfl fun _ _ => trivial
  have hstart : Tidy (.strict G p) G.records (.start p maxDepth) :=
    Tidy.start hp.ns hp.records ⟨nofun, fun _ => id⟩ fun _ => hcomplete
  obtain ⟨n, hproceeds⟩ := hstart.afterAllBy hp hguards trivial before fun _ => hbefore
  rw [Machine.afterBy_never] at hproceeds
  have hkeeps := step.runBy_keeps hp hguards trivial hproceeds.tidy fun _ => hstep
  rw [step.runBy_watched_never] at hkeeps
  unfold Run.Keeps at hkeeps
  rw [hrun] at hkeeps
  obtain ⟨_, _, hquiet⟩ := hkeeps
  exact hquiet.fault trivial

/-- A compiled program never gets stuck, unless a function failed to compile after it had written
    over the unit of another one. Whatever was done with its machine before, and whether that failed
    or not, a step ends without an error, or calls were too deep, or a loop over an array did not
    end. -/
theorem never_stuck (ns : String) (texts : List String) (maxDepth : Nat) (before : List HostStep)
    (step : HostStep) (hkeeps : (Compiler.start ns).sourcesKeepUnits texts = true)
    (hoffered : ∀ s ∈ before ++ [step], s.offered (compileSources ns texts).program = true) :
    ∀ e m', step.run (before.foldl Machine.after
        (.start (compileSources ns texts).program maxDepth)) = .error e m' →
      (∃ limit, e = .depthExceeded limit) ∨ e = .endlessLoop := by
  intro e m' hrun
  obtain ⟨G, hp, _, hcomplete, _⟩ := compileSources_orderly ns texts
  exact MachineError.of_not_isFault (hp.not_isFault (hcomplete hkeeps) maxDepth
    (fun s hs => hoffered s (List.mem_append_left [step] hs)) (hoffered step (by simp)) hrun)

/-- Two functions that share a unit, where the call in the second one is without end, and a
    statement that cannot be compiled. -/
def sharingText : String :=
  "function ບ() \x7b return 1; \x7d\n" ++
  "function éa() \x7b return éa(); \x7d\n" ++
  "try \x7b\x7d catch (e) \x7b\x7d\n"

/-- The calls are too deep, also when the machine is used again after that. -/
theorem never_stuck_sharing :
    (Compiler.start "pack").sourcesKeepUnits [sharingText] = true ∧
    (∀ s ∈ [HostStep.call "ບ" [], .ticks 3] ++ [.call "ບ" [.null]],
      s.offered (compileSources "pack" [sharingText]).program = true) ∧
    ∃ e, Run.error? ((HostStep.call "ບ" [.null]).run ([HostStep.call "ບ" [], .ticks 3].foldl
      Machine.after (.start (compileSources "pack" [sharingText]).program 8))) = some e ∧
        ((∃ limit, e = .depthExceeded limit) ∨ e = .endlessLoop) := by
  have hkeeps : (Compiler.start "pack").sourcesKeepUnits [sharingText] = true := by
    decide +kernel
  have hoffered : ∀ s ∈ [HostStep.call "ບ" [], .ticks 3] ++ [.call "ບ" [.null]],
      s.offered (compileSources "pack" [sharingText]).program = true := by
    decide +kernel
  have hdeep : (Run.error? ((HostStep.call "ບ" [.null]).run ([HostStep.call "ບ" [],
      .ticks 3].foldl Machine.after
        (.start (compileSources "pack" [sharingText]).program 8)))).isSome = true := by
    decide +kernel
  obtain ⟨e, he⟩ := Option.isSome_iff_exists.1 hdeep
  obtain ⟨m', hrun⟩ := Run.eq_error_of_error? he
  exact ⟨hkeeps, hoffered, e, he, never_stuck "pack" _ 8 _ _ hkeeps hoffered e m' hrun⟩

/-- Two functions that share a unit, of which the second cannot be compiled. -/
def clashingText : String :=
  "function ບ() \x7b return 1; \x7d\n" ++
  "function éa() \x7b if (ບ) \x7b ບ = 1; \x7d try \x7b\x7d catch (e) \x7b\x7d \x7d\n"

/-- A call of the first function finds a unit that is not there. -/
theorem lost_unit_gets_stuck :
    (HostStep.call "ບ" []).offered (compileSources "pack" [clashingText]).program = true ∧
    Run.error? ((HostStep.call "ບ" []).run ([HostStep.entry].foldl Machine.after
      (.start (compileSources "pack" [clashingText]).program 512))) =
      some (.unknownUnit "__gen/u0") := by
  decide +kernel

end PackScript
