import PackScript.Proofs.Uses.Reached

namespace PackScript

/-!
# Calls by name

A call of a top-level function by its name enters the unit of the function at once, without a look
at the variable of that name.

* `Check.reassigning` — ends a run before anything but the function is written to its variable.
* `calls_by_name_run_what_is_held` — up to there the variable holds nothing yet, or the function
  whose unit the call enters.
* `call_by_name_after_assignment` — afterwards the call still enters that unit.
-/

/-! ### Calls in code -/

/-- The unit that is called by its name. One that is entered without a channel is a part of the unit
    in which the instruction stands. -/
def Instr.called? : Instr → Option String
  | .invoke _ (.unit unit) (some _) _ => some unit
  | _ => none

section

variable {G : Uses} {site : Site} {writes : Slot → Prop} {a : Option Slot} {is : List Instr}

theorem Instr.called?_eq_some {i : Instr} {unit : String} (h : i.called? = some unit) :
    ∃ guard c store, i = .invoke guard (.unit unit) (some c) store := by
  unfold called? at h
  split at h
  · cases h
    exact ⟨_, _, _, rfl⟩
  · cases h

/-- A unit that is called by its name is that of a function which may be called. -/
theorem Uses.Piece.mayCall (h : G.Piece site writes a is) :
    ∀ i ∈ is, ∀ unit, i.called? = some unit → G.MayCall site.owner unit := by
  rintro i hi unit hcall
  obtain ⟨guard, c, store, rfl⟩ := Instr.called?_eq_some hcall
  cases h with
  | call _ _ _ _ _ _ hmay =>
    simp only [fillCode, List.mem_append, List.mem_cons, List.mem_map, reduceCtorEq, and_false,
      exists_false, List.not_mem_nil, or_false, false_or] at hi
    cases hi
    exact hmay
  | _ => simp [fillCode] at hi

end

/-! ### Writes to variables -/

/-- The id of the function that a value is. -/
def Nbt.functionId? (v : Nbt) : Option String :=
  (v.get? "function").bind text?

/-- What is written is the function with the id. -/
def Source.isFunction (id : String) : Source → Bool
  | .literal v => v.functionId? = some id
  | _ => false

/-- Ends a run before anything but the function is written to the variable of a top-level
    function. -/
def Check.reassigning (ns : String) (sig : Signature) : Check := fun _ is _ =>
  match is with
  | .set _ target source :: _ =>
    if target.address = .slot sig.binding ∧ source.isFunction (functionId ns sig.unit) = false then
      some .endlessLoop
    else none
  | _ => none

/-- The variable of a function holds nothing but the function. -/
def Limits.declared (G : Uses) (p : Program) (sig : Signature) : Limits where
  uses := G
  program := p
  variables_ s v := s = sig.binding → v.functionId? = some (functionId p.ns sig.unit)
  spared := none
  alarm := none
  unfailing := False

theorem lenient_declared (G : Uses) (p : Program) (sig : Signature) :
    (Limits.declared G p sig).Lenient :=
  ⟨rfl, id⟩

theorem guards_declared (G : Uses) (p : Program) (sig : Signature) :
    Guards (.declared G p sig) (.reassigning p.ns sig) fun _ => True where
  called _ _ _ _ := trivial
  entered _ _ _ _ _ := trivial
  quiet _ _ _ e _ _ := (lenient_declared G p sig).quiet e
  permits name u hu i hi f frames hf := by
    by_cases hends : ∀ rest m, Check.reassigning p.ns sig (f :: frames) (i :: rest) m ≠ none
    · exact .inr hends
    · refine .inl ⟨nofun, ?_⟩
      rintro guard s source rfl
      by_cases hs : s = sig.binding
      · -- the check lets the write pass, so it is one of the function
        subst hs
        cases hsource : source.isFunction (functionId p.ns sig.unit) with
        | false =>
          refine absurd (fun rest m => ?_) hends
          simp [Check.reassigning, Place.slot, hsource]
        | true =>
          cases source with
          | literal v => exact .inr ⟨v, rfl, fun _ => by simpa [Source.isFunction] using hsource⟩
          | _ => cases hsource
      · exact .inl fun _ h => absurd h hs

/-- In sources without a report, a unit that is called by its name is that of a top-level function.
    Whatever is done with the machine, the variable of the function holds nothing yet or a value
    that names this unit, up to the first moment where something else is written to it. -/
theorem calls_by_name_run_what_is_held (ns : String) (texts : List String) (maxDepth : Nat)
    (hclean : (compileSources ns texts).diagnostics = []) {name unit : String} {u : CodeUnit}
    {i : Instr} (hu : (name, u) ∈ (compileSources ns texts).program.units) (hi : i ∈ u.instrs)
    (hcall : i.called? = some unit) :
    ∃ f sig, (compileSources ns texts).program.functions.find? f = some sig ∧ sig.unit = unit ∧
      ∀ m v, (Machine.start (compileSources ns texts).program maxDepth).Onward
          (.reassigning (compileSources ns texts).program.ns sig) m →
        m.slots.get? sig.binding.key = some v →
        v.functionId? = some (functionId (compileSources ns texts).program.ns unit) := by
  obtain ⟨G, hp, _, _, htracked⟩ := compileSources_orderly ns texts
  generalize (compileSources ns texts).program = p at *
  obtain ⟨site, _, _, _, _, hcode⟩ := hp.units _ hu
  obtain ⟨f, sig, hfunction, rfl, _⟩ := hcode.code.forall_mem
    (fun _ _ h => h.mayCall) (fun _ _ => ⟨nofun, nofun⟩) i hi unit hcall
  have hsig := (htracked hclean).functions f sig hfunction
  obtain ⟨_, _, kind, loop, hbinding⟩ := hp.functions _ (Table.mem_of_find? hsig)
  refine ⟨f, sig, hsig, rfl, fun m v hm hv => ?_⟩
  have hlenient := lenient_declared G p sig
  have hstart := Tidy.startLenient hlenient hp.ns hp.records maxDepth
  obtain ⟨n, hm'⟩ := Machine.Onward.proceeds hp (guards_declared G p sig) trivial hlenient hstart hm
  exact ((hm'.tidy.slots.2 _ _ hv).holds _ _ rfl hbinding).2 rfl

/-- A function that is called by another one, before its variable gets another value. -/
def calledText : String :=
  "function f() \x7b return 1; \x7d\nfunction g() \x7b return f(); \x7d\nlet r = g();\nf = g;\n"

theorem calls_by_name_run_what_is_held_called :
    (compileSources "pack" [calledText]).diagnostics = [] ∧
    ∃ name u i, (name, u) ∈ (compileSources "pack" [calledText]).program.units ∧ i ∈ u.instrs ∧
      i.called? = some "f" ∧
      ∃ f sig, (compileSources "pack" [calledText]).program.functions.find? f = some sig ∧
        sig.unit = "f" ∧
        ∀ m v, (Machine.start (compileSources "pack" [calledText]).program 512).Onward
            (.reassigning (compileSources "pack" [calledText]).program.ns sig) m →
          m.slots.get? sig.binding.key = some v →
          v.functionId? =
            some (functionId (compileSources "pack" [calledText]).program.ns "f") := by
  have hclean : (compileSources "pack" [calledText]).diagnostics = [] := by decide +kernel
  have hcalls : (compileSources "pack" [calledText]).program.units.any
      (fun e => e.2.instrs.any fun i => i.called? = some "f") = true := by decide +kernel
  obtain ⟨⟨name, u⟩, hu, hinstrs⟩ := List.any_eq_true.1 hcalls
  obtain ⟨i, hi, hcall⟩ := List.any_eq_true.1 hinstrs
  have hcall : i.called? = some "f" := by simpa using hcall
  exact ⟨hclean, name, u, i, hu, hi, hcall,
    calls_by_name_run_what_is_held "pack" _ 512 hclean hu hi hcall⟩

/-- A function whose variable gets another function before the call. -/
def reassignedText : String :=
  "function f() \x7b return 1; \x7d\nfunction g() \x7b return 2; \x7d\nf = g;\nlet r = f();\n"

/-- The call enters the first function, and the variable holds the second one by then. -/
theorem call_by_name_after_assignment :
    (compileSources "pack" [reassignedText]).diagnostics = [] ∧
    Run.error? (HostStep.entry.runBy (Run.watched (.entering "f"))
      (.start (compileSources "pack" [reassignedText]).program 512)) = some .endlessLoop ∧
    (((Machine.start (compileSources "pack" [reassignedText]).program 512).afterBy
      (.entering "f") .entry).global? "f").bind Nbt.functionId? = some "pack:g" := by
  decide +kernel

end PackScript
