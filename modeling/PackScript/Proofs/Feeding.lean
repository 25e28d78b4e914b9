import PackScript.Proofs.Uses.Program

namespace PackScript

/-!
# Units that read what they were called with

A unit is entered with a channel or without one, and which of the two is settled when it gets its
name. Only units of the first sort read entries of a channel.

* `Feeding` — how units are entered.
* `compileSources_fed` — every program that the compiler makes keeps to it.
-/

/-- How units are entered: with a channel, or without one. -/
abbrev Feeding := String → Option Bool

namespace Feeding

/-- What the code of a unit may do: it reads what the unit was called with if there is a channel,
    and enters only units without a channel that need none. -/
def permits (G : Feeding) (name : String) : Permits where
  slot _ := True
  params := G name = some true
  part n := G n = some false
  literal _ := True
  round _ := True

end Feeding

/-- All units of a program keep to how units are entered. -/
structure Program.Fed (p : Program) (G : Feeding) : Prop where
  entry : G p.entry = some false
  units : ∀ e ∈ p.units, Chunks (G.permits e.1) e.2.instrs

/-- How units are entered, by their uses. -/
def Uses.feeding (G : Uses) : Feeding :=
  fun n => (G.unit n).map (·.fed)

theorem UnitKept.fed {G : Uses} {name : String} {u : CodeUnit} (h : UnitKept G name u) :
    Chunks (G.feeding.permits name) u.instrs := by
  obtain ⟨site, b, rfl, _, _, hcode⟩ := h
  obtain ⟨use, huse, hstanding, _⟩ := hcode.unit
  have hsite : G.feeding site.unit = some site.fed := by
    simp [Uses.feeding, huse, hstanding]
  refine hcode.code.chunks.mono
    ⟨fun _ _ => trivial, fun hparams => ?_, ?_, fun _ _ => trivial, fun _ _ => trivial⟩
  · exact hsite.trans (congrArg some hparams)
  · rintro n ⟨v, hv, hfed, _⟩
    exact (congrArg (Option.map _) hv).trans (congrArg some hfed)

/-- Every program that the compiler makes keeps to how units are entered. -/
theorem compileSources_fed (ns : String) (texts : List String) :
    ∃ G, (compileSources ns texts).program.Fed G := by
  obtain ⟨G, horderly, _⟩ := compileSources_orderly ns texts
  refine ⟨G.feeding, ?_, fun e he => (horderly.units e he).fed⟩
  simp [Uses.feeding, horderly.entry, UnitUse.script]

end PackScript
