import PackScript.Proofs.Rollback

namespace PackScript

/-!
# Recorded calls have no circle

Calls between top-level functions are recorded one by one while functions are compiled, and calls of
a function that is taken back are taken back with it.

* `Compile.recordCall_run` — a call of a top-level function is recorded, unless something leads
  back.
* `recorded_calls_have_no_circle` — so there is no circle at any time.
-/

variable {s : Compiler} {callee : Ident} {caller : String}

theorem Compile.recordCall_run (hcaller : s.context.declaration = some caller)
    (hglobal : s.isGlobalFunction callee.name = true) :
    recordCall callee s = if callsReach s.calls callee.name caller then
        .error (.unsupported ("recursive call to '" ++ callee.name ++ "'") callee.span) s
      else .ok () (s.addCall caller callee.name) := by
  refine (bind_of_ok rfl).trans ?_
  simp only [hcaller, hglobal, if_true]
  split <;> rfl

/-- **Recorded calls have no circle, whatever was compiled or taken back.** A statement adds calls
    one by one, also if it fails, and after each of them there is no circle. The search finds
    exactly what calls lead to, and a call of a top-level function is refused exactly if it would
    close a circle. -/
theorem recorded_calls_have_no_circle (hs : Between s) :
    NoCircle s.calls ∧
    (∀ stmt s', (Compile.statement stmt s = .ok () s' ∨
        ∃ d, Compile.statement stmt s = .error d s') →
      Relation.ReflTransGen AddsCall s.calls s'.calls) ∧
    ∀ now : Compiler, Relation.ReflTransGen AddsCall s.calls now.calls → NoCircle now.calls ∧
      (∀ f g, callsReach now.calls f g = true ↔ Relation.ReflTransGen (Calls now.calls) f g) ∧
      ∀ callee caller, now.context.declaration = some caller →
        now.isGlobalFunction callee.name = true →
        (NoCircle (now.addCall caller callee.name).calls ∧
          Compile.recordCall callee now = .ok () (now.addCall caller callee.name)) ∨
        (¬ NoCircle (now.addCall caller callee.name).calls ∧ Compile.recordCall callee now =
          .error (.unsupported ("recursive call to '" ++ callee.name ++ "'") callee.span) now) := by
  obtain ⟨G, htop, hdeclared⟩ := hs.typed
  refine ⟨htop.acyclic, fun stmt s' hend => ?_, fun now hgrows => ?_⟩
  · have h := statement_extends htop hdeclared stmt
    rcases hend with hok | ⟨d, herror⟩
    · rw [Compile.ExtendsBy, hok] at h
      exact h.choose_spec.1.grows
    · rw [Compile.ExtendsBy, herror] at h
      exact h.choose_spec.grows
  · have hnone := htop.acyclic.grows hgrows
    refine ⟨hnone, fun f g => callsReach_iff, fun callee caller hcaller hglobal => ?_⟩
    rw [hnone.addCall_iff, Compile.recordCall_run hcaller hglobal]
    cases callsReach now.calls callee.name caller <;> simp

/-- While `f` is compiled, `g` is known and calls `f`. -/
def calledBack : Compiler :=
  { (Compiler.start "pack").addCall "g" "f" with
    scopes := ⟨[[("g", ⟨⟨0⟩, .function⟩)]]⟩
    context := { FunctionContext.script with declaration := some "f" } }

/-- A call of `g` would close a circle, and is refused. -/
theorem recorded_calls_have_no_circle_calledBack :
    NoCircle calledBack.calls ∧ ¬ NoCircle (calledBack.addCall "f" "g").calls ∧
      Compile.recordCall ⟨"g", .origin⟩ calledBack =
        .error (.unsupported "recursive call to 'g'" .origin) calledBack := by
  obtain ⟨hnone, _, hrecord⟩ := (recorded_calls_have_no_circle (.start "pack")).2.2 calledBack
    (.single ⟨.start "pack", "g", "f", rfl, by decide +kernel, rfl⟩)
  rcases hrecord ⟨"g", .origin⟩ "f" rfl (by decide) with ⟨_, hok⟩ | hrefused
  · have hreach : callsReach calledBack.calls "g" "f" = true := by decide +kernel
    rw [Compile.recordCall_run rfl (by decide)] at hok
    simp [hreach] at hok
  · exact ⟨hnone, hrefused⟩

end PackScript
