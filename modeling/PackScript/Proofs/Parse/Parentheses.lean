import PackScript.Proofs.Parse.Halting

namespace PackScript

/-!
# Parentheses around an expression

What starts at a parenthesis is read as the parameters of an arrow function first. If that works and
an arrow or a colon follows, there is no way back: the colon may begin a return type, but it may as
well belong to a conditional or to a case.

* `Parse.guessArrowParams_holds`, `Parse.guessArrowParams_fails` — when the guess holds.
* `parentheses_unless_parameters` — an expression in parentheses is read as one unless the guess
  holds. Otherwise an arrow function is read, and it is a fault if its arrow is missing.
* `conditional_after_parentheses_fails` — so a conditional may be rejected for its parentheses.
-/

namespace Parse

variable {s : String} {n : Nat} {p : Nested} {c after : Cursor} {ps : List Param}

/-- Parameters are in front of an arrow or a colon. -/
def SeesParams (p : Nested) (c : Cursor) (ps : List Param) (after : Cursor) : Prop :=
  params p c = .ok (ps, after) ∧ (after.sees .arrow || after.sees .colon) = true

theorem guessArrowParams_holds (h : SeesParams p c ps after) :
    guessArrowParams p c = .ok (some ps, after) := by
  rw [guessArrowParams, h.1]
  exact if_pos h.2

/-- A wrong guess is no fault, since the bound on nesting is not met. -/
theorem guessArrowParams_fails (hp : p.Sound s False n) (hc : c.Valid s) (hn : c.left < n + 1)
    (h : ∀ ps after, ¬ SeesParams p c ps after) : guessArrowParams p c = .ok (none, c) := by
  have hparams := params_takes hp c (K := .opening hc) ⟨hc, nofun, nofun, trivial⟩ hn
  unfold ReadsAt at hparams
  unfold guessArrowParams
  cases hrun : params p c with
  | ok r => exact if_neg fun hseen => h r.1 r.2 ⟨hrun, hseen⟩
  | error d =>
    rw [hrun] at hparams
    have hkind : d.kind ≠ .invariant := by
      rw [hparams.1]
      decide
    exact if_neg hkind

theorem parenthesized_of_guess (h : SeesParams p c ps after) :
    parenthesized p c = arrowFrom p c.current.span false ps after :=
  (bind_of_ok rfl).trans (bind_of_ok (guessArrowParams_holds h))

/-- Without its arrow, an arrow function is at fault behind its return type. -/
theorem arrowFrom_error {start : Span} {isAsync : Bool} (hskip : skipReturnType c = .ok ((), after))
    (harrow : after.sees .arrow = false) :
    arrowFrom p start isAsync ps c = .error (after.unexpected Punct.arrow.label) := by
  refine (bind_of_ok hskip).trans (bind_of_error ?_)
  refine (bind_of_ok rfl).trans ?_
  rw [harrow]
  rfl

/-- What is read behind parameters is an arrow function. -/
theorem arrowFrom_ok {start : Span} {isAsync : Bool} {e : Expr}
    (h : arrowFrom p start isAsync ps c = .ok (e, after)) :
    ∃ body span, e = .arrow ps body isAsync span := by
  obtain ⟨_, _, _, h⟩ := bind_eq_ok h
  obtain ⟨_, _, _, h⟩ := bind_eq_ok h
  obtain ⟨body, _, _, h⟩ := bind_eq_ok h
  obtain ⟨span, _, _, h⟩ := bind_eq_ok h
  cases h
  exact ⟨body, span, rfl⟩

end Parse

open Parse

/-- From a place where a parenthesis, an expression and the other parenthesis can be read, they are
    read as this expression, up to behind the parenthesis, unless parameters in front of an arrow or
    a colon can be read there. In that case only an arrow function with these parameters is read,
    and the text is at fault if no arrow is behind the colon and the type. -/
theorem parentheses_unless_parameters {s : String} {levels : Nat} {c c' : Cursor} {e : Expr}
    (hc : c.Valid s) (hlevels : c.left < levels + 1)
    (hread : inParentheses (nested levels) c = .ok (e, c')) :
    ((∀ ps after, ¬ SeesParams (nested levels) c ps after) →
      parenthesized (nested levels) c = .ok (e, c')) ∧
    ∀ ps after, SeesParams (nested levels) c ps after →
      (∀ r c₁, parenthesized (nested levels) c = .ok (r, c₁) →
        ∃ body span, r = .arrow ps body false span) ∧
      ∀ behind, skipReturnType after = .ok ((), behind) → behind.sees .arrow = false →
        parenthesized (nested levels) c = .error (behind.unexpected Punct.arrow.label) := by
  refine ⟨fun hnone => ?_, fun ps after hsees => ⟨fun r c₁ hr => ?_, fun behind hskip harrow => ?_⟩⟩
  · have hguess := guessArrowParams_fails (nested_sound s False levels) hc hlevels hnone
    exact (bind_of_ok rfl).trans ((bind_of_ok hguess).trans hread)
  · rw [parenthesized_of_guess hsees] at hr
    exact arrowFrom_ok hr
  · rw [parenthesized_of_guess hsees]
    exact arrowFrom_error hskip harrow

/-- A name in parentheses, which could be a parameter. -/
theorem parentheses_unless_parameters_name :
    ∃ e c', inParentheses (nested 9) (.ofText "(a) * b;") = .ok (e, c') ∧
      parenthesized (nested 9) (.ofText "(a) * b;") = .ok (e, c') := by
  obtain ⟨⟨e, c'⟩, hread⟩ : ∃ r, inParentheses (nested 9) (.ofText "(a) * b;") = .ok r := by
    have hok : (inParentheses (nested 9) (.ofText "(a) * b;")).isOk = true := by decide +kernel
    cases hrun : inParentheses (nested 9) (.ofText "(a) * b;") with
    | ok r => exact ⟨r, rfl⟩
    | error d =>
      rw [hrun] at hok
      cases hok
  have hguess : (guessArrowParams (nested 9) (.ofText "(a) * b;")).toOption.any
      (·.1.isNone) = true := by
    decide +kernel
  refine ⟨e, c', hread, (parentheses_unless_parameters (Cursor.valid_ofText _) (by decide +kernel)
    hread).1 fun ps after hsees => ?_⟩
  rw [guessArrowParams_holds hsees] at hguess
  cases hguess

/-- An expression in parentheses before the colon of a conditional, or of a case, is rejected. -/
theorem conditional_after_parentheses_fails :
    (parseScript "c ? a : b;").isOk = true ∧ (parseScript "c ? (a) : b;").isOk = false ∧
    (parseScript "switch (c) \x7b case a: b; \x7d").isOk = true ∧
    (parseScript "switch (c) \x7b case (a): b; \x7d").isOk = false := by
  decide +kernel

end PackScript
