import PackScript.Proofs.Parse.Halting

namespace PackScript

/-!
# Operators group by precedence

Operands between operators are put together by precedence, and operators of the same precedence from
the left, apart from `**`.

* `Grouping` — a tree of operators over operands, and its reading from left to right.
* `Grouping.Proper` — every operand of an operator has the precedence that it needs on its side.
* `Grouping.Proper.unique` — operands and operators have only one proper grouping.
* `Parse.Operators` — the operators ahead of a cursor, each with its right operand.
* `Parse.binary_groups` — the operators down to a precedence are read, and grouped properly.
* `Parse.operators_group_by_precedence` — so are all of them.
-/

open Parse

/-! ### Groupings -/

/-- An operator with its precedence. -/
abbrev Infix := Joint × Nat

/-- A token is the operator. -/
def Infix.IsToken (o : Infix) : Prop :=
  ∃ kind, joint? kind = some o

/-- The least precedence of the right operand. -/
abbrev Infix.right (o : Infix) : Nat :=
  o.1.rightPrecedence o.2

/-- The least precedence of the left operand. -/
def Infix.left (o : Infix) : Nat :=
  if o.1 = .binary .exp then o.2 + 1 else o.2

/-- Only `**` has the highest precedence. -/
theorem Infix.IsToken.exp_iff {o : Infix} (h : o.IsToken) :
    (o.1 = .binary .exp ↔ o.2 = 14) ∧ o.2 ≤ 14 := by
  obtain ⟨kind, h⟩ := h
  unfold joint? at h
  split at h <;> cases h <;> decide

/-- Of two operators one behind the other, either the first or the second takes the operand between
    them. -/
theorem Infix.left_le_iff {o o' : Infix} (h : o.IsToken) (h' : o'.IsToken) :
    o'.left ≤ o.2 ↔ o'.2 < o.right := by
  obtain ⟨hexp, hle⟩ := h.exp_iff
  obtain ⟨hexp', hle'⟩ := h'.exp_iff
  unfold Infix.left Infix.right Joint.rightPrecedence
  split <;> split <;> grind

/-- Operands under operators. -/
inductive Grouping where
  | operand (e : Expr)
  | node (o : Infix) (left right : Grouping)

namespace Grouping

/-- The first operand, and the operators with the operands behind them, from left to right. -/
def reading : Grouping → Expr × List (Infix × Expr)
  | operand e => (e, [])
  | node o l r => (l.reading.1, l.reading.2 ++ (o, r.reading.1) :: r.reading.2)

/-- The outermost operator, if there is one, has at least the precedence. -/
def AtLeast (least : Nat) : Grouping → Prop
  | operand _ => True
  | node o _ _ => least ≤ o.2

/-- On the left of an operator are operators of its precedence or higher ones, on its right higher
    ones only. For `**` it is the other way round. -/
def Proper : Grouping → Prop
  | operand _ => True
  | node o l r => l.AtLeast o.left ∧ r.AtLeast o.right ∧ l.Proper ∧ r.Proper

/-- The expression has the operators and operands of the grouping. -/
inductive Builds : Grouping → Expr → Prop
  | operand {e} : Builds (operand e) e
  | node {o l r left right span} : Builds l left → Builds r right →
      Builds (node o l r) (o.1.join left right span)

variable {t t' : Grouping}

/-- What holds of the outermost operator holds of all. -/
theorem Proper.le_of_mem (h : t.Proper) {least : Nat} (hleast : t.AtLeast least) {x : Infix × Expr}
    (hx : x ∈ t.reading.2) : least ≤ x.1.2 := by
  induction t generalizing least with
  | operand e => cases hx
  | node o l r ihl ihr =>
    obtain ⟨hl, hr, hleft, hright⟩ := h
    have hleast : least ≤ o.2 := hleast
    have hsides : o.2 ≤ o.left ∧ o.2 ≤ o.right := by
      unfold Infix.left Infix.right Joint.rightPrecedence
      split <;> omega
    rcases List.mem_append.1 hx with hx | hx
    · have hle := ihl hleft hl hx
      omega
    · rcases List.mem_cons.1 hx with rfl | hx
      · exact hleast
      · have hle := ihr hright hr hx
        omega

/-- Two proper groupings of the same operands and operators do not have different operators
    outermost. -/
theorem Proper.side_eq {o o' : Infix} {l r l' r' : Grouping} (h : (node o l r).Proper)
    (h' : (node o' l' r').Proper) (ho : o.IsToken) (ho' : o'.IsToken)
    {between : List (Infix × Expr)}
    (hl : l'.reading.2 = l.reading.2 ++ between)
    (hr : (o, r.reading.1) :: r.reading.2 = between ++ (o', r'.reading.1) :: r'.reading.2) :
    between = [] := by
  cases between with
  | nil => rfl
  | cons x between =>
    obtain ⟨rfl, hrest⟩ := List.cons.inj hr
    have hleft : o'.left ≤ o.2 := h'.2.2.1.le_of_mem h'.1 (x := (o, r.reading.1)) (by simp [hl])
    have hright : o.right ≤ o'.2 :=
      h.2.2.2.le_of_mem h.2.1 (x := (o', r'.reading.1)) (by simp [hrest])
    exact absurd ((Infix.left_le_iff ho ho').1 hleft) (Nat.not_lt.2 hright)

/-- There is one proper grouping of the operands and operators. -/
theorem Proper.unique (h : t.Proper) (h' : t'.Proper) (hops : ∀ x ∈ t.reading.2, x.1.IsToken)
    (hsame : t.reading = t'.reading) : t = t' := by
  induction t generalizing t' with
  | operand e =>
    cases t' with
    | operand e' => exact congrArg operand (congrArg Prod.fst hsame)
    | node o' l' r' => exact absurd (congrArg Prod.snd hsame) (by simp [reading])
  | node o l r ihl ihr =>
    cases t' with
    | operand e' => exact absurd (congrArg Prod.snd hsame) (by simp [reading])
    | node o' l' r' =>
      obtain ⟨hfirst, hlist⟩ := Prod.mk.inj hsame
      have ho : o.IsToken := hops (o, r.reading.1) (by simp [reading])
      have ho' : o'.IsToken := by
        refine hops (o', r'.reading.1) ?_
        rw [hsame]
        simp [reading]
      -- the outermost operator stands at the same place in both
      have hsplit : l.reading.2 = l'.reading.2 ∧
          (o, r.reading.1) :: r.reading.2 = (o', r'.reading.1) :: r'.reading.2 := by
        rcases List.append_eq_append_iff.1 hlist with ⟨between, hl, hr⟩ | ⟨between, hl, hr⟩
        · obtain rfl := side_eq h h' ho ho' hl hr
          exact ⟨by simpa using hl.symm, hr⟩
        · obtain rfl := side_eq h' h ho' ho hl hr
          exact ⟨by simpa using hl, hr.symm⟩
      obtain ⟨hl, hr⟩ := hsplit
      obtain ⟨hroot, hrest⟩ := List.cons.inj hr
      obtain ⟨rfl, hsecond⟩ := Prod.mk.inj hroot
      have hleft := ihl h.2.2.1 h'.2.2.1 (fun x hx => hops x (by simp [reading, hx]))
        (Prod.ext hfirst hl)
      have hright := ihr h.2.2.2 h'.2.2.2 (fun x hx => hops x (by simp [reading, hx]))
        (Prod.ext hsecond hrest)
      rw [hleft, hright]

end Grouping

/-! ### Reading -/

namespace Parse

/-- An operand is read from one cursor to another, however deep the text may nest. -/
def ReadsOperand (c : Cursor) (e : Expr) (c' : Cursor) : Prop :=
  ∀ levels, c.left ≤ levels → unary (nested levels) c = .ok (e, c')

/-- The operators from a cursor on, each with the operand behind it, up to a token that is none. -/
inductive Operators : Cursor → List (Infix × Expr) → Cursor → Prop
  | done {c} : joint? c.current.kind = none → Operators c [] c
  | more {c o e c1 ops c'} : joint? c.current.kind = some o → ReadsOperand c.advance e c1 →
      Operators c1 ops c' → Operators c ((o, e) :: ops) c'

variable {s : String} {c c1 c' : Cursor} {e left : Expr} {ops : List (Infix × Expr)}
  {start : Span} {least : Nat} {p : Nested}

theorem ReadsOperand.valid (h : ReadsOperand c e c1) (hc : c.Valid s) :
    c1.Valid s ∧ c1.left < c.left := by
  have hread := unary_takes (K := .opening hc) (nested_sound s False c.left) c
    ⟨hc, nofun, nofun, trivial⟩ (Nat.lt_succ_self _)
  rw [ReadsAt, h c.left (Nat.le_refl _)] at hread
  exact ⟨hread.1, hread.2.1.left_lt hc hread.1 trivial⟩

theorem Operators.isToken (h : Operators c ops c') : ∀ x ∈ ops, x.1.IsToken := by
  induction h with
  | done => exact nofun
  | more ho _ _ ih => exact List.forall_mem_cons.2 ⟨⟨_, ho⟩, ih⟩

/-- One round of `binary`. -/
def binaryRound (p : Nested) (least : Nat) (start : Span) (left : Expr) : Parse (Expr ⊕ Expr) := do
  match joint? (← get).current.kind with
  | some (j, precedence) =>
    if precedence < least then return .inr left
    else
      advance
      let right ← p.binary (j.rightPrecedence precedence)
      return .inl (j.join left right (← spanFrom start))
  | none => return .inr left

theorem binaryRound_stop (h : ∀ o, joint? c.current.kind = some o → o.2 < least) :
    binaryRound p least start left c = .ok (.inr left, c) := by
  refine (bind_of_ok rfl).trans ?_
  cases ho : joint? c.current.kind with
  | none => rfl
  | some o => exact congrFun (if_pos (h o ho)) c

theorem binaryRound_go {o : Infix} {right : Expr} (ho : joint? c.current.kind = some o)
    (hleast : least ≤ o.2) (hright : p.binary o.right c.advance = .ok (right, c1)) :
    binaryRound p least start left c =
      .ok (.inl (o.1.join left right (c1.spanFrom start)), c1) := by
  refine (bind_of_ok rfl).trans ?_
  rw [ho]
  refine (congrFun (if_neg (Nat.not_lt.2 hleast)) c).trans ?_
  exact (bind_of_ok rfl).trans ((bind_of_ok hright).trans rfl)

/-- What is read where operators are taken and the rest is ahead: an expression with the operators
    of a precedence and higher ones, up to an operator of lower precedence. -/
structure Grouped (s : String) (least : Nat) (e : Expr) (taken rest : List (Infix × Expr))
    (tree : Expr) (c c' : Cursor) : Prop where
  grouping : ∃ t : Grouping, t.reading = (e, taken) ∧ t.Proper ∧ t.AtLeast least ∧ t.Builds tree
  operators : Operators c rest c'
  ahead : ∀ x ∈ rest.head?, x.1.2 < least
  valid : c.Valid s

/-- Some of the operators are taken, and no bytes are given back. -/
def Groups (s : String) (least : Nat) (e : Expr) (ops : List (Infix × Expr)) (c c' : Cursor)
    (outcome : Except Diagnostic (Expr × Cursor)) : Prop :=
  ∃ taken rest tree c1, outcome = .ok (tree, c1) ∧ ops = taken ++ rest ∧ c1.left ≤ c.left ∧
    Grouped s least e taken rest tree c1 c'

/-- The rounds of `binary`, where right operands are read by `p`. The operator ahead can always take
    what is read already as its left operand. -/
theorem loop_groups {n fuel : Nat} {t : Grouping} (least : Nat) (start : Span)
    (done : List (Infix × Expr))
    (hright : ∀ {c c1 c' e ops} least, c.Valid s → c.left < n → ReadsOperand c e c1 →
      Operators c1 ops c' → Groups s least e ops c c' (p.binary least c))
    (hc : c.Valid s) (hn : c.left ≤ n) (hfuel : c.left < fuel) (hops : Operators c ops c')
    (hreading : t.reading = (e, done)) (hproper : t.Proper) (hleast : t.AtLeast least)
    (hbuilds : t.Builds left) (hahead : ∀ x ∈ ops.head?, t.AtLeast x.1.left) :
    Groups s least e (done ++ ops) c c' (loop (binaryRound p least start) fuel left c) := by
  induction fuel generalizing c ops t done left with
  | zero => exact absurd hfuel (Nat.not_lt_zero _)
  | succ fuel ih =>
    by_cases hstop : ∀ o, joint? c.current.kind = some o → o.2 < least
    -- no operator is ahead, or one that belongs further out
    · refine ⟨done, ops, left, c, (bind_of_ok (binaryRound_stop hstop)).trans rfl, rfl,
        Nat.le_refl _, ⟨t, hreading, hproper, hleast, hbuilds⟩, hops, ?_, hc⟩
      cases hops with
      | done => exact nofun
      | more ho => rintro x ⟨⟩; exact hstop _ ho
    -- what is read so far becomes the left operand
    · cases hops with
      | done hnone => exact absurd (fun o ho => nomatch hnone.symm.trans ho) hstop
      | @more _ o e1 c1 ops _ ho hread hrest =>
        have hle : least ≤ o.2 :=
          Nat.le_of_not_lt fun hlt => hstop fun o' ho' => Option.some.inj (ho.symm.trans ho') ▸ hlt
        have hstep : c.Leads False (c.atEnd = false) c.advance := hc.leads_advance nofun
        have hlt := hstep.left_lt hc hc.advance (atEnd_of_joint? ho)
        obtain ⟨taken, rest, right, c2, hrun, rfl, hleft, h⟩ :=
          hright (Infix.right o) hc.advance (by omega) hread hrest
        obtain ⟨r, hr, hproper', hatLeast, hbuilds'⟩ := h.grouping
        have hahead' : ∀ x ∈ rest.head?, (Grouping.node o t r).AtLeast x.1.left := by
          intro x hx
          have htoken := h.operators.isToken x (List.mem_of_mem_head? hx)
          exact (Infix.left_le_iff ⟨_, ho⟩ htoken).2 (h.ahead x hx)
        obtain ⟨taken', rest', tree, c3, hloop, hsplit, hleft', h'⟩ :=
          ih (done ++ (o, e1) :: taken) (t := .node o t r) h.valid (by omega) (by omega)
            h.operators (by simp [Grouping.reading, hreading, hr])
            ⟨hahead (o, e1) rfl, hatLeast, hproper, hproper'⟩ hle (.node hbuilds hbuilds') hahead'
        exact ⟨taken', rest', tree, c3, (bind_of_ok (binaryRound_go ho hle hrun)).trans hloop,
          by simpa using hsplit, by omega, h'⟩

/-- The operators down to a precedence are read. -/
theorem binary_groups (levels least : Nat) (hc : c.Valid s) (hlevels : c.left ≤ levels)
    (he : ReadsOperand c e c1) (hops : Operators c1 ops c') :
    Groups s least e ops c c' (binary (nested levels) least c) := by
  obtain ⟨hc1, hlt⟩ := he.valid hc
  induction levels generalizing c c1 c' e ops least with
  | zero => omega
  | succ levels ih =>
    have hright : ∀ {c c1 c' e ops} least, c.Valid s → c.left < levels + 1 → ReadsOperand c e c1 →
        Operators c1 ops c' → Groups s least e ops c c' ((nested (levels + 1)).binary least c) :=
      fun least hc hlt he hops => ih least hc (by omega) he hops (he.valid hc).1 (he.valid hc).2
    obtain ⟨taken, rest, tree, c2, hloop, hsplit, hle, h⟩ :=
      loop_groups least c.current.span [] (t := .operand e) hright
        hc1 (by omega) (Nat.lt_succ_self _) hops rfl trivial trivial .operand fun _ _ => trivial
    refine ⟨taken, rest, tree, c2, ?_, hsplit, by omega, h⟩
    exact (bind_of_ok rfl).trans ((bind_of_ok (he _ hlevels)).trans hloop)

/-- Operands with operators between them are read up to the token that is no operator, and have the
    only proper grouping that there is of them. -/
theorem operators_group_by_precedence (levels : Nat) (hc : c.Valid s) (hlevels : c.left ≤ levels)
    (he : ReadsOperand c e c1) (hops : Operators c1 ops c') :
    ∃ tree t, binary (nested levels) 0 c = .ok (tree, c') ∧ Grouping.Builds t tree ∧
      t.reading = (e, ops) ∧ t.Proper ∧ ∀ t', t'.reading = (e, ops) → t'.Proper → t' = t := by
  obtain ⟨taken, rest, tree, c2, hrun, rfl, _, h⟩ := binary_groups levels 0 hc hlevels he hops
  obtain ⟨t, hreading, hproper, _, hbuilds⟩ := h.grouping
  cases rest with
  | cons x rest => exact absurd (h.ahead x rfl) (Nat.not_lt_zero _)
  | nil =>
    cases h.operators
    rw [List.append_nil]
    refine ⟨tree, t, hrun, hbuilds, hreading, hproper, fun t' ht' hproper' => ?_⟩
    refine hproper'.unique hproper (fun x hx => hops.isToken x ?_) (ht'.trans hreading.symm)
    simpa [ht'] using hx

/-- A power with a power as its exponent. -/
theorem operators_group_by_precedence_power : ∃ (w x y z tree : Expr) (c' : Cursor),
    binary (nested 16) 0 (.ofText "w - x ** y ** z;") = .ok (tree, c') ∧
    Grouping.Builds (.node (.binary .sub, 12) (.operand w) (.node (.binary .exp, 14) (.operand x)
      (.node (.binary .exp, 14) (.operand y) (.operand z)))) tree := by
  obtain ⟨tree, t, hread, hbuilds, _, _, hunique⟩ :=
    operators_group_by_precedence (s := "w - x ** y ** z;") 16 (Cursor.valid_ofText _)
      (by decide +kernel) (fun _ _ => rfl)
      (.more (o := (.binary .sub, 12)) rfl (fun _ _ => rfl)
        (.more (o := (.binary .exp, 14)) rfl (fun _ _ => rfl)
          (.more (o := (.binary .exp, 14)) rfl (fun _ _ => rfl) (.done rfl))))
  obtain rfl := hunique (.node (.binary .sub, 12) (.operand _)
    (.node (.binary .exp, 14) (.operand _)
      (.node (.binary .exp, 14) (.operand _) (.operand _)))) rfl
    (by simp [Grouping.Proper, Grouping.AtLeast, Infix.right, Joint.rightPrecedence])
  exact ⟨_, _, _, _, tree, _, hread, hbuilds⟩

end Parse

end PackScript
