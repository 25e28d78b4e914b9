import PackScript.Parse.Expression
import PackScript.Proofs.Parse.Function

namespace PackScript.Parse

/-!
# Expressions get on

Every rule for expressions takes a token. The ones that go on with a template literal, or go back
after a wrong guess, are those where the place of the lexer does more than move on.

* `templatePiece_takes` — going on with a template literal takes the brace.
* `guessArrowParams_reads` — a guess that holds takes a token, and a wrong one leaves the cursor.
* `asyncExpression_takes` — going back to the word `async` still leaves this word to take.
-/

variable {s : String} {known : Prop} {K : Scene s known} {n : Nat} {p : Nested} {c : Cursor}

section

variable (hp : p.Sound s known n)

include hp

/-! ### Primary expressions -/

theorem spreadOrAssignment_takes : Takes K n (spreadOrAssignment p) := by
  refine here_reads fun K => (accept_reads .dotDotDot).before_if ?_ hp.assignment
  exact hp.assignment.bind fun _ => node_keeps rfl fun h => h.2

theorem callArguments_takes : Takes K (n + 1) (callArguments p) :=
  (require_takes .lparen).past <|
    (commaUntil_keeps _ fun _ => (spreadOrAssignment_takes hp).keeps).bind fun _ =>
      (require_takes .rparen).seq (.give fun h => h.2)

theorem arrayLiteral_takes : Takes K (n + 1) (arrayLiteral p) := by
  refine here_reads fun K => (require_takes .lbracket).past ?_
  refine (elementsUntilBracket_keeps fun _ => (spreadOrAssignment_takes hp).keeps).bind fun _ => ?_
  exact (require_takes .rbracket).seq (node_keeps rfl fun h => h.2)

theorem property_takes : Takes K n (property p) := by
  refine here_reads fun K => acceptAsyncMember_keeps.drop fun isAsync => ?_
  refine (accept_reads .star).drop fun generator => ?_
  have hkind : Keeps K n (if isAsync || generator then pure .method else accessorKind) := by
    split
    · exact .done rfl
    · exact accessorKind_keeps
  refine hkind.drop fun kind => Takes.before (propertyKey_takes hp).lower fun key => ?_
  refine look_reads fun c => ?_
  split
  · refine (methodFunction_takes hp isAsync generator).lower.bind fun fn => ?_
    exact node_keeps rfl fun h => h.1.2.and (Fits.wrap h.2 rfl rfl)
  · refine (accept_reads .colon).either (hp.assignment.bind fun _ => ?_) ?_
    · exact node_keeps rfl fun h => h.1.2.and h.2
    · cases key with
      | ident id => exact node_keeps rfl fun h => h.2.and (Fits.leaf h.2 rfl rfl)
      | _ => exact reject_reads _

theorem objectEntry_takes : Takes K n (objectEntry p) := by
  refine here_reads fun K => (accept_reads .dotDotDot).before_if ?_ (property_takes hp)
  exact hp.assignment.bind fun _ => node_keeps rfl fun h => h.2

theorem objectLiteral_takes : Takes K (n + 1) (objectLiteral p) := by
  refine here_reads fun K => (require_takes .lbrace).past ?_
  refine (commaUntil_keeps _ fun _ => (objectEntry_takes hp).keeps).bind fun _ => ?_
  exact (require_takes .rbrace).seq (node_keeps rfl fun h => h.2)

omit hp in
/-- The cursor behind the next piece of a template literal, which goes on at the brace. -/
theorem leads_resume (hc : c.Valid s) (hordered : known → c.Ordered)
    (hsees : c.sees .rbrace = true) :
    let next : Cursor := { c with
      lexer := (c.lexer.resume c.current.span).2
      current := (c.lexer.resume c.current.span).1 }
    next.advance.Valid s ∧ c.Leads known True next.advance := by
  obtain ⟨l, hl, hnext⟩ := hc.read
  have hkind : l.next.1.kind = .punct .rbrace := by
    rw [hnext]
    unfold Cursor.sees Token.Kind.isPunct at hsees
    split at hsees
    · rename_i hmark
      rw [hmark, of_decide_eq_true hsees]
    · cases hsees
  have hreached := hl.resume hkind
  obtain ⟨hlt, hle⟩ := hl.resume_between hkind
  rw [hnext] at hreached hlt hle
  have hfurther := Nat.lt_of_lt_of_le hlt hle
  exact ⟨⟨hc.size, _, hreached, rfl⟩, Nat.le_of_lt hfurther, fun _ => hfurther, fun _ => hle,
    fun hk => Nat.le_trans (hordered hk) (Nat.le_of_lt hlt), fun _ _ => Nat.le_of_lt hlt⟩

omit hp in
/-- Going on with a template literal takes the brace before it. -/
theorem templatePiece_takes : Takes K n templatePiece := by
  refine get_reads fun c hc hn => ?_
  split
  · rename_i hsees
    obtain ⟨hvalid, hl⟩ := leads_resume hc.valid hc.ordered hsees
    dsimp only
    split
    · exact ⟨hvalid, hl, nofun⟩
    · exact ⟨hvalid, hl, nofun⟩
    · exact fault_reads _ c hc hn
  · exact reject_reads _ c hc hn

/-- From the first piece on, a template literal takes tokens. -/
theorem templateLiteral_keeps {first : String} :
    Keeps K n (do
      let (pieces, parts) ← repeating (fun (pieces, parts) => do
        let e ← nestedExpression p
        let (s, last) ← templatePiece
        let state := (s :: pieces, e :: parts)
        if last then return .inr state else return .inl state) ([first], [])
      return Expr.template pieces.reverse parts.reverse (← spanFrom K.start)) := by
  refine Keeps.bind ?_ fun _ =>
    node_keeps rfl fun h => h.2.snd.reverse
  refine repeating_keeps (fun _ => fits_of_nodes rfl) fun (pieces, parts) => ?_
  refine (nestedExpression_takes hp).before fun e => templatePiece_takes.drop
    fun (piece, last) => ?_
  have hmore high (h : ((K.and (pieces, parts)).and e).facts high) :
      K.Has high (piece :: pieces, e :: parts) :=
    (Fits.cons (a := piece) (fits_of_nodes rfl) h.1.2.fst).and (Fits.cons h.2 h.1.2.snd)
  dsimp only
  split <;> exact .give (hmore _)

/-- A wrong guess leaves the cursor where it was. -/
theorem guessArrowParams_reads :
    Reads K (n + 1) (fun ps => ps.isSome = true) (guessArrowParams p) := by
  intro c hc hn
  have hparams := params_takes hp c hc hn
  unfold ReadsAt guessArrowParams at *
  cases hrun : params p c with
  | ok r =>
    rw [hrun] at hparams
    dsimp only
    split
    · exact ⟨hparams.1, hparams.2.1.imp fun _ => trivial, hparams.2.2⟩
    · exact ⟨hc.valid, .refl hc.ordered (by simp), nofun⟩
  | error d =>
    rw [hrun] at hparams
    have hkind : d.kind ≠ .invariant := by
      rw [hparams.1]
      decide
    dsimp only
    rw [if_neg hkind]
    exact ⟨hc.valid, .refl hc.ordered (by simp), nofun⟩

theorem parenthesized_takes : Takes K (n + 1) (parenthesized p) := by
  refine here_reads fun K => (guessArrowParams_reads hp).below_or (fun guess hsome => ?_) ?_
  · obtain ⟨ps, rfl⟩ := Option.isSome_iff_exists.1 hsome
    exact arrowFrom_keeps hp false ps
  · intro guess hnone
    obtain rfl := Option.not_isSome_iff_eq_none.1 hnone
    refine (require_takes .lparen).past ((nestedExpression_takes hp).bind fun e => ?_)
    exact (require_takes .rparen).seq (.give fun h => h.2)

theorem asyncArrow?_keeps : Keeps K n (asyncArrow? p K.start) := by
  refine look_reads fun c => ?_
  split
  · exact .done rfl
  · split
    · exact (bareArrow_takes hp true).lower.wrap rfl
    · split
      · refine (guessArrowParams_reads hp).lower.bind fun guess => ?_
        cases guess with
        | none => exact .done rfl
        | some ps => exact (arrowFrom_keeps hp true ps).wrap rfl
      · exact .done rfl

omit hp in
/-- A name as an expression. -/
theorem nameExpression_takes : Takes K n (do return Expr.ident (← bindingName)) :=
  bindingName_takes.before fun _ => .give fun h => h.2.leaf rfl rfl

/-- Also where the word `async` is only a name, it is there to take. -/
theorem asyncExpression_takes (hc : K.Holds c) (hn : c.left < n + 1)
    (hsees : c.seesWord .async_ = true) : ReadsAt K c (fun _ => True) (asyncExpression p) := by
  have hend := Cursor.atEnd_of_seesWord hsees
  have hlow := Nat.le_of_lt_succ hn
  refine ReadsAt.start hc ?_
  show ReadsAt _ c _ (if c.ahead.kind.isKeyword .function_ then _ else _)
  split
  · refine advance_at hc.opening hend (Reads.mono ?_ hlow)
    exact (functionExpression_takes hp true).lower.keeps
  · refine Ends.bind (advance_takes hc.opening hend) fun _ c' hc' hl => ?_
    have hlt := hl.1.left_lt hc.valid hc' trivial
    have harrow := asyncArrow?_keeps hp c' (hc.opening.leads hl.1 hc') (by omega)
    refine Ends.bind harrow fun guess c'' hc'' hl' => ?_
    cases guess with
    | some e => exact ⟨hc'', (hl.1.trans hl'.1).imp .inl, hl'.2⟩
    | none => exact nameExpression_takes c hc.opening hn

theorem newExpression_takes : Takes K (n + 1) (newExpression p) := by
  refine here_reads fun K => (requireWord_takes .new_).past ((accept_reads .dot).either ?_ ?_)
  · refine (seesNamed_keeps _).either (advance_keeps.seq ?_) (reject_reads _)
    exact node_keeps rfl fun _ => nofun
  · refine hp.member.bind fun _ => skipTypeArguments_keeps.seq ?_
    refine Keeps.bind ?_ fun _ =>
      node_keeps rfl fun h => h.1.2.and h.2
    exact (sees_keeps .lparen).either (callArguments_takes hp).lower.keeps (.done rfl)

theorem primary_takes : Takes K (n + 1) (primary p) := by
  refine get_reads fun c hc hn => ?_
  dsimp only
  split
  -- Literals, `this` and `super`
  iterate 7
    · exact token_at hc (by simp [*]) rfl rfl
  · exact newExpression_takes hp c hc hn
  · exact ReadsAt.start hc (functionExpression_takes hp false c hc.opening hn)
  · rename_i hkind
    exact asyncExpression_takes hp hc hn (by simp [Cursor.seesWord, Token.Kind.isKeyword, hkind])
  · exact classExpression_takes hp c hc hn
  · exact parenthesized_takes hp c hc hn
  · exact arrayLiteral_takes hp c hc hn
  · exact objectLiteral_takes hp c hc hn
  · exact token_at hc (by simp [*]) rfl rfl
  · rename_i hkind
    refine ReadsAt.start hc (advance_at hc.opening (by simp [Cursor.atEnd, hkind]) ?_)
    exact (templateLiteral_keeps hp).mono (Nat.le_of_lt_succ hn)
  · exact fault_reads _ c hc hn
  · exact fault_reads _ c hc hn
  · exact nameExpression_takes c hc hn

/-! ### Members and calls -/

omit hp in
theorem memberOf_keeps (object : Expr) (key : MemberKey) (optional : Bool) :
    Keeps ((K.and object).and key) n (memberOf K.start object key optional) :=
  node_keeps rfl fun h => h.1.2.and h.2

theorem indexedMember_keeps (object : Expr) (optional : Bool) :
    Keeps (K.and object) n (indexedMember p K.start object optional) :=
  (nestedExpression_takes hp).bind fun e => (require_takes .rbracket).seq
    (memberOf_keeps object (.index e) optional)

omit hp in
theorem namedMember_keeps (object : Expr) (optional : Bool) :
    Keeps (K.and object) n (namedMember K.start object optional) :=
  memberName_takes.bind fun name => memberOf_keeps object (.name name) optional

theorem callOf_takes (callee : Expr) (optional : Bool) :
    Takes (K.and callee) (n + 1) (callOf p K.start callee optional) :=
  (callArguments_takes hp).before fun _ => node_keeps rfl fun h => h.1.2.and h.2

theorem memberExpression_takes : Takes K (n + 1) (memberExpression p) := by
  refine here_reads fun K => (primary_takes hp).below fun e => ?_
  refine repeating_keeps (fun h => h.2) fun e => ?_
  refine (accept_reads .dot).before_if ?_ ((accept_reads .lbracket).before_if ?_ ?_)
  · exact (namedMember_keeps e false).wrap rfl
  · exact (indexedMember_keeps hp e false).wrap rfl
  · exact .give_of nofun fun h => h.2

theorem optionalPart_keeps (e : Expr) : Keeps (K.and e) n (optionalPart p K.start e) :=
  (sees_keeps .lparen).either (callOf_takes hp e true).lower.keeps <|
    (accept_reads .lbracket).either (indexedMember_keeps hp e true) (namedMember_keeps e true)

theorem leftHandSide_takes : Takes K (n + 1) (leftHandSide p) := by
  refine here_reads fun K => (memberExpression_takes hp).below fun e => ?_
  refine repeating_keeps (fun h => h.2) fun e => get_reads fun c hc hn => ?_
  have hlow := Nat.le_of_lt hn
  split
  · exact Takes.wrap (g := Sum.inl) (callOf_takes hp e false).lower rfl c hc hn
  · refine accept_at hc (Reads.mono ?_ hlow) (accept_at hc (Reads.mono ?_ hlow)
      (accept_at hc (Reads.mono ?_ hlow) ?_))
    · exact (namedMember_keeps e false).wrap rfl
    · exact (indexedMember_keeps hp e false).wrap rfl
    · exact (optionalPart_keeps hp e).wrap rfl
    · rw [if_neg (by decide)]
      split
      · rename_i hsees
        refine advance_at hc (Cursor.atEnd_of_sees (Bool.and_eq_true_iff.1 hsees).1) ?_
        exact .give fun h => h.2
      · split
        · rename_i hsees
          refine advance_at hc (atEnd_of_seesNamed (Bool.and_eq_true_iff.1 hsees).1) ?_
          exact skipType_takes.seq (.give fun h => h.2)
        · exact stop_at hc hc.facts.2

/-! ### Operators on expressions -/

theorem postfixUpdate_takes : Takes K (n + 1) (postfixUpdate p) := by
  refine here_reads fun K => (leftHandSide_takes hp).below fun e => look_reads fun c => ?_
  split
  · exact advance_keeps.seq (node_keeps rfl fun h => h.2)
  · exact .give fun h => h.2

omit hp in
theorem atEnd_of_unaryOp? {op : UnaryOp} (h : unaryOp? c.current.kind = some op) :
    c.atEnd = false := by
  unfold Cursor.atEnd
  split
  · simp_all [unaryOp?]
  · rfl

omit hp in
theorem atEnd_of_updateOp? {op : UpdateOp} (h : updateOp? c.current.kind = some op) :
    c.atEnd = false := by
  unfold Cursor.atEnd
  split
  · simp_all [updateOp?]
  · rfl

omit hp in
theorem atEnd_of_joint? {j : Joint × Nat} (h : joint? c.current.kind = some j) :
    c.atEnd = false := by
  unfold Cursor.atEnd
  split
  · simp_all [joint?]
  · rfl

theorem unary_takes : Takes K (n + 1) (unary p) := by
  refine get_reads fun c hc hn => ?_
  have hunary : Takes (.opening hc.valid : Scene s known) c.left p.unary :=
    hp.unary.mono (Nat.le_of_lt_succ hn)
  dsimp only
  split
  · rename_i hsees
    refine ReadsAt.start hc (advance_at hc.opening (Cursor.atEnd_of_seesWord hsees) ?_)
    exact hunary.bind fun _ => node_keeps rfl fun h => h.2
  · split
    · rename_i hop
      refine ReadsAt.start hc (advance_at hc.opening (atEnd_of_unaryOp? hop) ?_)
      exact hunary.bind fun _ => node_keeps rfl fun h => h.2
    · split
      · rename_i hop
        refine ReadsAt.start hc (advance_at hc.opening (atEnd_of_updateOp? hop) ?_)
        exact hunary.bind fun _ => node_keeps rfl fun h => h.2
      · exact postfixUpdate_takes hp c hc hn

theorem binary_takes (least : Nat) : Takes K (n + 1) (binary p least) := by
  refine here_reads fun K => (unary_takes hp).below fun e => ?_
  refine repeating_keeps (fun h => h.2) fun left => get_reads fun c hc hn => ?_
  split
  · rename_i j precedence hjoint
    split
    · exact stop_at hc hc.facts.2
    · refine advance_at hc (atEnd_of_joint? hjoint) (Reads.mono ?_ (Nat.le_of_lt hn))
      refine (hp.binary _).bind fun right => spanFrom_pure fun c hc => ?_
      have hoperands : K.Has (K.reach c) (left, right) := hc.facts.1.2.and hc.facts.2
      cases j with
      | binary op => exact hc.over (a := Expr.binary op left right _) rfl hoperands
      | logical op => exact hc.over (a := Expr.logical op left right _) rfl hoperands
  · exact stop_at hc hc.facts.2

theorem conditional_takes : Takes K (n + 1) (conditional p) := by
  refine here_reads fun K => (binary_takes hp 0).below fun test => ?_
  refine (accept_reads .question).either ?_ (.give fun h => h.2)
  refine hp.assignment.bind fun _ => (require_takes .colon).seq (hp.assignment.bind fun _ => ?_)
  exact node_keeps rfl fun h => h.1.1.2.and (h.1.2.and h.2)

theorem yieldExpression_takes : Takes K (n + 1) (yieldExpression p) := by
  refine here_reads fun K => (requireWord_takes .yield_).past ((accept_reads .star).seq ?_)
  refine Keeps.bind (look_reads fun c => ?_) fun _ =>
    node_keeps rfl fun h => h.2
  split
  · exact .done rfl
  · exact hp.assignment.wrap rfl

theorem assignment_takes : Takes K (n + 1) (assignment p) := by
  refine get_reads fun c hc hn => ?_
  dsimp only
  split
  · exact yieldExpression_takes hp c hc hn
  · refine ReadsAt.start hc ?_
    split
    · exact bareArrow_takes hp false c hc.opening hn
    · refine (conditional_takes hp).below (fun e => look_reads fun c' => ?_) c hc.opening hn
      split
      · refine advance_keeps.seq (hp.assignment.bind fun value => ?_)
        split
        · rename_i target htarget
          refine .given (fun h => (Expr.toTarget_fits h.1.2).fits htarget) ?_
          exact node_keeps rfl fun h => h.2.and h.1.2
        · rename_i d htarget
          exact throw_reads fun h => (Expr.toTarget_fits h.1.2).fault htarget
      · exact .give fun h => h.2

theorem expression_takes : Takes K (n + 1) (expression p) :=
  sequenceFrom_takes hp (Nat.le_refl _) fun _ => assignment_takes hp

end

end PackScript.Parse
