import PackScript.Parse.Script
import PackScript.Proofs.Parse.Expression

namespace PackScript

/-!
# Parsing comes to an end

Every rule for statements takes a token, and a rule goes down one level of nesting only behind a
token. So a text has fewer levels than bytes, and neither the bound on nesting nor that on the
rounds of a loop is ever met.

* `Parse.nested_sound` — the parsers at a level of nesting do what they should on all texts with
  less bytes than levels left.
* `parse_ends_at_a_token` — a text is a script, or has a fault at one of its tokens or at its end.
-/

namespace Parse

variable {s : String} {known : Prop} {K : Scene s known} {n : Nat} {p : Nested} {c : Cursor}

section

variable (hp : p.Sound s known n)

include hp

/-! ### Declarations -/

theorem declarator_takes : Takes K (n + 1) (declarator p) := by
  refine here_reads fun K => (bindingPattern_takes hp).below fun _ => (accept_reads .bang).seq ?_
  refine skipAnnotation_keeps.seq (Keeps.bind ?_ fun _ =>
    node_keeps rfl fun h => h.1.2.and h.2)
  exact (accept_reads .eq).either (hp.assignment.wrap rfl) (.done rfl)

/-- Behind the word that declares variables. -/
theorem declarators_takes (kind : DeclKind) : Takes K n (do
    let first ← declarator p
    let rest ← afterCommas (declarator p)
    return (⟨kind, first :: rest, ← spanFrom K.start⟩ : Declaration)) := by
  refine Takes.before (declarator_takes hp).lower fun _ => ?_
  refine (afterCommas_keeps fun _ => (declarator_takes hp).lower.keeps).bind fun _ => ?_
  exact node_keeps rfl fun h => h.1.2.cons h.2

omit hp in
theorem unsupported_keeps (construct : String) : Keeps K n (unsupported construct K.start) :=
  node_keeps rfl fun _ => nofun

theorem inParentheses_takes : Takes K (n + 1) (inParentheses p) :=
  (require_takes .lparen).past <| (nestedExpression_takes hp).bind fun _ =>
    (require_takes .rparen).seq (.give fun h => h.2)

theorem branch_takes : Takes K (n + 1) (branch p) := by
  refine here_reads fun K => (requireWord_takes .if_).past ?_
  refine (inParentheses_takes hp).lower.bind fun _ => hp.statement.bind fun _ => ?_
  refine Keeps.bind ?_ fun _ =>
    node_keeps rfl fun h => h.1.1.2.and (h.1.2.and h.2)
  exact (acceptWord_reads .else_).either (hp.statement.wrap rfl) (.done rfl)

/-! ### Loops -/

theorem forEachFrom_keeps (target : ForTarget) (isOf : Bool) :
    Keeps (K.and target) n (forEachFrom p K.start target isOf) := by
  refine Keeps.bind ?_ fun subject => (require_takes .rparen).seq <|
    hp.statement.bind fun _ => ?_
  · split
    · exact hp.assignment.keeps
    · exact (nestedExpression_takes hp).keeps
  · split
    · exact node_keeps rfl fun h => h.1.1.2.and (h.1.2.and h.2)
    · exact (unsupported_keeps _).forget

theorem expressionBefore?_keeps (mark : Punct) : Keeps K n (expressionBefore? p mark) :=
  (sees_keeps mark).either (.done rfl) ((nestedExpression_takes hp).wrap rfl)

theorem forLoopFrom_keeps (init : Option ForInit) :
    Keeps (K.and init) n (forLoopFrom p K.start init) := by
  refine (require_takes .semicolon).seq ((expressionBefore?_keeps hp .semicolon).bind fun _ => ?_)
  refine (require_takes .semicolon).seq ((expressionBefore?_keeps hp .rparen).bind fun _ => ?_)
  refine (require_takes .rparen).seq (hp.statement.bind fun _ => ?_)
  exact node_keeps rfl fun h => h.1.1.1.2.and (h.1.1.2.and (h.1.2.and h.2))

omit hp in
theorem loopPattern?_fits {low high : Nat} {decl : Declaration} {pattern : Pattern}
    (h : Fits s known low high decl) (hpattern : loopPattern? decl = some pattern) :
    Fits s known low high pattern := by
  unfold loopPattern? at hpattern
  split at hpattern
  · rename_i hdecl
    cases hpattern
    have hall : Fits s known low high decl.declarators := fun x hx => h.lies.inner hx
    rw [hdecl] at hall
    have hfirst := fits_list.1 hall _ (List.mem_singleton_self _)
    exact fun x hx => hfirst.lies.inner (List.mem_append_left _ hx)
  · cases hpattern

theorem forDeclared_keeps (kind : DeclKind) : Keeps K n (forDeclared p K.start kind) := by
  have hdecl : Keeps K n (do declarationFrom p (← here) kind) :=
    here_reads fun K => advance_keeps.seq (declarators_takes hp kind)
  rw [forDeclared, ← bind_assoc]
  refine Reads.bind hdecl fun decl => look_reads fun c => ?_
  have hloop : Keeps (K.and decl) n (forLoopFrom p K.start (some (.declare decl))) :=
    forLoopFrom_keeps hp (some (.declare decl))
  split
  · rename_i pattern hpattern
    split
    · refine advance_keeps.seq (.given (fun h => ?_) (forEachFrom_keeps hp _ _))
      exact loopPattern?_fits h.2 hpattern
    · exact hloop
  · exact hloop

omit hp in
theorem inOperand?_fits {low high : Nat} {e left : Expr} (h : Fits s known low high e)
    (hleft : inOperand? e = some left) : Fits s known e.span.start e.span.stop left := by
  unfold inOperand? at hleft
  split at hleft
  · cases hleft
    exact Fits.fst h.lies.sound.children
  · cases hleft

theorem forExpression_keeps : Keeps K n (forExpression p K.start) := by
  refine (nestedExpression_takes hp).bind fun e => (acceptWord_reads .of_).either ?_ ?_
  · rw [if_pos rfl]
    cases hpattern : e.toPattern with
    | ok pattern =>
      refine .given (fun h => ?_) (forEachFrom_keeps hp _ _)
      exact (e.toPattern_fits h.2).fits hpattern
    | error d => exact throw_reads fun h => (e.toPattern_fits h.2).fault hpattern
  · refine (sees_keeps .rparen).drop fun closed => ?_
    cases hleft : (if closed then inOperand? e else none) with
    | none => exact forLoopFrom_keeps hp (some (.expr e))
    | some left =>
      dsimp only
      split
      · exact advance_keeps.seq (hp.statement.seq (unsupported_keeps _).forget)
      · rename_i d hd
        refine throw_reads fun h => (left.toPattern_fits (inOperand?_fits h.2 ?_)).fault hd
        cases closed with
        | true => exact hleft
        | false => cases hleft

theorem forLoop_takes : Takes K (n + 1) (forLoop p) := by
  refine here_reads fun K => (requireWord_takes .for_).past ?_
  refine (seesWord_keeps .await_).either (fault_reads _) ?_
  refine (require_takes .lparen).seq (look_reads fun c => ?_)
  split
  · exact .given (fun _ => fits_of_nodes rfl) (forLoopFrom_keeps hp none)
  · split
    · exact forDeclared_keeps hp _
    · exact forExpression_keeps hp

theorem whileLoop_takes : Takes K (n + 1) (whileLoop p) := by
  refine here_reads fun K => (requireWord_takes .while_).past ?_
  refine (inParentheses_takes hp).lower.bind fun _ => hp.statement.bind fun _ => ?_
  exact node_keeps rfl fun h => h.1.2.and h.2

theorem doWhile_takes : Takes K (n + 1) (doWhile p) := by
  refine here_reads fun K => (requireWord_takes .do_).past (hp.statement.bind fun _ => ?_)
  refine (requireWord_takes .while_).seq ((inParentheses_takes hp).lower.bind fun _ => ?_)
  exact (accept_reads .semicolon).seq (node_keeps rfl fun h => h.1.2.and h.2)

/-! ### Switches -/

theorem caseTest_takes (seenDefault : Bool) : Takes K (n + 1) (caseTest p seenDefault) := by
  refine (acceptWord_reads .case_).below_if ((nestedExpression_takes hp).wrap rfl) ?_
  refine (acceptWord_reads .default_).below_if ?_ (reject_reads _)
  cases seenDefault with
  | true => exact fault_reads _
  | false => exact .done rfl

theorem switchCase_takes (seenDefault : Bool) : Takes K (n + 1) (switchCase p seenDefault) := by
  refine here_reads fun K => (caseTest_takes hp seenDefault).below fun _ => ?_
  refine (require_takes .colon).seq ((manyUntil_keeps _ fun _ => hp.statement).bind fun _ => ?_)
  exact node_keeps rfl fun h => h.1.2.and h.2

theorem switch_takes : Takes K (n + 1) (switch p) := by
  refine here_reads fun K => (requireWord_takes .switch_).past ?_
  refine (inParentheses_takes hp).lower.bind fun _ => (require_takes .lbrace).seq ?_
  refine Keeps.bind ?_ fun _ => (require_takes .rbrace).seq <|
    node_keeps rfl fun h => h.1.2.and h.2
  refine repeating_keeps (fun _ => fits_nil) fun taken => look_reads fun c => ?_
  split
  · exact .give_of nofun fun h => h.2.reverse
  · exact Takes.before (switchCase_takes hp _).lower fun _ => .give fun h => h.2.cons h.1.2

/-! ### Jumps and statements without counterpart -/

theorem returnArgument_keeps : Keeps K n (returnArgument p) := by
  refine look_reads fun c => ?_
  split
  · exact .done rfl
  · exact (nestedExpression_takes hp).wrap rfl

theorem returning_takes : Takes K (n + 1) (returning p) := by
  refine here_reads fun K => (requireWord_takes .return_).past ?_
  refine (returnArgument_keeps hp).bind fun _ => endStatement_keeps.seq ?_
  exact node_keeps rfl fun h => h.2

omit hp in
theorem label?_keeps : Keeps K n label? := by
  refine look_reads fun c => ?_
  split
  · exact bindingName_takes.wrap rfl
  · exact .done rfl

omit hp in
theorem breaking_takes : Takes K n breaking := by
  refine here_reads fun K => (requireWord_takes .break_).after (label?_keeps.bind fun _ => ?_)
  exact endStatement_keeps.seq (node_keeps rfl fun h => h.2)

omit hp in
theorem continuing_takes : Takes K n continuing :=
  here_reads fun _ => (requireWord_takes .continue_).after <|
    label?_keeps.seq (endStatement_keeps.seq (unsupported_keeps _))

theorem throwing_takes : Takes K (n + 1) (throwing p) := by
  refine here_reads fun K => (requireWord_takes .throw_).past ?_
  refine newlineBefore_keeps.either (fault_reads _) ((nestedExpression_takes hp).seq ?_)
  exact endStatement_keeps.seq (unsupported_keeps _)

theorem catchClause_keeps : Keeps K n (catchClause p) := by
  have hbody : Keeps K n (do let _ ← block p) := (block_takes hp).lower.seq (.done rfl)
  refine (accept_reads .lparen).either ((bindingPattern_takes hp).lower.seq ?_) hbody
  exact skipAnnotation_keeps.seq ((require_takes .rparen).seq hbody)

theorem trying_takes : Takes K (n + 1) (trying p) := by
  refine here_reads fun K => (requireWord_takes .try_).past ((block_takes hp).lower.seq ?_)
  refine (acceptWord_reads .catch_).drop fun caught => ?_
  have hend (finished : Bool) : Keeps K n (if caught || finished then
      unsupported "try statement" K.start else fault "Missing catch or finally after try") := by
    split
    · exact unsupported_keeps _
    · exact fault_reads _
  have hfinally : Keeps K n (do
      let finished ← acceptWord .finally_
      if finished then
        let _ ← block p
      if caught || finished then unsupported "try statement" K.start
      else fault "Missing catch or finally after try") :=
    (acceptWord_reads .finally_).either ((block_takes hp).lower.seq (hend true)) (hend false)
  cases caught with
  | true => exact (catchClause_keeps hp).seq hfinally
  | false => exact hfinally

theorem labeled_takes : Takes K (n + 1) (labeled p) :=
  here_reads fun _ => bindingName_takes.past <| (require_takes .colon).seq <|
    hp.statement.seq (unsupported_keeps _)

/-! ### All statements -/

theorem declaration_takes (hc : K.Holds c) (hn : c.left < n + 1) (hend : c.atEnd = false)
    (kind : DeclKind) : ReadsAt K c (fun _ => True) (declaration p kind) := by
  have hfrom : ReadsAt (.opening hc.valid : Scene s known) c (fun _ => True)
      (declarationFrom p c.current.span kind) :=
    advance_at hc.opening hend ((declarators_takes hp kind).keeps.mono (Nat.le_of_lt_succ hn))
  have hdecl : ReadsAt K c (fun _ => True) (do declarationFrom p (← here) kind) :=
    ReadsAt.start hc hfrom
  rw [declaration, ← bind_assoc]
  refine ReadsAt.before hc hdecl fun _ => endStatement_keeps.seq (.give fun h => ?_)
  exact Fits.wrap h.2 rfl rfl

theorem expressionStatement_takes : Takes K (n + 1) (expressionStatement p) :=
  here_reads fun _ => (expression_takes hp).before fun _ => endStatement_keeps.seq <|
    node_keeps rfl fun h => h.2

theorem statementByToken_takes : Takes K (n + 1) (statementByToken p) := by
  refine get_reads fun c hc hn => ?_
  dsimp only
  split
  iterate 3
    · rename_i hkind
      exact declaration_takes hp hc hn (by simp [Cursor.atEnd, hkind]) _
  · exact ReadsAt.start hc (functionDeclaration_takes hp false c hc.opening hn)
  · exact classDeclaration_takes hp c hc hn
  · exact branch_takes hp c hc hn
  · exact forLoop_takes hp c hc hn
  · exact whileLoop_takes hp c hc hn
  · exact doWhile_takes hp c hc hn
  · exact switch_takes hp c hc hn
  · exact trying_takes hp c hc hn
  · exact returning_takes hp c hc hn
  · exact breaking_takes c hc hn
  · exact continuing_takes c hc hn
  · exact throwing_takes hp c hc hn
  · refine (block_takes hp).before (fun _ => .give fun h => ?_) c hc hn
    exact Fits.wrap h.2 rfl rfl
  · exact token_at hc (by simp [*]) rfl rfl
  · exact expressionStatement_takes hp c hc hn

theorem statement_takes : Takes K (n + 1) (statement p) := by
  refine get_reads fun c hc hn => ?_
  split
  · exact labeled_takes hp c hc hn
  · refine skipTypeDeclaration_at hc (fun n => ?_) ?_
    · exact node_keeps (f := Stmt.empty) rfl fun _ => nofun
    · dsimp only
      split
      · rename_i hsees
        rw [Bool.and_eq_true] at hsees
        refine ReadsAt.start hc (advance_at hc.opening (Cursor.atEnd_of_seesWord hsees.1) ?_)
        exact (functionDeclaration_takes hp true).keeps.mono (Nat.le_of_lt hn)
      · exact statementByToken_takes hp c hc hn

end

/-- The parsers at a level of nesting take a token each, on all texts with less bytes than levels
    left. -/
theorem nested_sound (s : String) (known : Prop) (levels : Nat) :
    (nested levels).Sound s known levels := by
  induction levels with
  | zero => constructor <;> intros <;> exact fun _ _ h => absurd h (Nat.not_lt_zero _)
  | succ levels ih =>
    exact ⟨assignment_takes ih, unary_takes ih, binary_takes ih, memberExpression_takes ih,
      leftHandSide_takes ih, bindingPattern_takes ih, statement_takes ih⟩

theorem script_keeps (levels : Nat) : Keeps K (levels + 1) (script levels) :=
  (manyUntil_keeps _ fun _ => statement_takes (nested_sound s known levels)).wrap rfl

/-- A text is read from its start to its end, where all places are known. -/
theorem script_ends (source : String) :
    ReadsAt (.opening (Cursor.valid_ofText source) : Scene source True) (.ofText source)
      (fun _ => False) (script (source.utf8ByteSize + 1)) := by
  have hleft : (Cursor.ofText source).left ≤ source.utf8ByteSize := Nat.sub_le _ _
  refine script_keeps _ _ ⟨Cursor.valid_ofText source, fun _ => ?_, fun _ => Nat.le_refl _, trivial⟩
    (by omega)
  exact Nat.zero_le _

end Parse

/-- A text is a script, or it is at fault at one of its tokens or at its end, and the line and
    column of the fault are those of this token. The bounds on nesting and on rounds are never met,
    since that would be reported as something else than a fault of the text. -/
theorem parse_ends_at_a_token (source : String) :
    (∃ script, parseScript source = .ok script) ∨
    ∃ d token before piece rest, parseScript source = .error d ∧ d.kind = .malformed ∧
      IsTokenOf source token ∧ d.location = .ofSpan token.span ∧
      source.toList = before ++ piece ++ rest ∧ token.span.Covers before piece ∧
      (piece ≠ [] ∨ token.kind = .eof ∧ rest = []) := by
  have hends := Parse.script_ends source
  unfold Parse.ReadsAt at hends
  unfold parseScript
  cases hrun : Parse.script (source.utf8ByteSize + 1) (Cursor.ofText source) with
  | ok r => exact .inl ⟨r.1, rfl⟩
  | error d =>
    rw [hrun] at hends
    obtain ⟨hkind, token, htoken, hlocation⟩ := hends
    obtain ⟨before, piece, rest, hcovers⟩ := htoken.covers
    exact .inr ⟨d, token, before, piece, rest, rfl, hkind, htoken, hlocation, hcovers⟩

end PackScript
