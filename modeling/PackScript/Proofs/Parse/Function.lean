import PackScript.Parse.Function
import PackScript.Proofs.Parse.Type

namespace PackScript.Parse

/-!
# Patterns, functions and classes get on

* `Nested.Sound` — the parsers of nested parts take a token each, in a text with less than a number
  of bytes left.
* The rules for patterns, functions and classes do so with one byte more, since they take a token
  before they go down to a nested part.
-/

/-- The parsers of nested parts take a token. -/
structure Nested.Sound (s : String) (known : Prop) (n : Nat) (p : Nested) : Prop where
  assignment {K : Scene s known} : Takes K n p.assignment
  unary {K : Scene s known} : Takes K n p.unary
  binary {K : Scene s known} (precedence : Nat) : Takes K n (p.binary precedence)
  member {K : Scene s known} : Takes K n p.member
  leftHandSide {K : Scene s known} : Takes K n p.leftHandSide
  pattern {K : Scene s known} : Takes K n p.pattern
  statement {K : Scene s known} : Takes K n p.statement

variable {α : Type} [Nodes α] {s : String} {known : Prop} {K : Scene s known} {n : Nat} {p : Nested}

section

variable (hp : p.Sound s known n)

include hp

theorem sequenceFrom_takes {first : Parse Expr} {m : Nat} (hm : m ≤ n + 1)
    (hfirst : ∀ K : Scene s known, Takes K m first) : Takes K m (sequenceFrom p first) := by
  cases m with
  | zero => exact fun _ _ h => absurd h (Nat.not_lt_zero _)
  | succ m =>
    refine here_reads fun K => (hfirst K).below fun e => (sees_keeps .comma).either ?_ ?_
    · have hmore (K : Scene s known) : Keeps K m p.assignment :=
        (hp.assignment.mono (Nat.le_of_succ_le_succ hm)).keeps
      refine (afterCommas_keeps hmore).bind fun es => ?_
      exact node_keeps rfl fun h => h.1.2.cons h.2
    · exact .give fun h => h.2

theorem nestedExpression_takes : Takes K n (nestedExpression p) :=
  sequenceFrom_takes hp (Nat.le_succ n) fun _ => hp.assignment

theorem block_takes : Takes K (n + 1) (block p) := by
  refine here_reads fun K => (require_takes .lbrace).past ?_
  refine (manyUntil_keeps _ fun _ => hp.statement).bind fun body => ?_
  exact (require_takes .rbrace).seq (node_keeps rfl fun h => h.2)

/-! ### Patterns -/

/-- An expression in brackets is a key with the extent of the expression. -/
theorem computedKey_keeps : Keeps K n (computedKey p) :=
  hp.assignment.bind fun _ => (require_takes .rbracket).seq
    (.give fun h => h.2.wrap rfl rfl)

theorem propertyKey_takes : Takes K (n + 1) (propertyKey p) := by
  refine get_reads fun c hc hn => ?_
  dsimp only
  split
  · exact token_at hc (by simp [*]) rfl rfl
  · exact token_at hc (by simp [*]) rfl rfl
  · rename_i hkind
    refine advance_at hc (by simp [Cursor.atEnd, hkind]) ?_
    exact (computedKey_keeps hp).mono (Nat.le_of_lt_succ hn)
  · refine memberName_takes.before (fun _ => .give fun h => ?_) c hc hn
    exact h.2.leaf rfl rfl

theorem withDefaultFrom_keeps (pattern : Pattern) :
    Keeps (K.and pattern) n (withDefaultFrom p K.start pattern) := by
  refine (accept_reads .eq).either (hp.assignment.bind fun _ => ?_) (.give fun h => h.2)
  exact node_keeps rfl fun h => h.1.2.and h.2

theorem bindingElement_takes : Takes K n (bindingElement p) :=
  here_reads fun _ => hp.pattern.before fun pattern => withDefaultFrom_keeps hp pattern

theorem restElement_takes : Takes K (n + 1) (restElement p) :=
  here_reads fun _ => (require_takes .dotDotDot).past <| hp.pattern.bind fun _ =>
    node_keeps rfl fun h => h.2

theorem patternProperty_takes : Takes K (n + 1) (patternProperty p) := by
  refine (sees_keeps .dotDotDot).either ?_ (here_reads fun K => (propertyKey_takes hp).below ?_)
  · refine (restElement_takes hp).before fun _ => .give fun h => ?_
    exact h.2.rebuild rfl h.2.lies.sound.children
  · intro key
    refine Keeps.bind ?_ fun _ =>
      node_keeps rfl fun h => h.1.2.and h.2
    refine (accept_reads .colon).either (bindingElement_takes hp).keeps ?_
    cases key with
    | ident id =>
      refine .given (b := Pattern.ident id) (fun h => ?_) (withDefaultFrom_keeps hp _)
      exact h.2.leaf rfl rfl
    | _ => exact fault_reads _

theorem objectPattern_takes : Takes K (n + 1) (objectPattern p) := by
  refine here_reads fun K => (require_takes .lbrace).past ?_
  refine (commaUntil_keeps _ fun _ => (patternProperty_takes hp).lower.keeps).bind fun _ => ?_
  exact (require_takes .rbrace).seq (node_keeps rfl fun h => h.2)

omit hp in
/-- A hole takes its comma, and so does an element that others may follow. -/
theorem holeOr_reads {element : Parse α} (h : ∀ K : Scene s known, Keeps K n element) :
    Reads K n (fun r => r.2 = true) (holeOr element) := by
  refine (accept_reads .comma).before_if (.done rfl) ((h K).bind fun a => ?_)
  refine (accept_reads .comma).before_if (.give fun h => ?_) (.give_of nofun fun h => ?_)
  · exact h.2.and nofun
  · exact h.2.and nofun

omit hp in
theorem elementsUntilBracket_keeps {element : Parse α}
    (h : ∀ K : Scene s known, Keeps K n element) :
    Keeps K n (elementsUntilBracket element) := by
  refine repeating_keeps (fun _ => fits_nil) fun taken => look_reads fun c => ?_
  split
  · exact .give_of nofun fun h => h.2.reverse
  · refine (holeOr_reads h).before_or (fun (a, more) hmore => ?_) fun (a, more) hmore => ?_
    · dsimp only at hmore ⊢
      rw [if_pos hmore]
      exact .give fun h => h.2.fst.cons h.1.2
    · dsimp only at hmore ⊢
      rw [if_neg hmore]
      exact .give_of nofun fun h => (h.2.fst.cons h.1.2).reverse

theorem patternElement_keeps : Keeps K n (patternElement p) := by
  refine (sees_keeps .dotDotDot).either ?_ (bindingElement_takes hp).keeps
  exact (restElement_takes hp).lower.wrap rfl

theorem arrayPattern_takes : Takes K (n + 1) (arrayPattern p) := by
  refine here_reads fun K => (require_takes .lbracket).past ?_
  refine (elementsUntilBracket_keeps fun _ => patternElement_keeps hp).bind fun _ => ?_
  exact (require_takes .rbracket).seq (node_keeps rfl fun h => h.2)

theorem bindingPattern_takes : Takes K (n + 1) (bindingPattern p) := by
  refine look_reads fun c => ?_
  split
  · exact objectPattern_takes hp
  · split
    · exact arrayPattern_takes hp
    · refine bindingName_takes.before fun _ => .give fun h => ?_
      exact h.2.leaf rfl rfl

theorem param_takes : Takes K n (param p) := by
  refine here_reads fun K => skipModifiers_keeps.seq ((sees_keeps .dotDotDot).either ?_ ?_)
  · refine Takes.before (restElement_takes hp).lower fun rest => skipAnnotation_keeps.seq ?_
    refine spanFrom_pure fun c hc => ?_
    have hrest : K.Has (K.reach c) (Pattern.rest rest.1 (c.spanFrom K.start)) :=
      hc.over rfl fun y hy => hc.facts.2.lies.inner hy
    exact hrest.wrap rfl rfl
  · refine Takes.before (bindingPattern_takes hp).lower fun pattern => ?_
    refine (accept_reads .question).seq ?_
    refine skipAnnotation_keeps.seq ((withDefaultFrom_keeps hp pattern).bind fun _ => ?_)
    exact node_keeps rfl fun h => h.2

theorem params_takes : Takes K (n + 1) (params p) :=
  (require_takes .lparen).past <| (commaUntil_keeps _ fun _ => (param_takes hp).keeps).bind fun _ =>
    (require_takes .rparen).seq (.give fun h => h.2)

/-! ### Functions -/

theorem functionTail_takes : Takes K (n + 1) (functionTail p) := by
  refine skipTypeArguments_keeps.seq ((params_takes hp).before fun _ => skipReturnType_keeps.seq ?_)
  exact (block_takes hp).bind fun _ => .give fun h => h.1.2.and h.2

/-- A function in another form, which may depend on what its name was read as. -/
theorem functionFrom_takes [IsNode β] (isAsync : Bool) {name : Parse α} (hname : Keeps K n name)
    (label : α → Option Ident) (hlabel : ∀ a, nodes (label a) = nodes a) (give : α → Function → β)
    (hgive : ∀ a fn high, fn.id = label a → K.Has high fn → K.Has high (give a fn)) :
    Takes K (n + 1) (do
      let r ← functionFrom p K.start isAsync name
      return give r.1 (r.2 (label r.1))) := by
  rw [functionFrom, bind_assoc]
  refine (requireWord_takes .function_).past ?_
  rw [bind_assoc]
  refine (accept_reads .star).drop fun generator => ?_
  rw [bind_assoc]
  refine hname.bind fun a => ?_
  rw [bind_assoc]
  refine (functionTail_takes hp).lower.bind fun (ps, body) c hc _ => ?_
  refine ⟨hc.valid, .refl hc.ordered id, hgive a _ _ rfl (hc.over rfl ?_)⟩
  exact (hc.facts.1.2.of_nodes (hlabel a)).and hc.facts.2

omit hp in
theorem functionName?_keeps : Keeps K n functionName? := by
  refine look_reads fun c => ?_
  split
  · exact .done rfl
  · exact bindingName_takes.wrap rfl

theorem functionExpression_takes (isAsync : Bool) :
    Takes K (n + 1) (functionExpression p K.start isAsync) :=
  functionFrom_takes hp isAsync functionName?_keeps (fun id => id) (fun _ => rfl)
    (fun _ => Expr.function) fun _ _ _ _ h => h.wrap rfl rfl

theorem functionDeclaration_takes (isAsync : Bool) :
    Takes K (n + 1) (functionDeclaration p K.start isAsync) := by
  refine functionFrom_takes hp isAsync bindingName_takes.keeps some (fun _ => rfl) Stmt.function
    fun id fn _ hlabel h => ?_
  have hid : Fits s known _ _ fn.id := Fits.fst h.lies.sound.children
  rw [hlabel] at hid
  exact h.rebuild rfl (Fits.and (a := id) hid h.self)

theorem methodFunction_takes (isAsync generator : Bool) :
    Takes K (n + 1) (methodFunction p K.start isAsync generator) :=
  (functionTail_takes hp).before fun _ => node_keeps rfl fun h =>
    Fits.and (a := none) nofun h.2

theorem arrowFrom_keeps (isAsync : Bool) (ps : List Param) :
    Keeps (K.and ps) n (arrowFrom p K.start isAsync ps) := by
  refine skipReturnType_keeps.seq ((require_takes .arrow).seq ?_)
  refine Keeps.bind ?_ fun _ =>
    node_keeps rfl fun h => h.1.2.and h.2
  exact (sees_keeps .lbrace).either ((block_takes hp).lower.wrap rfl)
    (hp.assignment.wrap rfl)

theorem bareArrow_takes (isAsync : Bool) : Takes K (n + 1) (bareArrow p K.start isAsync) := by
  refine bindingName_takes.below fun id => .given (fun h => ?_) (arrowFrom_keeps hp isAsync _)
  have hpattern : K.Has _ (Pattern.ident id) := h.2.leaf rfl rfl
  exact Fits.cons (hpattern.wrap rfl rfl) fits_nil

/-! ### Classes -/

omit hp in
theorem acceptAsyncMember_keeps : Keeps K n acceptAsyncMember := by
  refine look_reads fun c => ?_
  split
  · exact advance_keeps.seq (.done rfl)
  · exact .done rfl

omit hp in
theorem acceptStatic_keeps : Keeps K n acceptStatic := by
  refine look_reads fun c => ?_
  split
  · exact advance_keeps.seq (.done rfl)
  · exact .done rfl

omit hp in
theorem accessorKind_keeps : Keeps K n accessorKind := by
  refine look_reads fun c => ?_
  split
  · exact advance_keeps.seq (.done rfl)
  · exact .done rfl

theorem fieldFrom_keeps (key : PropertyKey) (isStatic : Bool) :
    Keeps (K.and key) n (fieldFrom p K.start key isStatic) := by
  refine (accept_reads .question).seq ((accept_reads .bang).seq (skipAnnotation_keeps.seq ?_))
  refine Keeps.bind ?_ fun _ => endStatement_keeps.seq <|
    node_keeps rfl fun h => h.1.2.and h.2
  exact (accept_reads .eq).either (hp.assignment.wrap rfl) (.done rfl)

theorem classMember_takes : Takes K (n + 1) (classMember p) := by
  refine here_reads fun K => skipModifiers_keeps.seq ?_
  refine acceptStatic_keeps.drop fun isStatic => acceptAsyncMember_keeps.drop fun isAsync => ?_
  refine (accept_reads .star).drop fun generator => get_reads fun c hc hn => ?_
  split
  · rename_i hsees
    have hend : c.atEnd = false := by
      rw [Bool.and_eq_true, Bool.and_eq_true] at hsees
      exact atEnd_of_seesNamed hsees.1.2
    refine advance_at hc hend (Reads.mono ?_ (Nat.le_of_lt_succ hn))
    refine (params_takes hp).lower.bind fun _ => (block_takes hp).lower.bind fun _ => ?_
    exact node_keeps rfl fun h => h.1.2.and h.2
  · refine Reads.drop accessorKind_keeps (fun kind => ?_) c hc hn
    refine (propertyKey_takes hp).below fun key => look_reads fun c => ?_
    split
    · refine (methodFunction_takes hp isAsync generator).lower.bind fun _ => ?_
      exact node_keeps rfl fun h => h.1.2.and h.2
    · exact fieldFrom_keeps hp key isStatic

theorem classBody_takes : Takes K (n + 1) (classBody p) := by
  refine here_reads fun K => (require_takes .lbrace).past ?_
  refine Keeps.bind ?_ fun _ => (require_takes .rbrace).seq <|
    node_keeps rfl fun h => h.2
  refine repeating_keeps (fun _ => fits_nil) fun taken => look_reads fun c => ?_
  split
  · exact .give_of nofun fun h => h.2.reverse
  · refine (accept_reads .semicolon).before_if (.give fun h => h.2) ?_
    exact Takes.before (classMember_takes hp).lower fun _ => .give fun h => h.2.cons h.1.2

theorem heritage_keeps : Keeps K n (heritage p) := by
  refine (acceptWord_reads .extends_).either (hp.leftHandSide.bind fun _ => ?_) (.done rfl)
  exact skipTypeArguments_keeps.seq (.give fun h => h.2)

/-- A class in another form, which may depend on what its name was read as. -/
theorem classFrom_takes [IsNode β] {name : Parse α} (hname : ∀ K : Scene s known, Keeps K n name)
    (label : α → Option Ident) (hlabel : ∀ a, nodes (label a) = nodes a) (give : α → ClassNode → β)
    (hgive : ∀ a cls low high, cls.id = label a → Fits s known low high cls →
      Fits s known low high (give a cls)) :
    Takes K (n + 1) (do
      let r ← classFrom p name
      return give r.1 (r.2 (label r.1))) := by
  rw [classFrom, bind_assoc]
  refine here_reads fun K => ?_
  rw [bind_assoc]
  refine (requireWord_takes .class_).past ?_
  rw [bind_assoc]
  refine (hname K).bind fun a => skipTypeArguments_keeps.seq_bind ?_
  rw [bind_assoc]
  refine (heritage_keeps hp).bind fun parent => ?_
  rw [bind_assoc]
  have hbody : Keeps ((K.and a).and parent) n ((do
      let body ← classBody p
      let span ← spanFrom K.start
      return (a, fun id => (⟨id, parent, body.1, body.2, span⟩ : ClassNode))) >>= fun r =>
        pure (give r.1 (r.2 (label r.1)))) := by
    rw [bind_assoc]
    refine (classBody_takes hp).lower.bind fun body c hc _ => ?_
    refine ⟨hc.valid, .refl hc.ordered id, hgive a _ _ _ rfl (hc.over rfl ?_)⟩
    exact (hc.facts.1.1.2.of_nodes (hlabel a)).and (hc.facts.1.2.and hc.facts.2)
  exact (seesNamed_keeps _).either (advance_keeps.seq_bind (skipTypes_takes.seq_bind hbody)) hbody

omit hp in
theorem className?_keeps : Keeps K n className? :=
  seesName_keeps.either (bindingName_takes.wrap rfl) (.done rfl)

theorem classExpression_takes : Takes K (n + 1) (classExpression p) :=
  classFrom_takes hp (fun _ => className?_keeps) (fun id => id) (fun _ => rfl)
    (fun _ => Expr.classExpr) fun _ _ _ _ _ h => h.wrap rfl rfl

theorem classDeclaration_takes : Takes K (n + 1) (classDeclaration p) := by
  refine classFrom_takes hp (fun _ => bindingName_takes.keeps) some (fun _ => rfl)
    Stmt.classDecl fun id cls _ _ hlabel h => ?_
  have hid : Fits s known _ _ cls.id := Fits.fst h.lies.sound.children
  rw [hlabel] at hid
  exact h.rebuild rfl (Fits.and (a := id) hid h.self)

end

end PackScript.Parse
