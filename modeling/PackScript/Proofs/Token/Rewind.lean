import PackScript.Proofs.Token.Stream

namespace PackScript

/-!
# Going back in a text

Of a lexer only its place and its mark are kept to go back to it. The characters ahead are found
again by the offset of the place, and so they are at the brace behind a substitution.

* `Lexer.answers` — what a sequence of operations gives: the tokens that are read, and after each
  operation the place and the mark.
* `Lexer.Met` — the lexers that come up if tokens are read, checkpoints restored and template
  literals read on in any order.
* `Lexer.At.restore_checkpoint` — a lexer in a text is found again from its checkpoint.
* `restore_rewinds` — what happens between a checkpoint and going back to it makes no difference.
-/

/-- What can be done with a lexer. -/
inductive LexerOp where
  | next
  | checkpoint
  | restore (saved : Lexer.Checkpoint)
  | resume (brace : Span)

namespace Lexer

/-- One operation, with the token that it reads, if it reads one. -/
def perform (l : Lexer) : LexerOp → Option Token × Lexer
  | .next => (l.next.1, l.next.2)
  | .checkpoint => (none, l)
  | .restore saved => (none, l.restore saved)
  | .resume brace => ((l.resume brace).1, (l.resume brace).2)

/-- The lexer after a sequence of operations. -/
def performAll (l : Lexer) (ops : List LexerOp) : Lexer :=
  ops.foldl (fun l op => (l.perform op).2) l

/-- What a sequence of operations gives. -/
def answers (l : Lexer) : List LexerOp → List (Option Token × Checkpoint)
  | [] => []
  | op :: ops =>
    ((l.perform op).1, (l.perform op).2.checkpoint) :: (l.perform op).2.answers ops

/-- The lexers that come up: at the start, behind a token, back at the checkpoint of another one,
    and behind a piece of the template literal that goes on at a brace which another one has
    read. -/
inductive Met (s : String) : Lexer → Prop
  | start : Met s (ofText s)
  | next {l} : Met s l → Met s l.next.2
  | restore {l l'} : Met s l → Met s l' → Met s (l.restore l'.checkpoint)
  | resume {l l'} : Met s l → Met s l' → l'.next.1.kind = .punct .rbrace →
      Met s (l.resume l'.next.1.span).2

variable {s : String} {l l' : Lexer} {text before : List Char}

/-- The characters ahead of a lexer are those behind its offset. -/
theorem At.restore_checkpoint (h : l.At text before) (hsource : l'.source = text) :
    l'.restore l.checkpoint = l := by
  have hrest : dropBytes l.position.offset l'.source = l.rest := by
    rw [hsource, h.position, h.split]
    exact dropBytes_append before l.rest
  obtain ⟨source, rest, position, newline⟩ := l
  obtain rfl : source = text := h.source
  obtain ⟨_, _, _, _⟩ := l'
  cases hsource
  exact congrArg (Lexer.mk _ · position newline) hrest

/-- A lexer anywhere in the text reads on at a brace that another one has read. -/
theorem At.resume {before' : List Char} (h : l.At text before) (h' : l'.At text before')
    (hkind : l'.next.1.kind = .punct .rbrace) :
    ∃ start piece, (l.resume l'.next.1.span).2.At text (start ++ piece) ∧
      (l.resume l'.next.1.span).1.span.Covers start piece := by
  obtain ⟨gap, hnext, hcovers⟩ := h'.next_rbrace hkind
  obtain ⟨piece, hresume⟩ := resume_at h.source hnext.split_brace hcovers
  exact ⟨_, _, hresume⟩

/-- All lexers that come up are in the text. -/
theorem Met.exists_at (h : Met s l) : ∃ before, l.At s.toList before := by
  induction h with
  | start => exact ⟨[], at_ofText s⟩
  | next _ ih =>
    obtain ⟨before, hat⟩ := ih
    obtain ⟨gap, piece, _, _, hnext, _⟩ := hat.next
    exact ⟨_, hnext⟩
  | restore _ _ ih ih' =>
    obtain ⟨before, hat⟩ := ih
    obtain ⟨before', hat'⟩ := ih'
    rw [hat'.restore_checkpoint hat.source]
    exact ⟨before', hat'⟩
  | resume _ _ hkind ih ih' =>
    obtain ⟨before, hat⟩ := ih
    obtain ⟨before', hat'⟩ := ih'
    obtain ⟨start, piece, hresume, _⟩ := hat.resume hat' hkind
    exact ⟨_, hresume⟩

theorem perform_source (l : Lexer) (op : LexerOp) : (l.perform op).2.source = l.source := by
  cases op with
  | next =>
    unfold perform Lexer.next
    dsimp only
    split <;> rfl
  | _ => rfl

theorem performAll_source (l : Lexer) (ops : List LexerOp) :
    (l.performAll ops).source = l.source := by
  induction ops generalizing l with
  | nil => rfl
  | cons op ops ih => exact (ih _).trans (l.perform_source op)

end Lexer

/-- A lexer that has come up, and any operations on it. If it goes back to its checkpoint then, all
    later operations give the same tokens, places and marks as if there had been none in between.
    The tokens that it reads next, or at a brace that was read, lie in the text, with the line and
    column of the place where they begin. -/
theorem restore_rewinds {s : String} {l : Lexer} (h : l.Met s) :
    (∀ between later, ((l.performAll between).restore l.checkpoint).answers later =
      l.answers later) ∧
    ∀ token, (token = l.next.1 ∨ ∃ l', Lexer.Met s l' ∧ l'.next.1.kind = .punct .rbrace ∧
        token = (l.resume l'.next.1.span).1) →
      ∃ before piece rest, s.toList = before ++ piece ++ rest ∧ token.span.Covers before piece := by
  obtain ⟨before, hat⟩ := h.exists_at
  refine ⟨fun between later => ?_, ?_⟩
  · have hsource : (l.performAll between).source = s.toList :=
      (l.performAll_source between).trans hat.source
    rw [hat.restore_checkpoint hsource]
  · rintro token (rfl | ⟨l', h', hkind, rfl⟩)
    · obtain ⟨gap, piece, _, _, hnext, hcovers, _⟩ := hat.next
      exact ⟨_, piece, _, hnext.split, hcovers⟩
    · obtain ⟨before', hat'⟩ := h'.exists_at
      obtain ⟨start, piece, hresume, hcovers⟩ := hat.resume hat' hkind
      exact ⟨start, piece, _, hresume.split, hcovers⟩

/-- Behind the brace of a template literal, which is read on before and after going back. -/
theorem restore_rewinds_template :
    ∃ l : Lexer, l.Met "`a$\x7bb\x7dc` d" ∧ l.position.offset = 6 ∧
      ((l.performAll [.resume ⟨5, 6, 1, 6⟩, .next]).restore l.checkpoint).answers
        [.resume ⟨5, 6, 1, 6⟩, .next] = l.answers [.resume ⟨5, 6, 1, 6⟩, .next] := by
  let l := (Lexer.ofText "`a$\x7bb\x7dc` d").next.2.next.2.next.2
  have hl : l.Met "`a$\x7bb\x7dc` d" := .next (.next (.next .start))
  exact ⟨l, hl, by decide +kernel, (restore_rewinds hl).1 _ _⟩

end PackScript
