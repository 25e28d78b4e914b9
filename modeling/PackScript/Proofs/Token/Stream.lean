import PackScript.Proofs.Token.Tiling

namespace PackScript

/-!
# The tokens that reading a script meets

Whoever reads a script asks for one token after the other, and at the brace behind a substitution
has the lexer go on with the template literal. Going back to an earlier place is going on from an
earlier lexer, so nothing else happens to lexers.

* `Lexer.Reached` — the lexers that come up.
* `IsTokenOf` — the tokens of a text: those that such a lexer reads next.
* `Lexer.Reached.exists_at` — such a lexer is behind a part of the text.
* `Lexer.Reached.stop_le_next`, `Lexer.Reached.resume_between` — behind a token, or the piece of a
  template literal that goes on at a brace, the next one begins further on.
* `IsTokenOf.covers` — a token of a text covers a piece of it.
-/

namespace Lexer

/-- The lexers that come up when a text is read: at its start, behind a token, and behind the piece
    of a template literal that goes on at a brace. -/
inductive Reached (s : String) : Lexer → Prop
  | start : Reached s (ofText s)
  | next {l} : Reached s l → Reached s l.next.2
  | resume {l} : Reached s l → l.next.1.kind = .punct .rbrace →
      Reached s (l.next.2.resume l.next.1.span).2

end Lexer

/-- The token is one of the text, or its end. -/
def IsTokenOf (s : String) (token : Token) : Prop :=
  ∃ l, Lexer.Reached s l ∧ token = l.next.1

/-! ### Going on with a template literal -/

/-- Only a closing brace is read as one. -/
theorem scanToken_rbrace {c : Char} {cs : List Char}
    (h : (scanToken c cs).1 = .punct .rbrace) : c = '\x7d' ∧ (scanToken c cs).2 = 1 := by
  unfold scanToken at h ⊢
  split at h
  · unfold scanString at h
    split at h <;> cases h
  · split at h
    · unfold scanTemplate at h
      split at h <;> cases h
    · split at h
      · unfold scanNumber scanRadix at h
        grind [scanDecimal]
      · split at h
        · cases h
        · split at h
          · rename_i hpunct
            cases h
            obtain ⟨hone, hhead⟩ := (scanPunct?_spec hpunct).2 rfl
            exact ⟨Option.some.inj hhead, by simp_all⟩
          · split at h
            · unfold scanWord at h
              dsimp only at h
              split at h <;> cases h
            · cases h

namespace Lexer

theorem dropBytes_append (before rest : List Char) :
    dropBytes (byteLength before) (before ++ rest) = rest := by
  induction before with
  | nil => simp [byteLength, dropBytes]
  | cons c before ih =>
    have hpos := c.utf8Size_pos
    have hlength : byteLength (c :: before) = (c.utf8Size + byteLength before - 1) + 1 := by
      simp [byteLength]
      omega
    rw [hlength, List.cons_append, dropBytes, if_pos (by omega)]
    have hrest : c.utf8Size + byteLength before - 1 + 1 - c.utf8Size = byteLength before := by
      omega
    rw [hrest, ih]

variable {s : String} {l : Lexer} {text before : List Char}

/-- A lexer that has read a closing brace is behind it. -/
theorem At.next_rbrace (h : l.At text before) (hkind : l.next.1.kind = .punct .rbrace) :
    ∃ gap, l.next.2.At text (before ++ gap ++ ['\x7d']) ∧
      l.next.1.span.Covers (before ++ gap) ['\x7d'] := by
  have hskip := h.skip
  refine ⟨l.rest.take (gapAhead l.rest).1, ?_⟩
  unfold Lexer.next at hkind ⊢
  dsimp only at hkind ⊢
  split at hkind
  · cases hkind
  · rename_i c cs hcs
    obtain ⟨rfl, htaken⟩ := scanToken_rbrace hkind
    have hat := hskip.move 1
    have hcovers := hskip.span_covers 1
    rw [hcs] at hat hcovers
    rw [htaken]
    exact ⟨hat, hcovers⟩

theorem At.split_brace {start : List Char} (h : l.At text (start ++ ['\x7d'])) :
    text = start ++ '\x7d' :: l.rest := by
  rw [h.split, List.append_assoc, List.singleton_append]

/-- A lexer that goes on with a template literal, wherever it is, gets behind the brace and the next
    piece. -/
theorem resume_at {start rest : List Char} {brace : Span} (hsource : l.source = text)
    (hsplit : text = start ++ '\x7d' :: rest) (hbrace : brace.Covers start ['\x7d']) :
    ∃ piece, (l.resume brace).2.At text (start ++ '\x7d' :: piece) ∧
      (l.resume brace).1.span.Covers start ('\x7d' :: piece) := by
  have hat : At { l with
      rest := dropBytes brace.stop l.source
      position := ⟨brace.stop, brace.line, wrap32 (brace.column + 1)⟩ } text
        (start ++ ['\x7d']) := by
    have hstop : brace.stop = byteLength (start ++ ['\x7d']) := by
      rw [hbrace]
    have hafter : text = start ++ ['\x7d'] ++ rest := by
      rw [hsplit, List.append_assoc, List.singleton_append]
    refine ⟨hsource, ?_, ?_⟩
    · show text = start ++ ['\x7d'] ++ dropBytes brace.stop l.source
      rw [hstop, hsource, hafter, dropBytes_append]
    · show (⟨brace.stop, brace.line, wrap32 (brace.column + 1)⟩ : Position) =
        .behind (start ++ ['\x7d'])
      rw [hbrace, ← Position.behind_after, Position.after, if_neg (by decide)]
      simp [Position.behind, byteLength]
  have hmoved := hat.move ((scanTemplate false (dropBytes brace.stop l.source)).2 - 1)
  rw [List.append_assoc, List.singleton_append] at hmoved
  refine ⟨_, hmoved, ?_⟩
  rw [Lexer.resume]
  dsimp only
  rw [hmoved.position, hbrace]
  rfl

/-- The lexers that come up are behind a part of the text. -/
theorem Reached.exists_at (h : Reached s l) : ∃ before, l.At s.toList before := by
  induction h with
  | start => exact ⟨[], at_ofText s⟩
  | next _ ih =>
    obtain ⟨before, hat⟩ := ih
    obtain ⟨gap, piece, _, _, hnext, _⟩ := hat.next
    exact ⟨_, hnext⟩
  | resume _ hkind ih =>
    obtain ⟨before, hat⟩ := ih
    obtain ⟨gap, hnext, hcovers⟩ := hat.next_rbrace hkind
    obtain ⟨piece, hresume, _⟩ := resume_at hnext.source hnext.split_brace hcovers
    exact ⟨_, hresume⟩

/-! ### Further on -/

theorem byteLength_le_append (cs ds : List Char) : byteLength cs ≤ byteLength (cs ++ ds) := by
  rw [byteLength_append]
  omega

/-- The next token begins at the lexer or behind it. -/
theorem At.le_start (h : l.At text before) : byteLength before ≤ l.next.1.span.start := by
  obtain ⟨gap, piece, _, _, _, hcovers, _⟩ := h.next
  rw [hcovers]
  exact byteLength_le_append before gap

/-- Tokens begin in the text or at its end. -/
theorem At.start_le (h : l.At text before) : l.next.1.span.start ≤ byteLength text := by
  obtain ⟨gap, piece, _, _, hat, hcovers, _⟩ := h.next
  rw [hcovers, hat.split, List.append_assoc _ piece]
  exact byteLength_le_append _ _

theorem Reached.start_le_stop (h : Reached s l) : l.next.1.span.start ≤ l.next.1.span.stop := by
  obtain ⟨before, hat⟩ := h.exists_at
  obtain ⟨gap, piece, _, _, _, hcovers, _⟩ := hat.next
  rw [hcovers]
  exact byteLength_le_append _ _

/-- A token that is not the end of the text is not empty. -/
theorem Reached.start_lt_stop (h : Reached s l) (hkind : l.next.1.kind ≠ .eof) :
    l.next.1.span.start < l.next.1.span.stop := by
  obtain ⟨before, hat⟩ := h.exists_at
  obtain ⟨gap, piece, _, _, _, hcovers, _, hread | heof⟩ := hat.next
  · exact hcovers.start_lt_stop hread.2
  · exact absurd heof.1 hkind

/-- Tokens do not overlap. -/
theorem Reached.stop_le_next (h : Reached s l) :
    l.next.1.span.stop ≤ l.next.2.next.1.span.start := by
  obtain ⟨before, hat⟩ := h.exists_at
  obtain ⟨gap, piece, _, _, hnext, hcovers, _⟩ := hat.next
  rw [hcovers]
  exact hnext.le_start

/-- A piece of a template literal that goes on at a brace ends behind the begin of the brace, and
    before the next token. -/
theorem Reached.resume_between (h : Reached s l) (hkind : l.next.1.kind = .punct .rbrace) :
    l.next.1.span.start < (l.next.2.resume l.next.1.span).1.span.stop ∧
      (l.next.2.resume l.next.1.span).1.span.stop ≤
        (l.next.2.resume l.next.1.span).2.next.1.span.start := by
  obtain ⟨before, hat⟩ := h.exists_at
  obtain ⟨gap, hnext, hcovers⟩ := hat.next_rbrace hkind
  obtain ⟨piece, hresume, hpiece⟩ := resume_at hnext.source hnext.split_brace hcovers
  have hlt := hpiece.start_lt_stop (by simp)
  have hle := hresume.le_start
  rw [hpiece] at hlt ⊢
  exact ⟨hcovers ▸ hlt, hle⟩

end Lexer

/-- The tokens of a text lie in it, over a piece that is empty at its end only, and their lines and
    columns are counted from it. -/
theorem IsTokenOf.covers {s : String} {token : Token} (h : IsTokenOf s token) :
    ∃ before piece rest, s.toList = before ++ piece ++ rest ∧ token.span.Covers before piece ∧
      (piece ≠ [] ∨ token.kind = .eof ∧ rest = []) := by
  obtain ⟨l, hl, rfl⟩ := h
  obtain ⟨before, hat⟩ := hl.exists_at
  obtain ⟨gap, piece, _, _, hnext, hcovers, _, hread | heof⟩ := hat.next
  · exact ⟨_, piece, _, hnext.split, hcovers, .inl hread.2⟩
  · exact ⟨_, piece, _, hnext.split, hcovers, .inr ⟨heof.1, heof.2.2⟩⟩

end PackScript
