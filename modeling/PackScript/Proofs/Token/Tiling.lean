import Mathlib
import PackScript.Token.Lexer

namespace PackScript

/-!
# Where tokens lie

The tokens of a text lie in it one after the other, with nothing but blanks and comments between
them.

* `IsGap` — what may stand before a token, as a grammar of its own.
* `Span.Covers` — an extent is that of a piece of the text: bytes, line and column are counted from
  the characters before it.
* `Tiles` — tokens with gaps between them make up a text.
* `Lexer.At` — a lexer is behind a part of the text. `Lexer.At.next`: reading a token keeps it so.
* `tokens_tile_the_source` — the tokens of a text tile it.
-/

/-! ### Gaps -/

/-- The characters hold no end of a block comment, also not one that a slash behind them makes. -/
def StaysOpen (body : List Char) : Prop :=
  ¬ ['*', '/'] <:+: body

/-- Blanks and comments before the rest of a text. A line comment goes on to the end of its line,
    a block comment to its first end mark; only the end of the text ends one that has none. -/
inductive IsGap : List Char → List Char → Prop
  | nil {rest} : IsGap [] rest
  | blank {c gap rest} : isGapChar c = true → IsGap gap rest → IsGap (c :: gap) rest
  | lineComment {body gap rest} : '\n' ∉ body → (∀ c ∈ (gap ++ rest).head?, c = '\n') →
      IsGap gap rest → IsGap ('/' :: '/' :: (body ++ gap)) rest
  | blockComment {body gap rest} : StaysOpen (body ++ ['*']) → IsGap gap rest →
      IsGap ('/' :: '*' :: (body ++ '*' :: '/' :: gap)) rest
  | openComment {body} : StaysOpen body → IsGap ('/' :: '*' :: body) []

/-- What the characters taken in a mode are, before the rest of the text. -/
def GapMode.Takes (rest : List Char) : GapMode → List Char → Prop
  | .blank, taken => IsGap taken rest
  | .lineComment, taken => ∃ body gap, taken = body ++ gap ∧ '\n' ∉ body ∧
      (∀ c ∈ (gap ++ rest).head?, c = '\n') ∧ IsGap gap rest
  | .blockComment, taken =>
      (∃ body gap, taken = body ++ '*' :: '/' :: gap ∧ StaysOpen (body ++ ['*']) ∧ IsGap gap rest) ∨
      (StaysOpen taken ∧ rest = [])

theorem staysOpen_nil : StaysOpen [] := by
  simp [StaysOpen]

theorem StaysOpen.cons {c : Char} {body : List Char} (h : StaysOpen body)
    (hc : c = '*' → body.head? ≠ some '/') : StaysOpen (c :: body) := by
  intro hinfix
  rcases List.infix_cons_iff.1 hinfix with hprefix | hinfix
  · obtain ⟨rest, hrest⟩ := hprefix
    cases hrest
    exact hc rfl rfl
  · exact h hinfix

/-- One more character in a block comment, which does not end it. -/
theorem GapMode.Takes.cons_block {c : Char} {taken rest : List Char}
    (h : GapMode.blockComment.Takes rest taken) (hc : c = '*' → taken.head? ≠ some '/') :
    GapMode.blockComment.Takes rest (c :: taken) := by
  rcases h with ⟨body, gap, rfl, hopen, hgap⟩ | ⟨hopen, hrest⟩
  · refine .inl ⟨c :: body, gap, rfl, hopen.cons fun hstar => ?_, hgap⟩
    cases body with
    | nil => simp
    | cons b body => simpa using hc hstar
  · exact .inr ⟨hopen.cons hc, hrest⟩

/-- The characters that are counted make up a gap, or its part from within a comment, and a line
    feed is seen if one is among them. -/
theorem gapFrom_takes (taken : Nat) (seen : Bool) (mode : GapMode) (cs : List Char) :
    ∃ n, gapFrom taken seen mode cs = (taken + n, seen || (cs.take n).contains '\n') ∧
      mode.Takes (cs.drop n) (cs.take n) := by
  fun_induction gapFrom taken seen mode cs with
  -- the end of the text, in any mode
  | case1 taken seen mode =>
    refine ⟨0, by simp, ?_⟩
    cases mode with
    | blank => exact .nil
    | lineComment => exact ⟨[], [], rfl, by simp, by simp, .nil⟩
    | blockComment => exact .inr ⟨staysOpen_nil, rfl⟩
  -- between comments
  | case2 taken seen cs ih =>
    obtain ⟨n, hn, body, gap, htake, hbody, hnext, hgap⟩ := ih
    refine ⟨n + 2, by simp [hn]; omega, ?_⟩
    show IsGap ('/' :: '/' :: cs.take n) (cs.drop n)
    rw [htake]
    exact .lineComment hbody hnext hgap
  | case3 taken seen cs ih =>
    obtain ⟨n, hn, htakes⟩ := ih
    refine ⟨n + 2, by simp [hn]; omega, ?_⟩
    show IsGap ('/' :: '*' :: cs.take n) (cs.drop n)
    rcases htakes with ⟨body, gap, htake, hopen, hgap⟩ | ⟨hopen, hrest⟩
    · rw [htake]
      exact .blockComment hopen hgap
    · rw [hrest]
      exact .openComment hopen
  | case4 taken seen cs _ _ ih =>
    obtain ⟨n, hn, hgap⟩ := ih
    exact ⟨n + 1, by simp [hn]; omega, .blank (by decide) hgap⟩
  | case5 taken seen c cs _ _ hc hblank ih =>
    obtain ⟨n, hn, hgap⟩ := ih
    exact ⟨n + 1, by simp [hn, Ne.symm hc]; omega, .blank hblank hgap⟩
  | case6 taken seen c cs => exact ⟨0, by simp, .nil⟩
  -- in a comment to the end of the line
  | case7 taken seen cs ih =>
    obtain ⟨n, hn, hgap⟩ := ih
    refine ⟨n + 1, by simp [hn]; omega, [], '\n' :: cs.take n, rfl, by simp, ?_,
      .blank (by decide) hgap⟩
    simp
  | case8 taken seen c cs hc ih =>
    obtain ⟨n, hn, body, gap, htake, hbody, hnext, hgap⟩ := ih
    refine ⟨n + 1, by simp [hn, Ne.symm hc]; omega, c :: body, gap, ?_, ?_, hnext, hgap⟩
    · simp [htake]
    · simp [hbody, Ne.symm hc]
  -- in a comment that an asterisk and a slash end
  | case9 taken seen cs ih =>
    obtain ⟨n, hn, hgap⟩ := ih
    refine ⟨n + 2, by simp [hn]; omega, .inl ⟨[], cs.take n, rfl, ?_, hgap⟩⟩
    exact staysOpen_nil.cons fun _ => by simp
  | case10 taken seen cs _ ih =>
    obtain ⟨n, hn, htakes⟩ := ih
    exact ⟨n + 1, by simp [hn]; omega, GapMode.Takes.cons_block htakes nofun⟩
  | case11 taken seen c cs hends hc ih =>
    obtain ⟨n, hn, htakes⟩ := ih
    refine ⟨n + 1, by simp [hn, Ne.symm hc]; omega,
      GapMode.Takes.cons_block htakes fun hstar hslash => ?_⟩
    cases cs with
    | nil => simp at hslash
    | cons d cs =>
      cases n with
      | zero => simp at hslash
      | succ n => exact hends cs hstar (by simpa using hslash)

/-- What is passed over before a token is a gap, and the mark says whether it has a line feed. -/
theorem gapAhead_takes (cs : List Char) :
    IsGap (cs.take (gapAhead cs).1) (cs.drop (gapAhead cs).1) ∧
      (gapAhead cs).2 = (cs.take (gapAhead cs).1).contains '\n' := by
  obtain ⟨n, hn, hgap⟩ := gapFrom_takes 0 false .blank cs
  have hahead : gapAhead cs = (n, (cs.take n).contains '\n') := by
    simpa [gapAhead] using hn
  rw [hahead]
  exact ⟨hgap, rfl⟩

/-! ### Tokens take characters -/

theorem le_scanText (form : TextForm) (taken : Nat) (value : List Char) (mode : TextMode)
    (cs : List Char) : taken ≤ (scanText form taken value mode cs).2.2 := by
  fun_induction scanText form taken value mode cs <;> grind

/-- The kind of a token that stands in the text, and not of its end. -/
def Token.Kind.IsRead (kind : Token.Kind) : Prop :=
  match kind with
  | .eof => False
  | _ => True

theorem scanString_read (quote : Char) (cs : List Char) :
    (scanString quote cs).1.IsRead ∧ 1 ≤ (scanString quote cs).2 := by
  have hle := le_scanText (.quotes quote) 1 [] .plain cs
  unfold scanString
  split <;> rename_i h <;> rw [h] at hle <;> exact ⟨trivial, hle⟩

theorem scanTemplate_read (opening : Bool) (cs : List Char) :
    (scanTemplate opening cs).1.IsRead ∧ 1 ≤ (scanTemplate opening cs).2 := by
  have hle := le_scanText .template 1 [] .plain cs
  unfold scanTemplate
  split <;> rename_i h <;> rw [h] at hle <;> exact ⟨trivial, hle⟩

theorem scanNumber_read (first : Char) (cs : List Char) :
    (scanNumber first cs).1.IsRead ∧ 1 ≤ (scanNumber first cs).2 := by
  unfold scanNumber
  split
  · split
    · unfold scanRadix
      dsimp only
      split <;> exact ⟨trivial, Nat.le_add_left 1 _⟩
    · exact ⟨trivial, Nat.le_add_left 1 _⟩
  · exact ⟨trivial, Nat.le_add_left 1 _⟩

theorem scanWord_read (first : Char) (cs : List Char) :
    (scanWord first cs).1.IsRead ∧ 1 ≤ (scanWord first cs).2 := by
  unfold scanWord
  dsimp only
  split <;> exact ⟨trivial, Nat.le_add_left 1 _⟩

/-- A punctuator takes a character, and the closing brace just this one. -/
theorem scanPunct?_spec {cs : List Char} {mark : Punct} {n : Nat}
    (h : scanPunct? cs = some (mark, n)) :
    1 ≤ n ∧ (mark = .rbrace → n = 1 ∧ cs.head? = some '\x7d') := by
  unfold scanPunct? at h
  split at h <;> grind

/-- Every token takes a character, and none of them is the end of the text. -/
theorem scanToken_read (c : Char) (cs : List Char) :
    (scanToken c cs).1.IsRead ∧ 1 ≤ (scanToken c cs).2 := by
  unfold scanToken
  split
  · exact scanString_read c cs
  · split
    · exact scanTemplate_read true cs
    · split
      · exact scanNumber_read c cs
      · split
        · exact ⟨trivial, Nat.le_add_left 1 _⟩
        · split
          · rename_i h
            exact ⟨trivial, (scanPunct?_spec h).1⟩
          · split
            · exact scanWord_read c cs
            · exact ⟨trivial, Nat.le_refl 1⟩

/-! ### Extents -/

/-- The number of bytes of a text. -/
def byteLength (cs : List Char) : Nat :=
  (cs.map Char.utf8Size).sum

/-- The number of characters since the last line feed. -/
def sinceLineFeed (cs : List Char) : Nat :=
  (cs.reverse.takeWhile (· != '\n')).length

/-- The place behind a part of a text, counted from its characters. -/
def Position.behind (before : List Char) : Position :=
  ⟨byteLength before, wrap32 (before.count '\n' + 1), wrap32 (sinceLineFeed before + 1)⟩

/-- The extent is that of a piece of a text, which stands behind another part of it. Its line and
    column are counted in the bits that they have. -/
def Span.Covers (span : Span) (before piece : List Char) : Prop :=
  span = ⟨byteLength before, byteLength (before ++ piece), wrap32 (before.count '\n' + 1),
    wrap32 (sinceLineFeed before + 1)⟩

theorem byteLength_append (cs ds : List Char) :
    byteLength (cs ++ ds) = byteLength cs + byteLength ds := by
  simp [byteLength]

theorem wrap32_succ (n : Nat) : wrap32 (wrap32 n + 1) = wrap32 (n + 1) :=
  Nat.mod_add_mod n _ 1

theorem Position.behind_after (before : List Char) (c : Char) :
    (Position.behind before).after c = .behind (before ++ [c]) := by
  by_cases hc : c = '\n'
  · simp [Position.after, behind, hc, byteLength, sinceLineFeed, wrap32]
  · simp [Position.after, behind, hc, byteLength, sinceLineFeed, wrap32_succ]

theorem Position.behind_past (before piece : List Char) :
    (Position.behind before).past piece = .behind (before ++ piece) := by
  induction piece generalizing before with
  | nil => simp [past]
  | cons c piece ih =>
    show ((behind before).after c).past piece = _
    rw [behind_after, ih, List.append_assoc, List.singleton_append]

/-- The line and column are exact, unless there are more characters before than 32 bits count. -/
theorem Span.Covers.exact {span : Span} {before piece : List Char} (h : span.Covers before piece)
    (hlength : before.length + 1 < 2 ^ 32) :
    span.line = before.count '\n' + 1 ∧ span.column = sinceLineFeed before + 1 := by
  have hfeeds : before.count '\n' ≤ before.length := List.count_le_length
  have hsince : sinceLineFeed before ≤ before.length := by
    have hle := (List.takeWhile_sublist (l := before.reverse) (· != '\n')).length_le
    rwa [List.length_reverse] at hle
  rw [h]
  exact ⟨Nat.mod_eq_of_lt (by omega), Nat.mod_eq_of_lt (by omega)⟩

/-- A piece that is not empty has an extent that is not empty. -/
theorem Span.Covers.start_lt_stop {span : Span} {before piece : List Char}
    (h : span.Covers before piece) (hpiece : piece ≠ []) : span.start < span.stop := by
  obtain ⟨c, rest, rfl⟩ := List.exists_cons_of_ne_nil hpiece
  rw [h, byteLength_append]
  have hpos : 0 < c.utf8Size := c.utf8Size_pos
  simp [byteLength]
  omega

/-! ### Lexers in a text -/

namespace Lexer

/-- The lexer is behind a part of the text. -/
structure At (l : Lexer) (text before : List Char) : Prop where
  source : l.source = text
  split : text = before ++ l.rest
  position : l.position = .behind before

variable {l : Lexer} {text before : List Char}

theorem at_ofText (s : String) : (ofText s).At s.toList [] :=
  ⟨rfl, rfl, rfl⟩

/-- A lexer that moves is behind the characters that it moved over. -/
theorem At.move (h : l.At text before) (n : Nat) :
    (l.move n).At text (before ++ l.rest.take n) where
  source := h.source
  split := by
    rw [h.split, List.append_assoc]
    exact congrArg _ (List.take_append_drop n l.rest).symm
  position := by
    rw [Lexer.move, h.position, Position.behind_past]

theorem At.skip (h : l.At text before) :
    l.skip.At text (before ++ l.rest.take (gapAhead l.rest).1) :=
  ⟨h.source, (h.move _).split, (h.move _).position⟩

theorem At.span_covers (h : l.At text before) (n : Nat) :
    (Span.fromPosition l.position (l.move n).position.offset).Covers before (l.rest.take n) := by
  rw [(h.move n).position, h.position]
  rfl

/-- The next token lies behind a gap, over a piece of the text, which is empty at the end of the
    text only. -/
theorem At.next (h : l.At text before) :
    ∃ gap piece, IsGap gap (piece ++ l.next.2.rest) ∧ l.rest = gap ++ piece ++ l.next.2.rest ∧
      l.next.2.At text (before ++ gap ++ piece) ∧
      l.next.1.span.Covers (before ++ gap) piece ∧
      l.next.2.newline = gap.contains '\n' ∧
      (l.next.1.kind.IsRead ∧ piece ≠ [] ∨
        l.next.1.kind = .eof ∧ piece = [] ∧ l.next.2.rest = []) := by
  have hskip := h.skip
  obtain ⟨hgap, hseen⟩ : IsGap (l.rest.take (gapAhead l.rest).1) l.skip.rest ∧
      l.skip.newline = (l.rest.take (gapAhead l.rest).1).contains '\n' := gapAhead_takes l.rest
  have hrest : l.rest = l.rest.take (gapAhead l.rest).1 ++ l.skip.rest :=
    (List.take_append_drop _ _).symm
  unfold Lexer.next
  refine ⟨l.rest.take (gapAhead l.rest).1, ?_⟩
  dsimp only
  split
  · rename_i hend
    refine ⟨[], hgap, ?_, ?_, ?_, hseen, .inr ⟨rfl, rfl, hend⟩⟩
    · simpa using hrest
    · simpa using hskip
    · exact hskip.span_covers 0
  · rename_i c cs hcs
    obtain ⟨hread, htaken⟩ := scanToken_read c cs
    have htake := List.take_append_drop (scanToken c cs).2 l.skip.rest
    refine ⟨l.skip.rest.take (scanToken c cs).2, ?_, ?_, hskip.move _, hskip.span_covers _, hseen,
      .inl ⟨hread, ?_⟩⟩
    · rw [Lexer.move, htake]
      exact hgap
    · rw [List.append_assoc, Lexer.move, htake]
      exact hrest
    · rw [hcs, Ne, List.take_eq_nil_iff]
      simp
      omega

end Lexer

/-! ### Tokens of a text -/

/-- The tokens, each with the mark whether a line feed stood before it, lie in a text behind
    `before`: every one behind a gap and over a piece that is not empty, up to the end of the text,
    which lies behind the last gap. -/
inductive Tiles : List Char → List Char → List (Token × Bool) → Prop
  | eof {before gap token} : IsGap gap [] → token.kind = .eof →
      token.span.Covers (before ++ gap) [] → Tiles before gap [(token, gap.contains '\n')]
  | cons {before gap piece rest token tokens} : IsGap gap (piece ++ rest) → token.kind.IsRead →
      piece ≠ [] → token.span.Covers (before ++ gap) piece →
      Tiles (before ++ gap ++ piece) rest tokens →
      Tiles before (gap ++ piece ++ rest) ((token, gap.contains '\n') :: tokens)

theorem Lexer.At.tokensFrom {l : Lexer} {text before : List Char} (h : l.At text before)
    {fuel : Nat} (hfuel : l.rest.length < fuel) : Tiles before l.rest (l.tokensFrom fuel) := by
  induction fuel generalizing l before with
  | zero => omega
  | succ fuel ih =>
    obtain ⟨gap, piece, hgap, hrest, hat, hcovers, hnewline, hkind⟩ := h.next
    unfold Lexer.tokensFrom
    dsimp only
    rw [hnewline]
    rcases hkind with ⟨hread, hpiece⟩ | ⟨heof, rfl, hend⟩
    · have hlength : l.next.2.rest.length < fuel := by
        have hpos := List.length_pos_iff.2 hpiece
        have htotal := congrArg List.length hrest
        simp only [List.length_append] at htotal
        omega
      have htiles := Tiles.cons hgap hread hpiece hcovers (ih hat hlength)
      rw [← hrest] at htiles
      split
      · rename_i heof
        rw [heof] at hread
        exact hread.elim
      · exact htiles
    · rw [hend, List.append_nil, List.append_nil] at hrest
      rw [hend] at hgap
      rw [hrest, heof]
      exact .eof hgap heof hcovers

/-- The tokens of a text, read one after the other up to its end, lie in it one behind the other:
    each covers at least a character, and begins where only blanks and comments stand between it and
    the token before. Its line counts the line feeds before it, its column the characters since the
    last one, both in 32 bits (`Span.Covers.exact`), and its mark says whether a line feed is in the
    gap before it. -/
theorem tokens_tile_the_source (s : String) : Tiles [] s.toList (tokens s) := by
  refine (Lexer.at_ofText s).tokensFrom ?_
  rw [← String.length_toList]
  exact Nat.lt_succ_self _

end PackScript
