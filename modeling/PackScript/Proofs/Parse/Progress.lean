import PackScript.Parse.Cursor
import PackScript.Proofs.Parse.Extent

namespace PackScript

/-!
# Parsers that get on

A parser that runs from a cursor in a text fails with a fault at a token of the text, or ends at a
cursor that is not further away from the end of the text. If it has taken a token, the end is
nearer. The nodes of what it gives lie between the place where it began and the last token that it
took.

* `Cursor.Valid`, `Cursor.left` — a cursor in a text, and the number of bytes from its token on.
* `Cursor.Leads` — a parser has gone on from one cursor to another.
* `Scene` — where the rule that is followed began, and what is known of the values that it has read.
* `Parse.Reads` — what parsers do, up to a number of bytes. `Parse.Keeps` and `Parse.Takes` are the
  two cases that matter most: a parser goes on, and it takes a token as well.
* `Parse.spanFrom_pure`, `Parse.node_keeps` — the rule ends with a node over all that it has read.
* `Parse.repeating_keeps` — a loop whose rounds take a token each never meets its bound.

Places are known unless the token before the first cursor is none of the text before it.
-/

/-- The size of a text in bytes. -/
theorem byteLength_toList (s : String) : byteLength s.toList = s.utf8ByteSize := by
  have hsize : ∀ cs, (String.ofList cs).utf8ByteSize = byteLength cs := by
    intro cs
    induction cs with
    | nil => simp [byteLength]
    | cons c cs ih =>
      rw [← List.singleton_append, String.ofList_append, String.utf8ByteSize_append, ih,
        byteLength_append]
      simp [byteLength]
  rw [← hsize, String.ofList_toList]

/-! ### Cursors in a text -/

namespace Cursor

/-- The cursor is at a token of the text. -/
structure Valid (s : String) (c : Cursor) : Prop where
  size : c.size = s.utf8ByteSize
  read : ∃ l, Lexer.Reached s l ∧ l.next = (c.current, c.lexer)

/-- The number of bytes from the current token on. -/
def left (c : Cursor) : Nat :=
  c.size - c.current.span.start

variable {s : String} {known taken taken' : Prop} {c c' c'' : Cursor}

theorem valid_ofText (s : String) : (ofText s).Valid s :=
  ⟨rfl, _, .start, rfl⟩

theorem Valid.isTokenOf (h : c.Valid s) : IsTokenOf s c.current := by
  obtain ⟨l, hl, hnext⟩ := h.read
  exact ⟨l, hl, by rw [hnext]⟩

theorem Valid.isPlaceOf (h : c.Valid s) : c.current.span.IsPlaceOf s :=
  ⟨_, h.isTokenOf, rfl⟩

theorem Valid.advance (h : c.Valid s) : c.advance.Valid s := by
  obtain ⟨l, hl, hnext⟩ := h.read
  refine ⟨h.size, l.next.2, hl.next, ?_⟩
  rw [hnext]
  rfl

theorem Valid.start_le (h : c.Valid s) : c.current.span.start ≤ s.utf8ByteSize := by
  obtain ⟨l, hl, hnext⟩ := h.read
  obtain ⟨before, hat⟩ := hl.exists_at
  have hle := hat.start_le
  rwa [hnext, byteLength_toList] at hle

/-- The cursor stands behind the token before it. -/
def Ordered (c : Cursor) : Prop :=
  c.previous.span.stop ≤ c.current.span.start

/-- A parser has gone on from a cursor to another one, and perhaps taken a token. -/
structure Leads (known taken : Prop) (c c' : Cursor) : Prop where
  le : c.current.span.start ≤ c'.current.span.start
  lt : taken → c.current.span.start < c'.current.span.start
  ordered : known → c'.Ordered
  previous : known → c.previous.span.stop ≤ c'.previous.span.stop
  reached : known → taken → c.current.span.start ≤ c'.previous.span.stop

theorem Leads.refl (h : known → c.Ordered) (htaken : ¬ taken) : Leads known taken c c :=
  ⟨Nat.le_refl _, fun h => absurd h htaken, h, fun _ => Nat.le_refl _, fun _ h => absurd h htaken⟩

theorem Leads.trans (h : Leads known taken c c') (h' : Leads known taken' c' c'') :
    Leads known (taken ∨ taken') c c'' where
  le := Nat.le_trans h.le h'.le
  lt := by
    rintro (ht | ht)
    · exact Nat.lt_of_lt_of_le (h.lt ht) h'.le
    · exact Nat.lt_of_le_of_lt h.le (h'.lt ht)
  ordered := h'.ordered
  previous hk := Nat.le_trans (h.previous hk) (h'.previous hk)
  reached hk := by
    rintro (ht | ht)
    · exact Nat.le_trans (h.reached hk ht) (h'.previous hk)
    · exact Nat.le_trans h.le (h'.reached hk ht)

theorem Leads.imp (h : Leads known taken c c') (himp : taken' → taken) : Leads known taken' c c' :=
  { h with
    lt := fun ht => h.lt (himp ht)
    reached := fun hk ht => h.reached hk (himp ht) }

section

variable (h : Leads known taken c c') (hc : c.Valid s) (hc' : c'.Valid s)

include h hc hc'

theorem Leads.left_le : c'.left ≤ c.left := by
  have hle := h.le
  have hsize := hc.size
  have hsize' := hc'.size
  unfold left
  omega

theorem Leads.left_lt (htaken : taken) : c'.left < c.left := by
  have hlt := h.lt htaken
  have hsize := hc.size
  have hsize' := hc'.size
  have hstart := hc'.start_le
  unfold left
  omega

end

/-- One token further. A token that is not the end of the text is taken. -/
theorem Valid.leads_advance (h : c.Valid s) (hordered : known → c.Ordered) :
    Leads known (c.atEnd = false) c c.advance := by
  obtain ⟨l, hl, hnext⟩ := h.read
  have hstop := hl.start_le_stop
  have hle := hl.stop_le_next
  rw [hnext] at hstop hle
  refine ⟨Nat.le_trans hstop hle, fun hend => ?_, fun _ => hle,
    fun hk => Nat.le_trans (hordered hk) hstop, fun _ _ => hstop⟩
  have hkind : l.next.1.kind ≠ .eof := by
    intro heof
    have hcurrent : c.current.kind = .eof := by rw [← heof, hnext]
    simp [atEnd, hcurrent] at hend
  have hlt := hl.start_lt_stop hkind
  rw [hnext] at hlt
  exact Nat.lt_of_lt_of_le hlt hle

/-- The extent of one token is that of the token. -/
theorem Valid.spanFrom_advance (h : c.Valid s) :
    c.advance.spanFrom c.current.span = c.current.span := by
  obtain ⟨l, hl, hnext⟩ := h.read
  have hstop := hl.start_le_stop
  rw [hnext] at hstop
  show (⟨_, max c.current.span.stop c.current.span.start, _, _⟩ : Span) = _
  rw [Nat.max_eq_left hstop]

theorem atEnd_of_sees {mark : Punct} (h : c.sees mark = true) : c.atEnd = false := by
  unfold sees Token.Kind.isPunct at h
  unfold atEnd
  split at h <;> simp_all

theorem atEnd_of_seesWord {word : Keyword} (h : c.seesWord word = true) : c.atEnd = false := by
  unfold seesWord Token.Kind.isKeyword at h
  unfold atEnd
  split at h <;> simp_all

end Cursor

/-! ### Rules that are followed -/

/-- The rule that is followed: where it began, and what is known of its values, given how far it has
    got. -/
structure Scene (s : String) (known : Prop) where
  start : Span
  place : start.IsPlaceOf s
  facts : Nat → Prop
  mono {high high' : Nat} : (known → high ≤ high') → facts high → facts high'

namespace Scene

variable {α : Type} [Nodes α] {s : String} {known taken : Prop}

/-- The value lies between the begin of the rule and a place. -/
abbrev Has (K : Scene s known) (high : Nat) (a : α) : Prop :=
  Fits s known K.start.start high a

/-- A further value. -/
abbrev and (K : Scene s known) (a : α) : Scene s known where
  start := K.start
  place := K.place
  facts high := K.facts high ∧ K.Has high a
  mono hle h := ⟨K.mono hle h.1, h.2.mono (fun _ => Nat.le_refl _) hle⟩

/-- A rule that begins at a cursor. -/
abbrev opening {c : Cursor} (h : c.Valid s) : Scene s known where
  start := c.current.span
  place := h.isPlaceOf
  facts _ := True
  mono _ h := h

/-- How far the rule has got. -/
abbrev reach (K : Scene s known) (c : Cursor) : Nat :=
  (c.spanFrom K.start).stop

/-- The rule has got to a cursor. -/
structure Holds (K : Scene s known) (c : Cursor) : Prop where
  valid : c.Valid s
  ordered : known → c.Ordered
  low : known → K.start.start ≤ c.current.span.start
  facts : K.facts (K.reach c)

variable {K : Scene s known} {c c' : Cursor} {a : α}

theorem Holds.opening (h : K.Holds c) : (Scene.opening h.valid : Scene s known).Holds c :=
  ⟨h.valid, h.ordered, fun _ => Nat.le_refl _, trivial⟩

theorem Holds.and (h : K.Holds c) (ha : K.Has (K.reach c) a) : (K.and a).Holds c :=
  ⟨h.valid, h.ordered, h.low, h.facts, ha⟩

theorem Holds.of_and (h : (K.and a).Holds c) : K.Holds c :=
  ⟨h.valid, h.ordered, h.low, h.facts.1⟩

theorem reach_le (h : c.Leads known taken c') : known → K.reach c ≤ K.reach c' :=
  fun hk => max_le_max (h.previous hk) (Nat.le_refl _)

theorem Holds.leads (h : K.Holds c) (hl : c.Leads known taken c') (hc' : c'.Valid s) : K.Holds c' :=
  ⟨hc', hl.ordered, fun hk => Nat.le_trans (h.low hk) hl.le, K.mono (reach_le hl) h.facts⟩

/-- A node over what was read. -/
theorem Holds.over {α : Type} [IsNode α] {a : α} (h : K.Holds c)
    (hspan : (node a).span = c.spanFrom K.start)
    (hchildren : ∀ y ∈ (node a).children, y.Lies s known K.start.start (K.reach c)) :
    K.Has (K.reach c) a := by
  have hplace : (node a).span.IsPlaceOf s := hspan ▸ K.place
  have hbounds : known →
      (node a).span.start ≤ (node a).span.stop ∧ (node a).span.stop ≤ s.utf8ByteSize := by
    intro hk
    rw [hspan]
    have hstart := h.valid.start_le
    have hlow := h.low hk
    have hordered : c.previous.span.stop ≤ c.current.span.start := h.ordered hk
    simp only [Cursor.spanFrom]
    omega
  refine Node.Lies.fits ⟨⟨hplace, hbounds, ?_, fun y hy => (hchildren y hy).sound⟩, fun _ => ?_⟩
  · rw [hspan]
    exact fun y hy => (hchildren y hy).within
  · rw [hspan]
    exact ⟨Nat.le_refl _, Nat.le_refl _⟩

end Scene

namespace Parse

variable {α β σ : Type} [Nodes α] [Nodes β] [Nodes σ] {s : String} {known : Prop}
  {K : Scene s known} {n : Nat} {c : Cursor} {takes : α → Prop} {takes' : β → Prop} {q : Parse α}
  {f : α → Parse β}

/-! ### What parsers do -/

/-- A run of a parser fails with a fault of the text, or ends at a cursor in the text. -/
def Ends {α : Type} (s : String) (Q : α → Cursor → Prop) : Except Diagnostic (α × Cursor) → Prop
  | .ok (a, c) => c.Valid s ∧ Q a c
  | .error d => d.IsFaultOf s

/-- From the cursor, the parser goes on, and has taken a token if the value that it gives says so.
    The value lies in what was read. -/
def ReadsAt (K : Scene s known) (c : Cursor) (takes : α → Prop) (q : Parse α) : Prop :=
  Ends s (fun a c' => c.Leads known (takes a) c' ∧ K.Has (K.reach c') a) (q c)

/-- The same from all cursors that the rule may get to, with less than a number of bytes left. -/
def Reads (K : Scene s known) (n : Nat) (takes : α → Prop) (q : Parse α) : Prop :=
  ∀ c : Cursor, K.Holds c → c.left < n → ReadsAt K c takes q

/-- The parser may take tokens. -/
abbrev Keeps (K : Scene s known) (n : Nat) (q : Parse α) : Prop :=
  Reads K n (fun _ => False) q

/-- The parser takes a token. -/
abbrev Takes (K : Scene s known) (n : Nat) (q : Parse α) : Prop :=
  Reads K n (fun _ => True) q

section

variable {α β : Type} {q : Parse α} {f : α → Parse β}

theorem bind_of_ok {a : α} {c' : Cursor} (h : q c = .ok (a, c')) : (q >>= f) c = f a c' := by
  show (q c >>= fun r => f r.1 r.2) = _
  rw [h]
  rfl

theorem bind_of_error {d : Diagnostic} (h : q c = .error d) : (q >>= f) c = .error d := by
  show (q c >>= fun r => f r.1 r.2) = _
  rw [h]
  rfl

theorem bind_eq_ok {b : β} {c' : Cursor} (h : (q >>= f) c = .ok (b, c')) :
    ∃ a c1, q c = .ok (a, c1) ∧ f a c1 = .ok (b, c') := by
  cases hq : q c with
  | error d => cases (bind_of_error hq).symm.trans h
  | ok r => exact ⟨r.1, r.2, rfl, (bind_of_ok hq).symm.trans h⟩

theorem Ends.bind {R : α → Cursor → Prop} {R' : β → Cursor → Prop} (hq : Ends s R (q c))
    (hf : ∀ a c', c'.Valid s → R a c' → Ends s R' (f a c')) : Ends s R' ((q >>= f) c) := by
  cases hqc : q c with
  | error d =>
    rw [hqc] at hq
    rwa [bind_of_error hqc]
  | ok r =>
    rw [hqc] at hq
    rw [bind_of_ok hqc]
    exact hf r.1 r.2 hq.1 hq.2

theorem Ends.imp {R R' : α → Cursor → Prop} {r : Except Diagnostic (α × Cursor)} (h : Ends s R r)
    (himp : ∀ a c, c.Valid s → R a c → R' a c) : Ends s R' r := by
  cases r with
  | error d => exact h
  | ok r => exact ⟨h.1, himp _ _ h.1 h.2⟩

end

theorem ReadsAt.imp {takes' : α → Prop} (h : ReadsAt K c takes q)
    (htakes : ∀ a, takes' a → takes a) : ReadsAt K c takes' q :=
  Ends.imp h fun a _ _ hr => ⟨hr.1.imp (htakes a), hr.2⟩

/-- What comes after a value. -/
theorem ReadsAt.bind (hc : K.Holds c) (hq : ReadsAt K c takes q)
    (hf : ∀ a c', (K.and a).Holds c' → c.Leads known (takes a) c' →
      ReadsAt (K.and a) c' (fun b => takes' b ∧ ¬ takes a) (f a)) :
        ReadsAt K c takes' (q >>= f) := by
  refine Ends.bind hq fun a c' hc' ⟨hl, ha⟩ => ?_
  refine Ends.imp (hf a c' ((hc.leads hl hc').and ha) hl) fun b c'' _ ⟨hl', hb⟩ => ⟨?_, hb⟩
  refine (hl.trans hl').imp fun ht => ?_
  by_cases htaken : takes a
  · exact .inl htaken
  · exact .inr ⟨ht, htaken⟩

/-- A rule that begins at the cursor and takes a token. -/
theorem ReadsAt.start {takes' : α → Prop} (hc : K.Holds c)
    (h : ReadsAt (.opening hc.valid : Scene s known) c (fun _ => True) q) :
      ReadsAt K c takes' q := by
  refine Ends.imp h fun a c' _ ⟨hl, ha⟩ => ⟨hl.imp fun _ => trivial, ha.mono hc.low fun hk => ?_⟩
  exact max_le (Nat.le_max_left _ _) (Nat.le_trans (hl.reached hk trivial) (Nat.le_max_left _ _))

namespace Reads

theorem imp {takes' : α → Prop} (h : Reads K n takes q) (htakes : ∀ a, takes' a → takes a) :
    Reads K n takes' q :=
  fun c hc hn => (h c hc hn).imp htakes

/-- Only the value is of interest. -/
theorem keeps (h : Reads K n takes q) : Keeps K n q :=
  h.imp fun _ => False.elim

theorem mono {m : Nat} (h : Reads K n takes q) (hm : m ≤ n) : Reads K m takes q :=
  fun c hc hleft => h c hc (Nat.lt_of_lt_of_le hleft hm)

theorem lower (h : Reads K (n + 1) takes q) : Reads K n takes q :=
  h.mono (Nat.le_succ n)

/-- A value is not used any more. -/
theorem forget {β : Type} [Nodes β] {b : β} (h : Reads K n takes q) : Reads (K.and b) n takes q :=
  fun c hc hn => h c hc.of_and hn

/-- A further value, made of those that there are. -/
theorem given {b : β} (hb : ∀ {high}, K.facts high → K.Has high b) (h : Reads (K.and b) n takes q) :
    Reads K n takes q :=
  fun c hc hn => h c (hc.and (hb hc.facts)) hn

/-- A value made of those that there are. -/
theorem give_of {a : α} (htakes : ¬ takes a) (ha : ∀ {high}, K.facts high → K.Has high a) :
    Reads K n takes (pure a) :=
  fun _ hc _ => ⟨hc.valid, .refl hc.ordered htakes, ha hc.facts⟩

theorem give {a : α} (ha : ∀ {high}, K.facts high → K.Has high a) : Keeps K n (pure a) :=
  .give_of id ha

/-- A value without nodes. -/
theorem done_of {a : α} (htakes : ¬ takes a) (h : nodes a = []) : Reads K n takes (pure a) :=
  .give_of htakes fun _ => fits_of_nodes h

theorem done {a : α} (h : nodes a = []) : Keeps K n (pure a) :=
  .done_of id h

/-- What comes after a token has less of the text to do with. -/
theorem below_or (hq : Reads K (n + 1) takes q) (hyes : ∀ a, takes a → Keeps (K.and a) n (f a))
    (hno : ∀ a, ¬ takes a → Reads (K.and a) (n + 1) takes' (f a)) :
    Reads K (n + 1) takes' (q >>= f) := by
  intro c hc hn
  refine ReadsAt.bind hc (hq c hc hn) fun a c' hc' hl => ?_
  by_cases htaken : takes a
  · have hlt := hl.left_lt hc.valid hc'.valid htaken
    exact (hyes a htaken c' hc' (by omega)).imp fun _ h => h.2 htaken
  · have hle := hl.left_le hc.valid hc'.valid
    exact (hno a htaken c' hc' (by omega)).imp fun _ h => h.1

theorem before_or (hq : Reads K n takes q) (hyes : ∀ a, takes a → Keeps (K.and a) n (f a))
    (hno : ∀ a, ¬ takes a → Reads (K.and a) n takes' (f a)) : Reads K n takes' (q >>= f) := by
  cases n with
  | zero => exact fun _ _ h => absurd h (Nat.not_lt_zero _)
  | succ n => exact hq.below_or (fun a h => (hyes a h).lower) hno

theorem bind (hq : Reads K n takes q) (hf : ∀ a, Reads (K.and a) n takes' (f a)) :
    Reads K n takes' (q >>= f) :=
  hq.before_or (fun a _ => (hf a).keeps) fun a _ => hf a

end Reads

theorem Keeps.bind (hq : Keeps K n q) (hf : ∀ a, Reads (K.and a) n takes' (f a)) :
    Reads K n takes' (q >>= f) :=
  Reads.bind hq hf

/-- What comes after a token that is there for sure. -/
theorem Takes.below (hq : Takes K (n + 1) q) (hf : ∀ a, Keeps (K.and a) n (f a)) :
    Reads K (n + 1) takes' (q >>= f) :=
  hq.below_or (fun a _ => hf a) fun _ h => absurd trivial h

theorem Takes.before (hq : Takes K n q) (hf : ∀ a, Keeps (K.and a) n (f a)) :
    Reads K n takes' (q >>= f) :=
  hq.before_or (fun a _ => hf a) fun _ h => absurd trivial h

section

variable {g : Parse β}

theorem Takes.past (hq : Takes K (n + 1) q) (hg : Keeps K n g) :
    Reads K (n + 1) takes' (q >>= fun _ => g) :=
  Takes.below hq fun _ => hg.forget

theorem Takes.after (hq : Takes K n q) (hg : Keeps K n g) : Reads K n takes' (q >>= fun _ => g) :=
  Takes.before hq fun _ => hg.forget

/-- The value is not used. -/
theorem Reads.drop (hq : Reads K n takes q) (hf : ∀ a, Reads K n takes' (f a)) :
    Reads K n takes' (q >>= f) :=
  hq.bind fun a => (hf a).forget

theorem Reads.seq (hq : Reads K n takes q) (hg : Reads K n takes' g) :
    Reads K n takes' (q >>= fun _ => g) :=
  hq.drop fun _ => hg

end

/-- The value in another form. -/
theorem Reads.wrap {g : α → β} (hq : Reads K n takes q) (hg : nodes ∘ g = nodes) :
    Keeps K n (do return g (← q)) :=
  hq.bind fun a => .give fun h => h.2.of_nodes (congrFun hg a)

theorem Takes.wrap {g : α → β} (hq : Takes K n q) (hg : nodes ∘ g = nodes) :
    Reads K n takes' (do return g (← q)) :=
  Takes.before hq fun a => .give fun h => h.2.of_nodes (congrFun hg a)

section

variable {q : Parse Bool} {takes : Bool → Prop} {f : Bool → Parse β}

/-- What comes after a token that may be there. -/
theorem Reads.below_if (hq : Reads K (n + 1) (fun taken => taken = true) q)
    (hyes : Keeps K n (f true)) (hno : Reads K (n + 1) takes' (f false)) :
    Reads K (n + 1) takes' (q >>= f) := by
  refine hq.below_or (fun taken h => ?_) fun taken h => ?_
  · rw [h]
    exact hyes.forget
  · rw [Bool.eq_false_iff.2 h]
    exact hno.forget

theorem Reads.before_if (hq : Reads K n (fun taken => taken = true) q)
    (hyes : Keeps K n (f true)) (hno : Reads K n takes' (f false)) :
      Reads K n takes' (q >>= f) := by
  refine hq.before_or (fun taken h => ?_) fun taken h => ?_
  · rw [h]
    exact hyes.forget
  · rw [Bool.eq_false_iff.2 h]
    exact hno.forget

/-- Whether a token was taken does not matter. -/
theorem Reads.either (hq : Reads K n takes q) (hyes : Reads K n takes' (f true))
    (hno : Reads K n takes' (f false)) : Reads K n takes' (q >>= f) := by
  refine hq.bind fun taken => ?_
  cases taken with
  | true => exact hyes.forget
  | false => exact hno.forget

end

/-! ### Failing and looking -/

theorem reject_reads (expected : String) : Reads K n takes (reject expected) := by
  intro c hc _
  refine ⟨?_, _, hc.valid.isTokenOf, rfl⟩
  unfold Cursor.unexpected
  split <;> rfl

theorem fault_reads (message : String) : Reads K n takes (fault message) :=
  fun _ hc _ => hc.valid.isPlaceOf.malformed message

/-- A fault of the text can be raised anywhere. -/
theorem throw_reads {d : Diagnostic} (h : ∀ {high}, K.facts high → d.IsFaultOf s) :
    Reads K n takes (throw d) :=
  fun _ hc _ => h hc.facts

/-- What follows may depend on the cursor. -/
theorem get_reads {f : Cursor → Parse β}
    (h : ∀ c : Cursor, K.Holds c → c.left < n → ReadsAt K c takes' (f c)) :
    Reads K n takes' (get >>= f) :=
  fun c hc hn => h c hc hn

/-- What follows does not depend on the cursor. -/
theorem look_reads {f : Cursor → Parse β} (h : ∀ c, Reads K n takes' (f c)) :
    Reads K n takes' (get >>= f) :=
  get_reads fun c hc hn => h c c hc hn

/-- A rule begins here. -/
theorem here_reads {f : Span → Parse β} (h : ∀ K : Scene s known, Takes K n (f K.start)) :
    Reads K n takes' (here >>= f) :=
  fun c hc hn => ReadsAt.start hc (h (.opening hc.valid) c hc.opening hn)

theorem sees_keeps (mark : Punct) : Keeps K n (sees mark) :=
  look_reads fun _ => .done rfl

theorem seesWord_keeps (word : Keyword) : Keeps K n (seesWord word) :=
  look_reads fun _ => .done rfl

theorem seesName_keeps : Keeps K n seesName :=
  look_reads fun _ => .done rfl

theorem seesNamed_keeps (name : String) : Keeps K n (seesNamed name) :=
  look_reads fun _ => .done rfl

theorem newlineBefore_keeps : Keeps K n newlineBefore :=
  look_reads fun _ => .done rfl

/-- A rule ends with the extent of what was read. -/
theorem spanFrom_pure {f : Span → α}
    (h : ∀ c, K.Holds c → K.Has (K.reach c) (f (c.spanFrom K.start))) :
    Keeps K n (do return f (← spanFrom K.start)) :=
  fun c hc _ => ⟨hc.valid, .refl hc.ordered id, h c hc⟩

/-- A rule ends with a node over what was read. -/
theorem node_keeps {α : Type} [IsNode α] {f : Span → α}
    (hspan : (fun span => (node (f span)).span) = id)
    (h : ∀ {high span}, K.facts high →
      ∀ y ∈ (node (f span)).children, y.Lies s known K.start.start high) :
    Keeps K n (do return f (← spanFrom K.start)) :=
  spanFrom_pure fun _ hc => hc.over (congrFun hspan _) (h hc.facts)

/-! ### Moving -/

theorem advance_keeps : Keeps K n advance :=
  fun _ hc _ => ⟨hc.valid.advance, (hc.valid.leads_advance hc.ordered).imp False.elim, nofun⟩

/-- A token that is not the end of the text is taken. -/
theorem advance_takes (hc : K.Holds c) (hend : c.atEnd = false) :
    ReadsAt K c (fun _ => True) advance :=
  ⟨hc.valid.advance, (hc.valid.leads_advance hc.ordered).imp fun _ => hend, nofun⟩

/-- What comes after a token that is taken. -/
theorem ReadsAt.before (hc : K.Holds c) (hq : ReadsAt K c (fun _ => True) q)
    (hf : ∀ a, Keeps (K.and a) c.left (f a)) : ReadsAt K c takes' (q >>= f) := by
  refine ReadsAt.bind hc hq fun a c' hc' hl => ?_
  have hlt := hl.left_lt hc.valid hc'.valid trivial
  exact (hf a c' hc' hlt).imp fun _ h => h.2 trivial

theorem advance_at {f : Unit → Parse β} (hc : K.Holds c) (hend : c.atEnd = false)
    (hf : Keeps K c.left (f ())) : ReadsAt K c takes' (advance >>= f) :=
  ReadsAt.before hc (advance_takes hc hend) fun _ => hf.forget

/-- The token is a node by itself. -/
theorem token_at {α : Type} [IsNode α] {takes : α → Prop} {a : α} (hc : K.Holds c)
    (hend : c.current.kind ≠ .eof) (hspan : (node a).span = c.current.span)
    (hleaf : (node a).children = []) :
    ReadsAt K c takes (do advance; return a) := by
  have hl := hc.valid.leads_advance hc.ordered
  have hnode := (hc.opening.leads hl hc.valid.advance).over
    (hspan.trans hc.valid.spanFrom_advance.symm)
    (by simp [hleaf])
  exact ReadsAt.start hc ⟨hc.valid.advance, hl.imp fun _ => by simp [Cursor.atEnd], hnode⟩

/-- A punctuator that is not there leaves the cursor where it is. -/
theorem accept_at {mark : Punct} {f : Bool → Parse β} (hc : K.Holds c)
    (hyes : Keeps K c.left (f true)) (hno : ReadsAt K c takes' (f false)) :
    ReadsAt K c takes' (accept mark >>= f) := by
  show ReadsAt K c takes' ((if c.sees mark then do advance; return true else return false) >>= f)
  cases hsees : c.sees mark with
  | false => exact hno
  | true => exact advance_at (f := fun _ => f true) hc (Cursor.atEnd_of_sees hsees) hyes

/-- A punctuator that is there is taken. -/
theorem accept_reads (mark : Punct) : Reads K n (fun taken => taken = true) (accept mark) := by
  refine get_reads fun c hc hn => ?_
  cases hsees : c.sees mark with
  | false => exact ⟨hc.valid, .refl hc.ordered (by simp), nofun⟩
  | true => exact advance_at hc (Cursor.atEnd_of_sees hsees) (.done rfl)

/-- A keyword that is there is taken. -/
theorem acceptWord_reads (word : Keyword) :
    Reads K n (fun taken => taken = true) (acceptWord word) := by
  refine get_reads fun c hc hn => ?_
  cases hsees : c.seesWord word with
  | false => exact ⟨hc.valid, .refl hc.ordered (by simp), nofun⟩
  | true => exact advance_at hc (Cursor.atEnd_of_seesWord hsees) (.done rfl)

theorem require_takes (mark : Punct) : Takes K n (require mark) := by
  refine get_reads fun c hc hn => ?_
  cases hsees : c.sees mark with
  | false => exact reject_reads _ c hc hn
  | true => exact advance_takes hc (Cursor.atEnd_of_sees hsees)

theorem requireWord_takes (word : Keyword) : Takes K n (requireWord word) := by
  refine get_reads fun c hc hn => ?_
  cases hsees : c.seesWord word with
  | false => exact reject_reads _ c hc hn
  | true => exact advance_takes hc (Cursor.atEnd_of_seesWord hsees)

theorem endStatement_keeps : Keeps K n endStatement := by
  refine look_reads fun c => ?_
  split
  · exact advance_keeps
  · split
    · exact .done rfl
    · exact reject_reads _

/-! ### Repeating -/

/-- A round takes a token if the loop goes on after it. -/
abbrev Rounds (K : Scene s known) (n : Nat) (q : Parse (σ ⊕ β)) : Prop :=
  Reads K n (fun r => r.isLeft = true) q

theorem stop_at {b : β} (hc : K.Holds c) (hb : K.Has (K.reach c) b) :
    ReadsAt K c (fun r => r.isLeft = true) (pure (.inr b) : Parse (σ ⊕ β)) :=
  ⟨hc.valid, .refl hc.ordered (by simp), hb⟩

/-- The loop goes on with a further state. -/
theorem loop_ends {step : σ → Parse (σ ⊕ β)} (hstep : ∀ x, Rounds (K.and x) n (step x)) {fuel : Nat}
    {x : σ} (hc : (K.and x).Holds c) (hn : c.left < n) (hfuel : c.left < fuel) :
    ReadsAt K c (fun _ => False) (loop step fuel x) := by
  induction fuel generalizing x c with
  | zero => omega
  | succ fuel ih =>
    refine ReadsAt.bind hc.of_and (hstep x c hc hn) fun r c' hc' hl => ?_
    cases r with
    | inr b => exact ⟨hc'.valid, .refl hc'.ordered (fun h => h.1), hc'.facts.2⟩
    | inl x' =>
      have hlt := hl.left_lt hc.valid hc'.valid rfl
      exact (ih hc' (by omega) (by omega)).imp fun _ h => h.1

/-- A loop whose rounds take a token each comes to its end. -/
theorem repeating_keeps {step : σ → Parse (σ ⊕ β)} {x : σ}
    (hx : ∀ {high}, K.facts high → K.Has high x) (hstep : ∀ x, Rounds (K.and x) n (step x)) :
    Keeps K n (repeating step x) :=
  get_reads fun _ hc hn => loop_ends hstep (hc.and (hx hc.facts)) hn (Nat.lt_succ_self _)

/-- A loop that keeps no nodes. -/
theorem passing_keeps {step : σ → Parse (σ ⊕ β)} {x : σ} (hx : nodes x = [])
    (hstep : ∀ x, Rounds K n (step x)) : Keeps K n (repeating step x) :=
  repeating_keeps (fun _ => fits_of_nodes hx) fun x => (hstep x).forget

variable {element : Parse α}

theorem manyUntil_keeps (stops : Cursor → Bool) (h : ∀ K : Scene s known, Takes K n element) :
    Keeps K n (manyUntil stops element) := by
  refine repeating_keeps (fun _ => fits_nil) fun taken => look_reads fun c => ?_
  split
  · exact .give_of nofun fun h => h.2.reverse
  · exact Takes.before (h _) fun a => .give fun h => h.2.cons h.1.2

theorem commaUntil_keeps (close : Punct) (h : ∀ K : Scene s known, Keeps K n element) :
    Keeps K n (commaUntil close element) := by
  refine repeating_keeps (fun _ => fits_nil) fun taken => look_reads fun c => ?_
  split
  · exact .give_of nofun fun h => h.2.reverse
  · refine (h _).bind fun a => (accept_reads .comma).before_if ?_ ?_
    · exact .give fun h => h.2.cons h.1.2
    · exact .give_of nofun fun h => (h.2.cons h.1.2).reverse

theorem afterCommas_keeps (h : ∀ K : Scene s known, Keeps K n element) :
    Keeps K n (afterCommas element) := by
  refine repeating_keeps (fun _ => fits_nil) fun taken => (accept_reads .comma).before_if ?_ ?_
  · exact (h _).bind fun a => .give fun h => h.2.cons h.1.2
  · exact .give_of nofun fun h => h.2.reverse

end Parse

end PackScript
