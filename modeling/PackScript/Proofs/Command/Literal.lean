import PackScript.Nbt.Snbt
import PackScript.Proofs.Json.Number
import PackScript.Proofs.Program.Content

namespace PackScript

/-!
# Literals are told apart

The text of a tree determines the tree, also when other text follows. Each statement has the form
`f a ++ s = f b ++ t → a = b ∧ s = t`, so that the texts of larger parts are taken to pieces from
the left; what may follow is said by `Stops`.

* `append_inj_of_stops` — words over a class of characters, each followed by something else.
* `Snbt.quoteChars_append_inj` — a text in quotes ends by itself.
* `Snbt.wordChars_append_inj` — a key that is in quotes unless it is bare.
* `Snbt.chars_append_inj` — trees, when their doubles are told apart by their texts.
* `snbt_determines_tree` — trees of finite doubles have different texts.
-/

variable {c : Char} {p : Char → Bool} {a b s t : List Char} {xs ys : List Float} {m n : Nbt}

/-- The text is at its end, or goes on with a character outside of the class. -/
def Stops (p : Char → Bool) (s : List Char) : Prop :=
  ∀ c ∈ s.head?, p c = false

@[simp] theorem stops_nil (p : Char → Bool) : Stops p [] := by
  simp [Stops]

@[simp] theorem stops_cons : Stops p (c :: s) ↔ p c = false := by
  simp [Stops]

theorem Stops.mono {q : Char → Bool} (h : Stops p s) (hq : ∀ c, q c = true → p c = true) :
    Stops q s := by
  intro c hc
  have := mt (hq c)
  simp_all [Stops]

/-- Words of one class, each followed by a character outside of the class or by nothing. -/
theorem append_inj_of_stops {x y : List Char} (hx : ∀ c ∈ x, p c = true) (hy : ∀ c ∈ y, p c = true)
    (hs : Stops p s) (ht : Stops p t) (h : x ++ s = y ++ t) : x = y ∧ s = t := by
  induction x generalizing y with
  | nil =>
    cases y with
    | nil => exact ⟨rfl, h⟩
    | cons c y =>
      rw [List.nil_append] at h
      rw [h, List.cons_append, stops_cons, hy c (by simp)] at hs
      cases hs
  | cons c x ih =>
    cases y with
    | nil =>
      rw [List.nil_append] at h
      rw [← h, List.cons_append, stops_cons, hx c (by simp)] at ht
      cases ht
    | cons d y =>
      obtain ⟨rfl, hrest⟩ := List.cons.inj h
      obtain ⟨rfl, rfl⟩ := ih (fun a ha => hx a (List.mem_cons_of_mem _ ha))
        (fun a ha => hy a (List.mem_cons_of_mem _ ha)) hrest
      exact ⟨rfl, rfl⟩

namespace Snbt

/-! ### Quoted texts -/

theorem escapeChar_cases (c : Char) :
    (c = '"' ∧ escapeChar c = ['\\', '"']) ∨ (c = '\\' ∧ escapeChar c = ['\\', '\\']) ∨
      (c = '\n' ∧ escapeChar c = ['\\', 'n']) ∨
      (c ≠ '"' ∧ c ≠ '\\' ∧ c ≠ '\n' ∧ escapeChar c = [c]) := by
  unfold escapeChar
  split <;> simp_all

theorem escapeChar_append_inj {d : Char} (h : escapeChar c ++ s = escapeChar d ++ t) :
    c = d ∧ s = t := by
  rcases escapeChar_cases c with ⟨rfl, hc⟩ | ⟨rfl, hc⟩ | ⟨rfl, hc⟩ | ⟨hc₁, hc₂, hc₃, hc⟩ <;>
    rcases escapeChar_cases d with ⟨rfl, hd⟩ | ⟨rfl, hd⟩ | ⟨rfl, hd⟩ | ⟨hd₁, hd₂, hd₃, hd⟩ <;>
    grind

/-- No escaped character looks like the quote at the end. -/
theorem escapeChar_append_ne : escapeChar c ++ s ≠ '"' :: t := by
  rcases escapeChar_cases c with ⟨rfl, hc⟩ | ⟨rfl, hc⟩ | ⟨rfl, hc⟩ | ⟨hc₁, hc₂, hc₃, hc⟩ <;>
    simp_all

theorem quoteChars_append_inj (h : quoteChars a ++ s = quoteChars b ++ t) : a = b ∧ s = t := by
  simp only [quoteChars, List.cons_append, List.cons.injEq, true_and, List.append_assoc,
    List.nil_append] at h
  induction a generalizing b with
  | nil =>
    cases b with
    | nil => simpa using h
    | cons d b =>
      simp only [List.flatMap_nil, List.nil_append, List.flatMap_cons, List.append_assoc] at h
      exact absurd h.symm escapeChar_append_ne
  | cons c a ih =>
    cases b with
    | nil =>
      simp only [List.flatMap_nil, List.nil_append, List.flatMap_cons, List.append_assoc] at h
      exact absurd h escapeChar_append_ne
    | cons d b =>
      simp only [List.flatMap_cons, List.append_assoc] at h
      obtain ⟨rfl, hrest⟩ := escapeChar_append_inj h
      obtain ⟨rfl, rfl⟩ := ih hrest
      exact ⟨rfl, rfl⟩

theorem newline_not_mem_quoteChars (cs : List Char) : '\n' ∉ quoteChars cs := by
  have hescape : ∀ c, '\n' ∉ escapeChar c := by
    intro c
    rcases escapeChar_cases c with ⟨rfl, hc⟩ | ⟨rfl, hc⟩ | ⟨rfl, hc⟩ | ⟨hc₁, hc₂, hc₃, hc⟩
    all_goals rw [hc]; simp
    exact fun h => hc₃ h.symm
  simp [quoteChars, hescape]

/-! ### Words -/

/-- A word that is in quotes unless all its characters are in the class. -/
def wordChars (p : Char → Bool) (cs : List Char) : List Char :=
  if !cs.isEmpty && cs.all p then cs else quoteChars cs

theorem keyChars_eq_wordChars : keyChars = wordChars isBareKeyChar := rfl

theorem wordChars_cases (p : Char → Bool) (cs : List Char) :
    (cs ≠ [] ∧ (∀ c ∈ cs, p c = true) ∧ wordChars p cs = cs) ∨ wordChars p cs = quoteChars cs := by
  unfold wordChars
  split
  · next h => exact .inl (by simpa using h)
  · exact .inr rfl

/-- A word starts with a bare character or with a quote. -/
theorem wordChars_eq_cons (p : Char → Bool) (cs : List Char) :
    ∃ c rest, wordChars p cs = c :: rest ∧ (p c = true ∨ c = '"') := by
  rcases wordChars_cases p cs with ⟨hne, hall, hword⟩ | hword
  · obtain ⟨c, rest, rfl⟩ := List.exists_cons_of_ne_nil hne
    exact ⟨c, rest, hword, .inl (hall c (by simp))⟩
  · exact ⟨'"', _, hword, .inr rfl⟩

theorem wordChars_append_inj (hp : p '"' = false) (hs : Stops p s) (ht : Stops p t)
    (h : wordChars p a ++ s = wordChars p b ++ t) : a = b ∧ s = t := by
  -- a bare word does not start with a quote
  have hbare : ∀ {a b s t : List Char}, a ≠ [] → (∀ c ∈ a, p c = true) →
      a ++ s ≠ quoteChars b ++ t := by
    intro a b s t hne hall h
    obtain ⟨c, a, rfl⟩ := List.exists_cons_of_ne_nil hne
    obtain ⟨rfl, -⟩ := List.cons.inj h
    simp [hall] at hp
  rcases wordChars_cases p a with ⟨ha, hpa, hwa⟩ | hwa <;>
    rcases wordChars_cases p b with ⟨hb, hpb, hwb⟩ | hwb <;> rw [hwa, hwb] at h
  · exact append_inj_of_stops hpa hpb hs ht h
  · exact absurd h (hbare ha hpa)
  · exact absurd h.symm (hbare hb hpb)
  · exact quoteChars_append_inj h

theorem newline_not_mem_wordChars (hp : p '\n' = false) (cs : List Char) :
    '\n' ∉ wordChars p cs := by
  rcases wordChars_cases p cs with ⟨-, hall, hword⟩ | hword
  · rw [hword]
    intro hmem
    simp [hall _ hmem] at hp
  · rw [hword]
    exact newline_not_mem_quoteChars cs

/-! ### Flags and numbers -/

/-- A character of a flag, an integer or a double. -/
def isLeafChar (c : Char) : Bool :=
  isNumberChar c || c == 'b' || c == 'd'

theorem isNumberChar_of_mem_toString {i : Int} :
    ∀ c ∈ (toString i).toList, isNumberChar c = true := by
  intro c hc
  rw [Int.toString_eq_repr, Int.repr_eq_if] at hc
  split at hc
  · rw [Nat.toList_repr] at hc
    exact isNumberChar_of_isDecimalDigit (isDecimalDigit_of_mem_digitsOf hc)
  · rw [String.toList_append, List.mem_append, Nat.toList_repr] at hc
    rcases hc with hc | hc
    · rw [show c = '-' by simpa using hc]
      decide
    · exact isNumberChar_of_isDecimalDigit (isDecimalDigit_of_mem_digitsOf hc)

theorem toString_toList_ne_nil (i : Int) : (toString i).toList ≠ [] := by
  rw [Int.toString_eq_repr, Int.repr_eq_if]
  split
  · rw [Nat.toList_repr]
    exact Nat.toDigits_ne_nil
  · simp

theorem natRepr_inj {m n : Nat} (h : m.repr.toList = n.repr.toList) : m = n := by
  rw [Nat.toList_repr, Nat.toList_repr] at h
  have hread := congrArg (Nat.ofDigitChars 10 · 0) h
  simpa only [Nat.ofDigitChars_ten_toDigits] using hread

theorem int32_ext {i j : Int32} (h : (toString i.toInt).toList = (toString j.toInt).toList) :
    i = j := by
  have hsign : ∀ {m n : Nat}, n.repr.toList ≠ ("-" ++ m.repr).toList := by
    intro m n h
    have hmem : '-' ∈ n.repr.toList := by rw [h]; simp
    rw [Nat.toList_repr] at hmem
    exact absurd (isDecimalDigit_of_mem_digitsOf hmem) (by decide)
  simp only [Int.toString_eq_repr, Int.repr_eq_if] at h
  apply Int32.toInt_inj.1
  split at h <;> split at h
  · have := natRepr_inj h
    omega
  · exact absurd h hsign
  · exact absurd h.symm hsign
  · rw [String.toList_append, String.toList_append, List.append_cancel_left_eq] at h
    have := natRepr_inj h
    omega

/-- A double is some characters of a number and the mark of a double. -/
theorem doubleChars_eq (x : Float) :
    ∃ cs, doubleChars x = cs ++ ['d'] ∧ ∀ c ∈ cs, isNumberChar c = true := by
  unfold doubleChars
  split
  · next hx => exact ⟨_, rfl, DecimalLayout.mem_format hx⟩
  · exact ⟨['0', '.', '0'], rfl,
      List.all_eq_true.1 (show ['0', '.', '0'].all isNumberChar = true by decide)⟩

/-- A tree that is a flag or a number. -/
def IsLeaf : Nbt → Prop
  | .bool _ | .int _ | .double _ => True
  | .string _ | .list _ | .compound _ => False

/-- The first doubles are told apart from the second ones by their texts. -/
def ToldApart (xs ys : List Float) : Prop :=
  ∀ x ∈ xs, ∀ y ∈ ys, doubleChars x = doubleChars y → x = y

theorem ToldApart.mono {xs' ys' : List Float} (h : ToldApart xs ys) (hx : xs' ⊆ xs) (hy : ys' ⊆ ys)
    : ToldApart xs' ys' :=
  fun x hx' y hy' => h x (hx hx') y (hy hy')

theorem chars_of_isLeaf (h : IsLeaf n) : chars n ≠ [] ∧ ∀ c ∈ chars n, isLeafChar c = true := by
  cases n with
  | bool b => cases b <;> simp [chars] <;> decide
  | int i =>
    rw [chars]
    refine ⟨toString_toList_ne_nil _, fun c hc => ?_⟩
    simp [isLeafChar, isNumberChar_of_mem_toString c hc]
  | double x =>
    obtain ⟨cs, hcs, hall⟩ := doubleChars_eq x
    rw [chars, hcs]
    refine ⟨by simp, fun c hc => ?_⟩
    rcases List.mem_append.1 hc with hc | hc
    · simp [isLeafChar, hall c hc]
    · rw [List.mem_singleton.1 hc]
      decide
  | string _ | list _ | compound _ => cases h

/-- Flags and doubles end with their marks, integers with a digit. -/
theorem eq_of_isLeaf (hn : IsLeaf n) (hm : IsLeaf m) (hd : ToldApart n.doubles m.doubles)
    (h : chars n = chars m) : n = m := by
  have hbd : isNumberChar 'b' = false ∧ isNumberChar 'd' = false := by decide
  -- no integer ends with a mark
  have hint : ∀ {i : Int32} (cs : List Char) {c : Char}, isNumberChar c = false →
      (toString i.toInt).toList ≠ cs ++ [c] := by
    intro i cs c hc h
    have hmem : c ∈ (toString i.toInt).toList := by rw [h]; simp
    rw [isNumberChar_of_mem_toString c hmem] at hc
    cases hc
  -- no double ends with the mark of a flag
  have hdouble : ∀ {x : Float} {c : Char}, doubleChars x ≠ [c, 'b'] := by
    intro x c h
    obtain ⟨cs, hcs, -⟩ := doubleChars_eq x
    have := congrArg List.getLast? (hcs.symm.trans h)
    simp at this
  cases n with
  | bool a =>
    cases m with
    | bool b => cases a <;> cases b <;> simp_all [chars]
    | int j => exact absurd h.symm (hint [_] hbd.1)
    | double y => exact absurd h.symm hdouble
    | string _ | list _ | compound _ => cases hm
  | int i =>
    cases m with
    | bool b => exact absurd h (hint [_] hbd.1)
    | int j => rw [int32_ext h]
    | double y =>
      obtain ⟨cs, hcs, -⟩ := doubleChars_eq y
      exact absurd (h.trans hcs) (hint cs hbd.2)
    | string _ | list _ | compound _ => cases hm
  | double x =>
    cases m with
    | bool b => exact absurd h hdouble
    | int j =>
      obtain ⟨cs, hcs, -⟩ := doubleChars_eq x
      exact absurd (h.symm.trans hcs) (hint cs hbd.2)
    | double y => rw [hd x (List.mem_singleton_self x) y (List.mem_singleton_self y) h]
    | string _ | list _ | compound _ => cases hm
  | string _ | list _ | compound _ => cases hn

/-! ### Trees -/

/-- The items of a list, with the commas between them. -/
def listChars : List Nbt → List Char
  | [] => []
  | item :: items => chars item ++ itemsChars items

/-- The entries of a compound, with the commas between them. -/
def compoundChars : List (String × Nbt) → List Char
  | [] => []
  | (k, v) :: entries => keyChars k.toList ++ ':' :: chars v ++ entriesChars entries

theorem chars_list (items : List Nbt) :
    chars (.list items) = '[' :: (listChars items ++ [']']) := by
  cases items <;> simp [chars, listChars]

theorem chars_compound (entries : List (String × Nbt)) :
    chars (.compound entries) = '\x7b' :: (compoundChars entries ++ ['\x7d']) := by
  cases entries <;> simp [chars, compoundChars]

/-- What a tree that is no flag and no number starts with. -/
theorem chars_of_not_isLeaf (h : ¬ IsLeaf n) :
    ∃ c cs, chars n = c :: cs ∧ (c = '"' ∨ c = '[' ∨ c = '\x7b') := by
  cases n with
  | bool _ | int _ | double _ => exact absurd trivial h
  | string s => exact ⟨'"', _, rfl, by simp⟩
  | list items => exact ⟨'[', _, chars_list items, by simp⟩
  | compound entries => exact ⟨'\x7b', _, chars_compound entries, by simp⟩

/-- No tree starts with the end of a list. -/
theorem chars_append_ne : chars n ++ s ≠ ']' :: t := by
  intro h
  by_cases hn : IsLeaf n
  · obtain ⟨hne, hall⟩ := chars_of_isLeaf hn
    obtain ⟨c, cs, hcs⟩ := List.exists_cons_of_ne_nil hne
    rw [hcs] at h
    obtain ⟨rfl, -⟩ := List.cons.inj h
    exact absurd (hall ']' (by simp [hcs])) (by decide)
  · obtain ⟨c, cs, hcs, hc⟩ := chars_of_not_isLeaf hn
    rw [hcs] at h
    obtain ⟨rfl, -⟩ := List.cons.inj h
    exact absurd hc (by decide)

/-- No key starts with the end of a compound. -/
theorem keyChars_append_ne {cs : List Char} : keyChars cs ++ s ≠ '\x7d' :: t := by
  intro h
  obtain ⟨c, rest, hword, hc⟩ := wordChars_eq_cons isBareKeyChar cs
  rw [keyChars_eq_wordChars, hword] at h
  obtain ⟨rfl, -⟩ := List.cons.inj h
  exact absurd hc (by decide)

theorem keyChars_append_inj {a b : String}
    (h : keyChars a.toList ++ ':' :: s = keyChars b.toList ++ ':' :: t) : a = b ∧ s = t := by
  obtain ⟨hkey, hrest⟩ := wordChars_append_inj (p := isBareKeyChar) (by decide)
    (stops_cons.2 (by decide)) (stops_cons.2 (by decide)) h
  exact ⟨String.toList_inj.1 hkey, (List.cons.inj hrest).2⟩

theorem stops_itemsChars (items : List Nbt) (s : List Char) :
    Stops isLeafChar (itemsChars items ++ ']' :: s) := by
  cases items <;> simp [itemsChars] <;> decide

theorem stops_entriesChars (entries : List (String × Nbt)) (s : List Char) :
    Stops isLeafChar (entriesChars entries ++ '\x7d' :: s) := by
  cases entries <;> simp [entriesChars] <;> decide

/-- A flag or a number is told from every tree. -/
theorem eq_of_isLeaf_append (hn : IsLeaf n) (hd : ToldApart n.doubles m.doubles)
    (hs : Stops isLeafChar s) (ht : Stops isLeafChar t) (h : chars n ++ s = chars m ++ t) :
    n = m ∧ s = t := by
  obtain ⟨hne, hall⟩ := chars_of_isLeaf hn
  by_cases hm : IsLeaf m
  · obtain ⟨hchars, hrest⟩ := append_inj_of_stops hall (chars_of_isLeaf hm).2 hs ht h
    exact ⟨eq_of_isLeaf hn hm hd hchars, hrest⟩
  · obtain ⟨c, cs, hcs, hc⟩ := chars_of_not_isLeaf hm
    obtain ⟨d, ds, hds⟩ := List.exists_cons_of_ne_nil hne
    rw [hcs, hds] at h
    obtain ⟨rfl, -⟩ := List.cons.inj h
    have hleaf := hall d (by simp [hds])
    rcases hc with rfl | rfl | rfl <;> exact absurd hleaf (by decide)

theorem ToldApart.symm (h : ToldApart xs ys) : ToldApart ys xs :=
  fun x hx y hy heq => (h y hy x hx heq.symm).symm

mutual

/-- The text of a tree determines the tree and where the text ends. -/
theorem chars_append_inj (n m : Nbt) {s t : List Char} (hd : ToldApart n.doubles m.doubles)
    (hs : Stops isLeafChar s) (ht : Stops isLeafChar t) (h : chars n ++ s = chars m ++ t) :
    n = m ∧ s = t := by
  match n, m with
  | .bool a, m => exact eq_of_isLeaf_append (n := .bool a) trivial hd hs ht h
  | .int a, m => exact eq_of_isLeaf_append (n := .int a) trivial hd hs ht h
  | .double a, m => exact eq_of_isLeaf_append (n := .double a) trivial hd hs ht h
  | n, .bool b =>
    obtain ⟨rfl, rfl⟩ := eq_of_isLeaf_append (n := .bool b) trivial hd.symm ht hs h.symm
    exact ⟨rfl, rfl⟩
  | n, .int b =>
    obtain ⟨rfl, rfl⟩ := eq_of_isLeaf_append (n := .int b) trivial hd.symm ht hs h.symm
    exact ⟨rfl, rfl⟩
  | n, .double b =>
    obtain ⟨rfl, rfl⟩ := eq_of_isLeaf_append (n := .double b) trivial hd.symm ht hs h.symm
    exact ⟨rfl, rfl⟩
  | .string a, .string b =>
    rw [chars, chars] at h
    obtain ⟨hab, rfl⟩ := quoteChars_append_inj h
    exact ⟨by rw [String.toList_inj.1 hab], rfl⟩
  | .list [], .list [] => simpa [chars] using h
  | .list [], .list (b :: bs) =>
    simp only [chars_list, listChars, List.cons_append, List.cons.injEq, true_and,
      List.append_assoc, List.nil_append] at h
    exact absurd h.symm chars_append_ne
  | .list (a :: as), .list [] =>
    simp only [chars_list, listChars, List.cons_append, List.cons.injEq, true_and,
      List.append_assoc, List.nil_append] at h
    exact absurd h chars_append_ne
  | .list (a :: as), .list (b :: bs) =>
    simp only [chars_list, listChars, List.cons_append, List.cons.injEq, true_and,
      List.append_assoc, List.nil_append] at h
    rw [Nbt.doubles, Nbt.doubles] at hd
    obtain ⟨hitems, rfl⟩ := itemsChars_append_inj (a :: as) (b :: bs) hd
      (by simpa [itemsChars] using h)
    exact ⟨congrArg _ hitems, rfl⟩
  | .compound [], .compound [] => simpa [chars] using h
  | .compound [], .compound ((k, b) :: bs) =>
    simp only [chars_compound, compoundChars, List.cons_append, List.cons.injEq, true_and,
      List.append_assoc, List.nil_append] at h
    exact absurd h.symm keyChars_append_ne
  | .compound ((k, a) :: as), .compound [] =>
    simp only [chars_compound, compoundChars, List.cons_append, List.cons.injEq, true_and,
      List.append_assoc, List.nil_append] at h
    exact absurd h keyChars_append_ne
  | .compound ((k, a) :: as), .compound ((l, b) :: bs) =>
    simp only [chars_compound, compoundChars, List.cons_append, List.cons.injEq, true_and,
      List.append_assoc, List.nil_append] at h
    rw [Nbt.doubles, Nbt.doubles] at hd
    obtain ⟨hentries, rfl⟩ := entriesChars_append_inj ((k, a) :: as) ((l, b) :: bs) hd
      (by simpa [entriesChars] using h)
    exact ⟨congrArg _ hentries, rfl⟩
  | .string a, .list bs => simp [chars, quoteChars, chars_list] at h
  | .string a, .compound bs => simp [chars, quoteChars, chars_compound] at h
  | .list as, .string b => simp [chars, quoteChars, chars_list] at h
  | .list as, .compound bs => simp [chars_compound, chars_list] at h
  | .compound as, .string b => simp [chars, quoteChars, chars_compound] at h
  | .compound as, .list bs => simp [chars_list, chars_compound] at h

theorem itemsChars_append_inj (as bs : List Nbt) {s t : List Char}
    (hd : ToldApart (Nbt.itemsDoubles as) (Nbt.itemsDoubles bs))
    (h : itemsChars as ++ ']' :: s = itemsChars bs ++ ']' :: t) : as = bs ∧ s = t := by
  match as, bs with
  | [], [] => simpa [itemsChars] using h
  | [], b :: bs => simp [itemsChars] at h
  | a :: as, [] => simp [itemsChars] at h
  | a :: as, b :: bs =>
    simp only [itemsChars, List.cons_append, List.cons.injEq, true_and, List.append_assoc] at h
    simp only [Nbt.itemsDoubles] at hd
    obtain ⟨rfl, hitems⟩ := chars_append_inj a b (hd.mono (by simp) (by simp))
      (stops_itemsChars as s) (stops_itemsChars bs t) h
    obtain ⟨rfl, rfl⟩ := itemsChars_append_inj as bs (hd.mono (by simp) (by simp)) hitems
    exact ⟨rfl, rfl⟩

theorem entriesChars_append_inj (as bs : List (String × Nbt)) {s t : List Char}
    (hd : ToldApart (Nbt.entriesDoubles as) (Nbt.entriesDoubles bs))
    (h : entriesChars as ++ '\x7d' :: s = entriesChars bs ++ '\x7d' :: t) : as = bs ∧ s = t := by
  match as, bs with
  | [], [] => simpa [entriesChars] using h
  | [], (l, b) :: bs => simp [entriesChars] at h
  | (k, a) :: as, [] => simp [entriesChars] at h
  | (k, a) :: as, (l, b) :: bs =>
    simp only [entriesChars, List.cons_append, List.cons.injEq, true_and, List.append_assoc] at h
    simp only [Nbt.entriesDoubles] at hd
    obtain ⟨rfl, hvalue⟩ := keyChars_append_inj h
    obtain ⟨rfl, hentries⟩ := chars_append_inj a b (hd.mono (by simp) (by simp))
      (stops_entriesChars as s) (stops_entriesChars bs t) hvalue
    obtain ⟨rfl, rfl⟩ := entriesChars_append_inj as bs (hd.mono (by simp) (by simp)) hentries
    exact ⟨rfl, rfl⟩

end

/-! ### One line -/

theorem newline_not_mem_of_isLeaf (h : IsLeaf n) : '\n' ∉ chars n :=
  fun hmem => absurd ((chars_of_isLeaf h).2 _ hmem) (by decide)

mutual

/-- The text of a tree is on one line. -/
theorem newline_not_mem_chars (n : Nbt) : '\n' ∉ chars n := by
  match n with
  | .bool _ | .int _ | .double _ => exact newline_not_mem_of_isLeaf trivial
  | .string s => exact newline_not_mem_quoteChars s.toList
  | .list [] => simp [chars]
  | .list (a :: as) =>
    simp [chars, newline_not_mem_chars a, newline_not_mem_itemsChars as]
  | .compound [] => simp [chars]
  | .compound ((k, a) :: as) =>
    simp [chars, keyChars_eq_wordChars, newline_not_mem_wordChars, newline_not_mem_chars a,
      newline_not_mem_entriesChars as, show isBareKeyChar '\n' = false by decide]

theorem newline_not_mem_itemsChars (as : List Nbt) : '\n' ∉ itemsChars as := by
  match as with
  | [] => simp [itemsChars]
  | a :: as => simp [itemsChars, newline_not_mem_chars a, newline_not_mem_itemsChars as]

theorem newline_not_mem_entriesChars (as : List (String × Nbt)) : '\n' ∉ entriesChars as := by
  match as with
  | [] => simp [entriesChars]
  | (k, a) :: as =>
    simp [entriesChars, keyChars_eq_wordChars, newline_not_mem_wordChars, newline_not_mem_chars a,
      newline_not_mem_entriesChars as, show isBareKeyChar '\n' = false by decide]

end

/-! ### Finite doubles -/

theorem toldApart_of_format (hxs : ∀ x ∈ xs, x.isFinite = true)
    (hys : ∀ y ∈ ys, y.isFinite = true)
    (h : ∀ x ∈ xs, ∀ y ∈ ys,
      DecimalLayout.storage.format x = DecimalLayout.storage.format y → x = y) :
    ToldApart xs ys := by
  intro x hx y hy heq
  rw [doubleChars, doubleChars, if_pos (hxs x hx), if_pos (hys y hy)] at heq
  exact h x hx y hy (String.toList_inj.1 (List.append_cancel_right heq))

end Snbt

/-- **The text of a tree determines the tree**, with the order of its keys and whatever its keys and
    texts hold, when its doubles are finite and finite doubles have different texts. -/
theorem snbt_determines_tree (m n : Nbt) (hm : ∀ x ∈ m.doubles, x.isFinite = true)
    (hn : ∀ x ∈ n.doubles, x.isFinite = true)
    (hformat : ∀ x ∈ m.doubles, ∀ y ∈ n.doubles,
      DecimalLayout.storage.format x = DecimalLayout.storage.format y → x = y) :
    m.snbt = n.snbt ↔ m = n := by
  refine ⟨fun h => ?_, congrArg Nbt.snbt⟩
  have hchars : Snbt.chars m ++ [] = Snbt.chars n ++ [] := congrArg (· ++ [])
    (String.ofList_inj.1 h)
  exact (Snbt.chars_append_inj m n (Snbt.toldApart_of_format hm hn hformat) (stops_nil _)
    (stops_nil _) hchars).1

/-- An empty key, a text that looks like a flag and escaped characters, in two orders. -/
theorem snbt_determines_tree_order :
    (Nbt.compound [("", .double 1.5), ("\n\"", .list [.string "1b", .bool true])]).snbt ≠
      (Nbt.compound [("\n\"", .list [.string "1b", .bool true]), ("", .double 1.5)]).snbt := by
  have hfinite : ∀ x ∈ [(1.5 : Float)], x.isFinite = true := by decide +kernel
  refine mt (snbt_determines_tree _ _ ?_ ?_ ?_).1 (by simp)
  · exact hfinite
  · exact hfinite
  · simp [Nbt.doubles, Nbt.itemsDoubles, Nbt.entriesDoubles]

end PackScript
