import PackScript.Command
import PackScript.Proofs.Command.Literal

namespace PackScript.Command

/-!
# The parts of a command

A place, a test, the conditions before a command and what it takes are told from the text, as trees
are in `PackScript.Proofs.Command.Literal`.

* `pathChars_append_inj`, `place_append_inj` — a path ends before a blank or a brace.
* `test_append_inj` — a test ends with its brace.
* `leadChars_append_inj` — the tests and the place for the result, before `run`.
* `source_inj`, `unitName_inj`, `withChannel_inj` — what stands at the end of a command.
-/

open Snbt

/-! ### Places -/

/-- The text of a key on a path. -/
def segmentChars (k : String) : List Char :=
  wordChars isBareSegmentChar k.toList

theorem toList_segment (k : String) : (segment k).toList = segmentChars k := by
  unfold segment segmentChars wordChars
  have hempty : k.isEmpty = k.toList.isEmpty := by
    rw [Bool.eq_iff_iff]
    simp
  rw [hempty]
  split
  · rfl
  · simp [quote]

/-- The keys below an address, each after a point. -/
def pathChars (ks : List String) : List Char :=
  ks.flatMap fun k => '.' :: segmentChars k

/-- A character of a path outside of quotes. -/
def isPathChar (c : Char) : Bool :=
  isBareSegmentChar c || c == '.'

theorem toList_place (ns : String) (p : Place) :
    (place ns p).toList = ("storage " ++ ns ++ ":").toList ++
      (p.address.storage.name.toList ++ ' ' :: (p.address.key.toList ++ pathChars p.path)) := by
  simp [place, storage, functionId, path, pathChars, toList_segment, List.flatMap_map]

theorem segmentChars_append_inj {k l : String} {s t : List Char} (hs : Stops isBareSegmentChar s)
    (ht : Stops isBareSegmentChar t) (h : segmentChars k ++ s = segmentChars l ++ t) :
    k = l ∧ s = t := by
  obtain ⟨hkey, rfl⟩ := wordChars_append_inj (by decide) hs ht h
  exact ⟨String.toList_inj.1 hkey, rfl⟩

theorem stops_pathChars {ks : List String} {s : List Char} (hs : Stops isPathChar s) :
    Stops isBareSegmentChar (pathChars ks ++ s) := by
  cases ks with
  | nil => exact hs.mono fun c hc => by simp [isPathChar, hc]
  | cons k ks => simp [pathChars]; decide

theorem pathChars_append_inj {ks ls : List String} {s t : List Char} (hs : Stops isPathChar s)
    (ht : Stops isPathChar t) (h : pathChars ks ++ s = pathChars ls ++ t) : ks = ls ∧ s = t := by
  -- what follows a path does not go on with it
  have hpoint : ∀ {u v : List Char}, Stops isPathChar u → u ≠ '.' :: v := by
    rintro u v hu rfl
    exact absurd (stops_cons.1 hu) (by decide)
  induction ks generalizing ls with
  | nil =>
    cases ls with
    | nil => exact ⟨rfl, h⟩
    | cons l ls => exact absurd h (hpoint hs)
  | cons k ks ih =>
    cases ls with
    | nil => exact absurd h.symm (hpoint ht)
    | cons l ls =>
      simp only [pathChars, List.flatMap_cons, List.cons_append, List.append_assoc,
        List.cons.injEq, true_and] at h
      obtain ⟨rfl, hrest⟩ := segmentChars_append_inj (stops_pathChars hs) (stops_pathChars ht) h
      obtain ⟨rfl, rfl⟩ := ih hrest
      exact ⟨rfl, rfl⟩

/-- The digits of an index end where something else follows. -/
theorem index_append_inj {m n : Nat} {s t : List Char} (hs : Stops isDecimalDigit s)
    (ht : Stops isDecimalDigit t)
    (h : (toString m).toList ++ s = (toString n).toList ++ t) : m = n ∧ s = t := by
  have hdigits : ∀ k : Nat, ∀ c ∈ (toString k).toList, isDecimalDigit c = true := by
    intro k c hc
    rw [Nat.toString_eq_repr, Nat.toList_repr] at hc
    exact isDecimalDigit_of_mem_digitsOf hc
  obtain ⟨hindex, rfl⟩ := append_inj_of_stops (hdigits m) (hdigits n) hs ht h
  exact ⟨natRepr_inj hindex, rfl⟩

theorem storageName_append_inj {a b : Storage} {s t : List Char}
    (h : a.name.toList ++ ' ' :: s = b.name.toList ++ ' ' :: t) : a = b ∧ s = t := by
  cases a <;> cases b <;> simp_all [Storage.name]

/-- The first letter of the keys of a storage. -/
def storageLetter : Storage → Char
  | .slots => 's'
  | .heap => 'h'
  | .channels => 'c'

theorem toList_key (a : Address) :
    a.key.toList = storageLetter a.storage :: (toString a.index).toList := by
  cases a <;> simp [Address.key, Slot.key, Record.key, Channel.key, storageLetter,
    Address.storage, Address.index]

theorem address_ext {a b : Address} (hstorage : a.storage = b.storage)
    (hindex : a.index = b.index) : a = b := by
  rcases a with ⟨⟨i⟩⟩ | ⟨⟨i⟩⟩ | ⟨⟨i⟩⟩ <;> rcases b with ⟨⟨j⟩⟩ | ⟨⟨j⟩⟩ | ⟨⟨j⟩⟩ <;>
    simp_all [Address.storage, Address.index]

theorem key_append_inj {a b : Address} {s t : List Char} (hs : Stops isDecimalDigit s)
    (ht : Stops isDecimalDigit t) (h : a.key.toList ++ s = b.key.toList ++ t) :
    a = b ∧ s = t := by
  rw [toList_key, toList_key] at h
  obtain ⟨hletter, hrest⟩ := List.cons.inj h
  obtain ⟨hindex, rfl⟩ := index_append_inj hs ht hrest
  have hstorage : a.storage = b.storage := by
    generalize a.storage = x at hletter ⊢
    generalize b.storage = y at hletter ⊢
    cases x <;> cases y <;> first | rfl | (exact absurd hletter (by decide))
  exact ⟨address_ext hstorage hindex, rfl⟩

theorem stops_digit_of_path {ks : List String} {s : List Char} (hs : Stops isPathChar s) :
    Stops isDecimalDigit (pathChars ks ++ s) := by
  refine (stops_pathChars hs).mono fun c hc => ?_
  rw [isDecimalDigit_eq_isDigit] at hc
  simp [isBareSegmentChar, Char.isAlphanum, hc]

variable {ns : String}

theorem place_append_inj {p q : Place} {s t : List Char} (hs : Stops isPathChar s)
    (ht : Stops isPathChar t) (h : (place ns p).toList ++ s = (place ns q).toList ++ t) :
    p = q ∧ s = t := by
  simp only [toList_place, List.append_assoc, List.append_cancel_left_eq, List.cons_append] at h
  obtain ⟨-, hkey⟩ := storageName_append_inj h
  obtain ⟨haddress, hrest⟩ := key_append_inj (stops_digit_of_path hs) (stops_digit_of_path ht) hkey
  obtain ⟨hpath, rfl⟩ := pathChars_append_inj hs ht hrest
  cases p
  cases q
  simp_all

/-! ### Tests -/

/-- Keys from the root of a storage, with points between them. -/
def joinChars : List String → List Char
  | [] => []
  | k :: ks => segmentChars k ++ pathChars ks

theorem toList_intercalate_segment (ks : List String) :
    (".".intercalate (ks.map segment)).toList = joinChars ks := by
  rw [String.toList_intercalate]
  cases ks with
  | nil => rfl
  | cons k ks =>
    rw [joinChars]
    induction ks generalizing k with
    | nil => simp [List.intercalate, toList_segment, pathChars]
    | cons l ks ih =>
      simp only [List.map_cons] at ih ⊢
      rw [List.intercalate_cons_cons, ih l]
      simp [toList_segment, pathChars]

theorem joinChars_append_inj {ks ls : List String} {s t : List Char}
    (h : joinChars ks ++ '\x7b' :: s = joinChars ls ++ '\x7b' :: t) : ks = ls ∧ s = t := by
  have hbrace : ∀ {u : List Char}, Stops isPathChar ('\x7b' :: u) :=
    stops_cons.2 (by decide)
  -- no key starts with a brace
  have hkey : ∀ {k : String} {u v : List Char}, segmentChars k ++ u ≠ '\x7b' :: v := by
    intro k u v h
    obtain ⟨c, rest, hword, hc⟩ := wordChars_eq_cons isBareSegmentChar k.toList
    rw [segmentChars, hword] at h
    obtain ⟨rfl, -⟩ := List.cons.inj h
    exact absurd hc (by decide)
  cases ks with
  | nil =>
    cases ls with
    | nil => exact ⟨rfl, (List.cons.inj h).2⟩
    | cons l ls =>
      simp only [joinChars, List.append_assoc, List.nil_append] at h
      exact absurd h.symm hkey
  | cons k ks =>
    cases ls with
    | nil =>
      simp only [joinChars, List.append_assoc, List.nil_append] at h
      exact absurd h hkey
    | cons l ls =>
      rw [joinChars, joinChars, List.append_assoc, List.append_assoc] at h
      obtain ⟨rfl, hpath⟩ := segmentChars_append_inj (stops_pathChars hbrace)
        (stops_pathChars hbrace) h
      obtain ⟨rfl, hrest⟩ := pathChars_append_inj hbrace hbrace hpath
      exact ⟨rfl, (List.cons.inj hrest).2⟩

theorem fullPath_inj {p q : Place} (h : p.fullPath = q.fullPath) : p = q := by
  obtain ⟨hkey, hpath⟩ := List.cons.inj h
  have haddress : p.address = q.address :=
    (key_append_inj (s := []) (t := []) (stops_nil _) (stops_nil _) (by rw [hkey])).1
  cases p
  cases q
  simp_all

theorem exists_fullPath_eq (p : Place) : ∃ init last, p.fullPath = init ++ [last] :=
  ⟨_, _, (List.dropLast_concat_getLast (List.cons_ne_nil p.address.key p.path)).symm⟩

theorem toList_test (ns : String) {t : Test} {init : List String} {last : String}
    (h : t.place.fullPath = init ++ [last]) :
    (test ns t).toList = (if t.negated then "unless" else "if").toList ++
      ((" data storage " ++ ns ++ ":").toList ++ (t.place.address.storage.name.toList ++
        ' ' :: (joinChars init ++ '\x7b' :: (segmentChars last ++ ':' ::
          (chars t.value ++ ['\x7d']))))) := by
  simp only [test, h, List.map_append, List.map_cons, List.map_nil, List.dropLast_concat,
    List.getLastD_concat, String.toList_append, toList_intercalate_segment, toList_segment]
  simp [storage, functionId, Nbt.snbt]

theorem test_append_inj {a b : Test} {s t : List Char}
    (hd : ToldApart a.value.doubles b.value.doubles)
    (h : (test ns a).toList ++ s = (test ns b).toList ++ t) : a = b ∧ s = t := by
  obtain ⟨init, last, ha⟩ := exists_fullPath_eq a.place
  obtain ⟨init', last', hb⟩ := exists_fullPath_eq b.place
  rw [toList_test ns ha, toList_test ns hb] at h
  have hnegated : a.negated = b.negated := by
    cases hna : a.negated <;> cases hnb : b.negated <;> simp_all
  simp only [hnegated, List.append_assoc, List.append_cancel_left_eq, List.cons_append,
    List.nil_append] at h
  obtain ⟨-, hkeys⟩ := storageName_append_inj h
  obtain ⟨rfl, hlast⟩ := joinChars_append_inj hkeys
  obtain ⟨rfl, hvalue⟩ := segmentChars_append_inj (stops_cons.2 (by decide))
    (stops_cons.2 (by decide)) hlast
  obtain ⟨hvalue, hrest⟩ := chars_append_inj _ _ hd (stops_cons.2 (by decide))
    (stops_cons.2 (by decide)) (List.cons.inj hvalue).2
  have hplace := fullPath_inj (ha.trans hb.symm)
  refine ⟨?_, (List.cons.inj hrest).2⟩
  cases a
  cases b
  simp_all

/-! ### Conditions -/

/-- The tests of a guard, each with a blank behind it. -/
def guardChars (ns : String) (g : Guard) : List Char :=
  g.flatMap fun t => (test ns t).toList ++ [' ']

/-- The clause that stores a result, with a blank behind it. -/
def storeChars (ns : String) (store : Option Place) : List Char :=
  (storing ns store).flatMap fun c => c.toList ++ [' ']

/-- What stands before a command that has conditions or stores its result. -/
def leadChars (ns : String) (g : Guard) (store : Option Place) : List Char :=
  if g = [] ∧ store = none then []
  else "execute ".toList ++ (guardChars ns g ++ (storeChars ns store ++ "run ".toList))

theorem intercalate_blank_append {clauses : List String} (h : clauses ≠ []) :
    (" ".intercalate clauses).toList ++ [' '] = clauses.flatMap fun c => c.toList ++ [' '] := by
  rw [String.toList_intercalate]
  cases clauses with
  | nil => exact absurd rfl h
  | cons c cs =>
    clear h
    induction cs generalizing c with
    | nil => simp [List.intercalate]
    | cons d cs ih =>
      simp only [List.map_cons, List.flatMap_cons] at ih ⊢
      rw [List.intercalate_cons_cons, List.append_assoc, List.append_assoc, ih d]
      simp

theorem toList_executing (ns : String) (g : Guard) (store : Option Place) (command : String) :
    (executing (g.map (test ns) ++ storing ns store) command).toList =
      leadChars ns g store ++ command.toList := by
  have hclauses : (g.map (test ns) ++ storing ns store).flatMap (fun c => c.toList ++ [' ']) =
      guardChars ns g ++ storeChars ns store := by
    rw [List.flatMap_append, List.flatMap_map]
    rfl
  have hempty : g.map (test ns) ++ storing ns store = [] ↔ g = [] ∧ store = none := by
    cases store <;> simp [storing]
  unfold executing leadChars
  by_cases h : g = [] ∧ store = none
  · rw [hempty.2 h, if_pos h]
    rfl
  · have hne := mt hempty.1 h
    rw [if_neg (by simpa using hne), if_neg h, ← List.append_assoc (guardChars ns g), ← hclauses,
      ← intercalate_blank_append hne]
    simp

/-- A test starts with the letter of its keyword. -/
theorem test_eq_cons (ns : String) (t : Test) :
    ∃ c cs, (test ns t).toList = c :: cs ∧ (c = 'i' ∨ c = 'u') := by
  obtain ⟨init, last, h⟩ := exists_fullPath_eq t.place
  rw [toList_test ns h]
  cases t.negated <;> simp

/-- The doubles that a guard compares with. -/
def guardDoubles (g : Guard) : List Float :=
  g.trees.flatMap Nbt.doubles

theorem guardChars_append_inj {g g' : Guard} {s t : List Char}
    (hd : ToldApart (guardDoubles g) (guardDoubles g'))
    (hs : ∀ c ∈ s.head?, c = 's' ∨ c = 'r') (ht : ∀ c ∈ t.head?, c = 's' ∨ c = 'r')
    (h : guardChars ns g ++ s = guardChars ns g' ++ t) : g = g' ∧ s = t := by
  -- what follows a guard does not start with the keyword of a test
  have hend : ∀ {a : Test} {u v : List Char}, (∀ c ∈ u.head?, c = 's' ∨ c = 'r') →
      u ≠ (test ns a).toList ++ v := by
    rintro a u v hu rfl
    obtain ⟨c, cs, htest, hc⟩ := test_eq_cons ns a
    have := hu c (by simp [htest])
    rcases hc with rfl | rfl <;> exact absurd this (by decide)
  induction g generalizing g' with
  | nil =>
    cases g' with
    | nil => exact ⟨rfl, h⟩
    | cons b g' =>
      simp only [guardChars, List.flatMap_nil, List.nil_append, List.flatMap_cons,
        List.append_assoc] at h
      exact absurd h (hend hs)
  | cons a g ih =>
    cases g' with
    | nil =>
      simp only [guardChars, List.flatMap_nil, List.nil_append, List.flatMap_cons,
        List.append_assoc] at h
      exact absurd h.symm (hend ht)
    | cons b g' =>
      simp only [guardChars, List.flatMap_cons, List.append_assoc, List.cons_append,
        List.nil_append] at h
      simp only [guardDoubles, Guard.trees, List.map_cons, List.flatMap_cons] at hd
      obtain ⟨rfl, hrest⟩ := test_append_inj (hd.mono (by simp) (by simp)) h
      obtain ⟨rfl, rfl⟩ := ih (hd.mono (List.subset_append_right _ _)
        (List.subset_append_right _ _)) (List.cons.inj hrest).2
      exact ⟨rfl, rfl⟩

theorem storeChars_append_inj {store store' : Option Place} {s t : List Char}
    (h : storeChars ns store ++ ("run ".toList ++ s) =
      storeChars ns store' ++ ("run ".toList ++ t)) : store = store' ∧ s = t := by
  cases store with
  | none =>
    cases store' with
    | none => simpa [storeChars, storing] using h
    | some q => simp [storeChars, storing] at h
  | some p =>
    cases store' with
    | none => simp [storeChars, storing] at h
    | some q =>
      simp only [storeChars, storing, List.flatMap_cons, List.flatMap_nil, List.append_nil,
        String.toList_append, List.append_assoc, List.append_cancel_left_eq] at h
      have hstop : ∀ u, Stops isPathChar (" int 1".toList ++ u) := fun u => by
        simp
        decide
      obtain ⟨rfl, hrest⟩ := place_append_inj (hstop _) (hstop _) h
      simp only [List.append_cancel_left_eq] at hrest
      exact ⟨rfl, hrest⟩

theorem leadChars_append_inj {g g' : Guard} {store store' : Option Place} {s t : List Char}
    (hd : ToldApart (guardDoubles g) (guardDoubles g')) (hs : s.head? ≠ some 'e')
    (ht : t.head? ≠ some 'e') (h : leadChars ns g store ++ s = leadChars ns g' store' ++ t) :
    (g = g' ∧ store = store') ∧ s = t := by
  have hclauses : ∀ (store : Option Place) (u : List Char),
      ∀ c ∈ (storeChars ns store ++ ("run ".toList ++ u)).head?, c = 's' ∨ c = 'r' := by
    intro store u
    cases store <;> simp [storeChars, storing]
  unfold leadChars at h
  split at h
  · next hnone =>
    split at h
    · next hnone' => exact ⟨by simp [hnone, hnone'], h⟩
    · rw [List.nil_append] at h
      exact absurd (by simp [h]) hs
  · split at h
    · rw [List.nil_append] at h
      exact absurd (by simp [← h]) ht
    · simp only [List.append_assoc, List.append_cancel_left_eq] at h
      obtain ⟨rfl, hrest⟩ := guardChars_append_inj hd (hclauses _ _) (hclauses _ _) h
      obtain ⟨rfl, rfl⟩ := storeChars_append_inj hrest
      exact ⟨⟨rfl, rfl⟩, rfl⟩

/-! ### Actions -/

theorem source_literal (v : Nbt) : source ns (.literal v) = "value " ++ v.snbt := rfl

theorem source_copy (p : Place) : source ns (.copy p) = "from " ++ place ns p := rfl

theorem source_param (entry : String) : source ns (.param entry) =
    "from storage " ++ storage ns .channels ++ " $(frame)." ++ segment entry := rfl

theorem withChannel_some (c : Channel) : withChannel ns (some c) =
    " with storage " ++ storage ns .channels ++ " " ++ c.key := rfl

theorem withChannel_none : withChannel ns none = "" := rfl

theorem source_inj {a b : Source}
    (hd : ToldApart (a.trees.flatMap Nbt.doubles) (b.trees.flatMap Nbt.doubles))
    (h : (source ns a).toList = (source ns b).toList) : a = b := by
  -- a place in the channels starts with the letter of a channel, a parameter with a macro
  have hparam : ∀ (p : Place) (entry : String),
      (place ns p).toList ≠
        ("storage " ++ storage ns .channels ++ " $(frame)." ++ segment entry).toList := by
    intro p entry h
    have hmacro : " $(frame).".toList = ' ' :: '$' :: "(frame).".toList := by simp
    simp only [toList_place, storage, functionId, String.toList_append, List.append_assoc,
      List.append_cancel_left_eq, hmacro, List.cons_append] at h
    obtain ⟨-, hkey⟩ := storageName_append_inj h
    rw [toList_key, List.cons_append] at hkey
    have hletter := (List.cons.inj hkey).1
    generalize p.address.storage = x at hletter
    cases x <;> exact absurd hletter (by decide)
  cases a with
  | literal v =>
    cases b with
    | literal w =>
      simp only [source_literal, Nbt.snbt, String.toList_append, List.append_cancel_left_eq,
        String.toList_ofList] at h
      simp only [Source.trees, List.flatMap_cons, List.flatMap_nil, List.append_nil] at hd
      obtain ⟨rfl, -⟩ := chars_append_inj v w (s := []) (t := []) hd (stops_nil _) (stops_nil _)
        (by rw [h])
      rfl
    | copy q => simp [source_literal, source_copy] at h
    | param e => simp [source_literal, source_param] at h
  | copy p =>
    cases b with
    | literal w => simp [source_literal, source_copy] at h
    | copy q =>
      simp only [source_copy, String.toList_append, List.append_cancel_left_eq] at h
      have hplace : p = q := (place_append_inj (s := []) (t := []) (stops_nil _) (stops_nil _)
        (by rw [h])).1
      rw [hplace]
    | param e =>
      refine absurd ?_ (hparam p e)
      simpa [source_copy, source_param] using h
  | param e =>
    cases b with
    | literal w => simp [source_literal, source_param] at h
    | copy q =>
      refine absurd ?_ (hparam q e)
      simpa [source_copy, source_param] using h.symm
    | param e' =>
      simp only [source_param, String.toList_append, List.append_assoc, List.append_cancel_left_eq,
        toList_segment] at h
      have hentry : e = e' := (segmentChars_append_inj (s := []) (t := []) (stops_nil _)
        (stops_nil _) (by rw [h])).1
      rw [hentry]

/-- The callee is told by the name of its unit: the name of a unit has no blank, is on one line,
    and is not that of a library routine. -/
def TellsCallee : Callee → Prop
  | .unit name => ' ' ∉ name.toList ∧ '\n' ∉ name.toList ∧ ¬ "lib/".toList <+: name.toList
  | .library _ => True

theorem all_isLower_name (r : Routine) : r.name.toList.all Char.isLower = true := by
  cases r <;> decide +kernel

/-- The unit of a callee is one word. -/
theorem mem_unitName {c : Callee} (h : TellsCallee c) :
    ∀ a ∈ c.unitName.toList, a ≠ ' ' ∧ a ≠ '\n' := by
  intro a ha
  cases c with
  | unit name => exact ⟨ne_of_mem_of_not_mem ha h.1, ne_of_mem_of_not_mem ha h.2.1⟩
  | library r =>
    rw [Callee.unitName, Routine.unitName, String.toList_append, List.mem_append] at ha
    rcases ha with ha | ha
    · have hlib : a = 'l' ∨ a = 'i' ∨ a = 'b' ∨ a = '/' := by simpa using ha
      rcases hlib with rfl | rfl | rfl | rfl <;> decide
    · have hlower := List.all_eq_true.1 (all_isLower_name r) a ha
      constructor <;> rintro rfl <;> exact absurd hlower (by decide)

theorem routineName_inj {r r' : Routine} (h : r.name = r'.name) : r = r' := by
  have hname : ∀ r, Routine.ofName? r.name = some r := by
    intro r
    cases r <;> decide
  exact Option.some.inj ((hname r).symm.trans (h ▸ hname r'))

theorem unitName_inj {c d : Callee} (hc : TellsCallee c) (hd : TellsCallee d)
    (h : c.unitName = d.unitName) : c = d := by
  cases c with
  | unit name =>
    cases d with
    | unit name' => exact congrArg Callee.unit h
    | library r =>
      refine absurd ?_ hc.2.2
      rw [show name = "lib/" ++ r.name from h, String.toList_append]
      exact List.prefix_append _ _
  | library r =>
    cases d with
    | unit name =>
      refine absurd ?_ hd.2.2
      rw [show name = "lib/" ++ r.name from h.symm, String.toList_append]
      exact List.prefix_append _ _
    | library r' =>
      have hname : r.name = r'.name := by
        simpa [Callee.unitName, Routine.unitName] using h
      rw [routineName_inj hname]

theorem withChannel_inj {c d : Option Channel}
    (h : (withChannel ns c).toList = (withChannel ns d).toList) : c = d := by
  cases c with
  | none =>
    cases d with
    | none => rfl
    | some d => simp [withChannel_none, withChannel_some] at h
  | some c =>
    cases d with
    | none => simp [withChannel_none, withChannel_some] at h
    | some d =>
      simp only [withChannel_some, String.toList_append, List.append_assoc,
        List.append_cancel_left_eq] at h
      obtain ⟨hkey, -⟩ := key_append_inj (a := .channel c) (b := .channel d) (s := []) (t := [])
        (stops_nil _) (stops_nil _) (by simpa [Address.key] using h)
      rw [Address.channel.inj hkey]

end PackScript.Command
