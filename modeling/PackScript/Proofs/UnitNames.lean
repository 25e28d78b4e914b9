import PackScript.Proofs.NeverStuck

namespace PackScript

/-!
# Units of different functions

A character of a name that is neither a letter from `a` to `z`, a digit, an underscore nor a dollar
sign is spelled by its code in hexadecimal digits, and nothing marks the end of the code. Where the
next character of the name is such a digit itself, the code goes on into it.

* `CodesEnd` — no code goes on into the next character.
* `unitNameOf_injective` — such names have units of their own.
* `functions_have_own_units` — so no two functions with such names share a unit.
* `functions_share_a_unit` — other functions may share one.
-/

variable {c d : Char} {cs rest rest' text : List Char} {n n' : Nat}

/-! ### Spelling -/

/-- The character is spelled as itself. -/
def isSpelledPlain (c : Char) : Bool :=
  c.isLower || c.isDigit || c = '_'

/-- The character is spelled by its code. -/
def isSpelledByCode (c : Char) : Bool :=
  !(isSpelledPlain c || c.isUpper || c = '$')

/-- A digit of the code of a character. -/
def isCodeDigit (c : Char) : Bool :=
  c.isDigit || ('a' ≤ c && c ≤ 'f')

/-- No code of a character goes on into the next character of the name. -/
def CodesEnd (name : String) : Prop :=
  name.toList.IsChain fun c d => isSpelledByCode c = true → isCodeDigit d = false

instance (name : String) : Decidable (CodesEnd name) :=
  inferInstanceAs (Decidable (List.IsChain _ _))

/-- The ways to spell a character. -/
inductive Spelling (c : Char) : List Char → Prop
  | plain (h : isSpelledPlain c = true) : Spelling c [c]
  | capital (h : c.isUpper = true) : Spelling c ['-', c.toLower]
  | dollar (h : c = '$') : Spelling c ['.']
  | code (h : isSpelledByCode c = true) : Spelling c ('-' :: '.' :: Nat.toDigits 16 c.toNat)

theorem spelling_unitNameChar (c : Char) : Spelling c (unitNameChar c).toList := by
  unfold unitNameChar
  split
  · next h =>
    rw [Char.toString, String.toList_singleton]
    exact .plain h
  · next hplain =>
    split
    · next h =>
      rw [String.toList_append, Char.toString, String.toList_singleton]
      exact .capital h
    · next hupper =>
      split
      · next h => exact .dollar h
      · next hdollar =>
        have hcode : isSpelledByCode c = true := by
          simp_all [isSpelledByCode, isSpelledPlain]
        have htext : ("-." ++ hexDigits c.toNat).toList =
            '-' :: '.' :: Nat.toDigits 16 c.toNat := by
          simp [hexDigits]
        exact htext ▸ .code hcode

/-- The characters that a unit is named with. -/
def spell (cs : List Char) : List Char :=
  cs.flatMap fun c => (unitNameChar c).toList

theorem toList_unitNameOf (name : String) : (unitNameOf name).toList = spell name.toList := by
  rw [unitNameOf, String.toList_join, List.flatMap_map]
  rfl

theorem spell_cons (c : Char) (cs : List Char) :
    spell (c :: cs) = (unitNameChar c).toList ++ spell cs :=
  List.flatMap_cons

/-! ### Codes -/

theorem isCodeDigit_digitChar : ∀ d < 16, isCodeDigit (Nat.digitChar d) = true := by
  decide

theorem isCodeDigit_of_mem_toDigits (h : c ∈ Nat.toDigits 16 n) : isCodeDigit c = true := by
  induction n using Nat.strongRecOn with
  | ind n ih =>
    rw [Nat.toDigits_eq_if (by decide)] at h
    split at h
    · next hn =>
      rw [List.mem_singleton.1 h]
      exact isCodeDigit_digitChar n hn
    · rcases List.mem_append.1 h with h | h
      · exact ih (n / 16) (by omega) h
      · rw [List.mem_singleton.1 h]
        exact isCodeDigit_digitChar _ (Nat.mod_lt _ (by decide))

theorem digitChar_injective : ∀ d < 16, ∀ d' < 16, Nat.digitChar d = Nat.digitChar d' → d = d' := by
  decide

theorem toDigits_injective (h : Nat.toDigits 16 n = Nat.toDigits 16 n') : n = n' := by
  induction n using Nat.strongRecOn generalizing n' with
  | ind n ih =>
    have hnil : ∀ k, Nat.toDigits 16 k ≠ [] := fun _ => Nat.toDigits_ne_nil
    have hlt : ∀ k, k % 16 < 16 := fun k => Nat.mod_lt k (by decide)
    rw [Nat.toDigits_eq_if (by decide), Nat.toDigits_eq_if (n := n') (by decide)] at h
    split at h <;> split at h
    · next hn hn' => exact digitChar_injective n hn n' hn' (List.singleton_inj.1 h)
    · exact absurd h.symm (by simp [List.append_eq_singleton_iff, hnil])
    · exact absurd h (by simp [List.append_eq_singleton_iff, hnil])
    · obtain ⟨hrest, hlast⟩ := List.append_inj' h rfl
      have hdiv := ih (n / 16) (by omega) hrest
      have hmod := digitChar_injective _ (hlt n) _ (hlt n') (List.singleton_inj.1 hlast)
      omega

/-- What a name goes on with starts with a digit of a code only if its first character is one. -/
theorem takeWhile_spell (h : ∀ d ∈ cs.head?, isCodeDigit d = false) :
    (spell cs).takeWhile isCodeDigit = [] := by
  cases cs with
  | nil => rfl
  | cons d rest =>
    have hd := h d rfl
    have hspelling := spelling_unitNameChar d
    rw [spell_cons]
    generalize (unitNameChar d).toList = text at hspelling
    cases hspelling with
    | plain _ => simp [hd]
    | capital _ => simp [isCodeDigit]
    | dollar _ => simp [isCodeDigit]
    | code _ => simp [isCodeDigit]

/-- Codes that end are read as they were written. -/
theorem code_append_inj (hrest : rest.takeWhile isCodeDigit = [])
    (hrest' : rest'.takeWhile isCodeDigit = [])
    (h : Nat.toDigits 16 n ++ rest = Nat.toDigits 16 n' ++ rest') : n = n' ∧ rest = rest' := by
  have hread : ∀ k r, List.takeWhile isCodeDigit r = [] →
      (Nat.toDigits 16 k ++ r).takeWhile isCodeDigit = Nat.toDigits 16 k := by
    intro k r hr
    rw [List.takeWhile_append_of_pos fun _ => isCodeDigit_of_mem_toDigits, hr, List.append_nil]
  have hdigits : Nat.toDigits 16 n = Nat.toDigits 16 n' := by
    rw [← hread n rest hrest, h, hread n' rest' hrest']
  exact ⟨toDigits_injective hdigits, List.append_cancel_left (hdigits ▸ h)⟩

/-! ### Names -/

/-- A small letter comes some places after its capital letter. -/
theorem toNat_toLower (h : c.isUpper = true) : 65 ≤ c.toNat ∧ c.toLower.toNat = c.toNat + 32 := by
  have hrange : c.val ≥ 'A'.val ∧ c.val ≤ 'Z'.val := by
    simpa [Char.isUpper] using h
  have hadd : (c.val + ('a'.val - 'A'.val)).toNat = (c.val.toNat + 32) % 2 ^ 32 :=
    UInt32.toNat_add _ _
  have hval : c.toNat = c.val.toNat := rfl
  rw [Char.toLower, dif_pos hrange]
  simp only [UInt32.le_iff_toNat_le, ge_iff_le, show 'A'.val.toNat = 65 from rfl,
    show 'Z'.val.toNat = 90 from rfl] at hrange
  refine ⟨by omega, ?_⟩
  show (c.val + ('a'.val - 'A'.val)).toNat = c.toNat + 32
  omega

theorem toLower_injective (hc : c.isUpper = true) (hd : d.isUpper = true)
    (h : c.toLower = d.toLower) : c = d := by
  have hnat := congrArg Char.toNat h
  rw [(toNat_toLower hc).2, (toNat_toLower hd).2] at hnat
  exact Char.toNat_inj.1 (by omega)

theorem toLower_ne_point (hc : c.isUpper = true) : c.toLower ≠ '.' := by
  intro h
  have hnat := congrArg Char.toNat h
  have hpoint : '.'.toNat = 46 := rfl
  have hlower := toNat_toLower hc
  omega

/-- The spelling of a character is not empty. -/
theorem Spelling.ne_nil (h : Spelling c text) : text ≠ [] := by
  cases h <;> simp

/-- Names whose codes end are read character by character. -/
theorem Spelling.append_inj {text' : List Char} (hc : Spelling c text) (hd : Spelling d text')
    (hrest : isSpelledByCode c = true → rest.takeWhile isCodeDigit = [])
    (hrest' : isSpelledByCode d = true → rest'.takeWhile isCodeDigit = [])
    (h : text ++ rest = text' ++ rest') : c = d ∧ rest = rest' := by
  have hplain : ∀ x, isSpelledPlain x = true → '-' ≠ x ∧ '.' ≠ x := by
    rintro x hx
    constructor <;> rintro rfl <;> exact absurd hx (by decide)
  cases hc with
  | plain hc => cases hd <;> simp_all [(hplain c hc).1.symm, (hplain c hc).2.symm]
  | capital hc =>
    cases hd with
    | capital hd =>
      simp only [List.cons_append, List.nil_append, List.cons.injEq, true_and] at h
      exact ⟨toLower_injective hc hd h.1, h.2⟩
    | code hd => exact absurd (List.cons.inj (List.cons.inj h).2).1 (toLower_ne_point hc)
    | plain hd => exact absurd (List.cons.inj h).1 (hplain d hd).1
    | dollar hd => simp at h
  | dollar hc =>
    cases hd with
    | dollar hd => exact ⟨hc.trans hd.symm, (List.cons.inj h).2⟩
    | plain hd => exact absurd (List.cons.inj h).1 (hplain d hd).2
    | capital hd => simp at h
    | code hd => simp at h
  | code hc =>
    cases hd with
    | code hd =>
      simp only [List.cons_append, List.cons.injEq, true_and] at h
      obtain ⟨hcode, hrests⟩ := code_append_inj (hrest hc) (hrest' hd) h
      exact ⟨Char.toNat_inj.1 hcode, hrests⟩
    | capital hd => exact absurd (List.cons.inj (List.cons.inj h).2).1.symm (toLower_ne_point hd)
    | plain hd => exact absurd (List.cons.inj h).1 (hplain d hd).1
    | dollar hd => simp at h

theorem spell_injective {ds : List Char}
    (hcs : cs.IsChain fun c d => isSpelledByCode c = true → isCodeDigit d = false)
    (hds : ds.IsChain fun c d => isSpelledByCode c = true → isCodeDigit d = false)
    (h : spell cs = spell ds) : cs = ds := by
  induction cs generalizing ds with
  | nil =>
    cases ds with
    | nil => rfl
    | cons d ds =>
      rw [spell_cons] at h
      exact absurd (List.append_eq_nil_iff.1 h.symm).1 (spelling_unitNameChar d).ne_nil
  | cons c cs ih =>
    cases ds with
    | nil =>
      rw [spell_cons] at h
      exact absurd (List.append_eq_nil_iff.1 h).1 (spelling_unitNameChar c).ne_nil
    | cons d ds =>
      rw [List.isChain_cons] at hcs hds
      rw [spell_cons, spell_cons] at h
      obtain ⟨rfl, hrests⟩ := (spelling_unitNameChar c).append_inj (spelling_unitNameChar d)
        (fun hcode => takeWhile_spell fun x hx => hcs.1 x hx hcode)
        (fun hcode => takeWhile_spell fun x hx => hds.1 x hx hcode) h
      rw [ih hcs.2 hds.2 hrests]

/-- Names whose codes end have units of their own. -/
theorem unitNameOf_injective {a b : String} (ha : CodesEnd a) (hb : CodesEnd b)
    (h : unitNameOf a = unitNameOf b) : a = b := by
  have hspell : spell a.toList = spell b.toList := by
    rw [← toList_unitNameOf, ← toList_unitNameOf, h]
  exact String.toList_inj.1 (spell_injective ha hb hspell)

/-- Functions whose names differ have units that differ, if the codes in the names end. -/
theorem functions_have_own_units (ns : String) (texts : List String) {f g : String × Signature}
    (hf : f ∈ (compileSources ns texts).program.functions)
    (hg : g ∈ (compileSources ns texts).program.functions)
    (hends : CodesEnd f.1 ∧ CodesEnd g.1) :
    f.2.unit = unitNameOf f.1 ∧ (f.2.unit = g.2.unit ↔ f.1 = g.1) := by
  obtain ⟨G, -, hs, -⟩ := compileSources_orderly ns texts
  have hunit : ∀ e ∈ (compileSources ns texts).program.functions, e.2.unit = unitNameOf e.1 :=
    fun e he => ((hs.orderly ((Compiler.after ns texts).terms True)).functions e he).2.2
  rw [hunit f hf, hunit g hg]
  exact ⟨rfl, unitNameOf_injective hends.1 hends.2, congrArg unitNameOf⟩

/-- Functions with capital letters, codes and digits in their names. -/
def similarText : String :=
  "function é() \x7b\x7d\nfunction $e9() \x7b\x7d\nfunction éE9$() \x7b\x7d\n"

theorem functions_have_own_units_similar :
    (compileSources "pack" [similarText]).diagnostics = [] ∧
    ∃ f ∈ (compileSources "pack" [similarText]).program.functions,
    ∃ g ∈ (compileSources "pack" [similarText]).program.functions,
      CodesEnd f.1 ∧ CodesEnd g.1 ∧ f.1 = "é" ∧ g.1 = "éE9$" ∧ f.2.unit ≠ g.2.unit := by
  have hnames : (compileSources "pack" [similarText]).diagnostics = [] ∧
      ((compileSources "pack" [similarText]).program.functions.has "é" &&
        (compileSources "pack" [similarText]).program.functions.has "éE9$") = true := by
    decide +kernel
  obtain ⟨hclean, hboth⟩ := hnames
  obtain ⟨hf, hg⟩ := Bool.and_eq_true_iff.1 hboth
  obtain ⟨f, hf⟩ := Option.isSome_iff_exists.1 hf
  obtain ⟨g, hg⟩ := Option.isSome_iff_exists.1 hg
  have hends : CodesEnd "é" ∧ CodesEnd "éE9$" := by decide
  have hunits := functions_have_own_units "pack" _ (Table.mem_of_find? hf)
    (Table.mem_of_find? hg) hends
  exact ⟨hclean, _, Table.mem_of_find? hf, _, Table.mem_of_find? hg, hends.1, hends.2, rfl, rfl,
    fun h => absurd (hunits.2.1 h) (show "é" ≠ "éE9$" by decide)⟩

/-- Two functions, where the code of a character goes on into the next one. -/
def oneUnitText : String :=
  "function ບ() \x7b return 1; \x7d\nfunction éa() \x7b return 2; \x7d\n"

/-- A call of the first function executes the second one. -/
theorem functions_share_a_unit :
    (compileSources "pack" [oneUnitText]).diagnostics = [] ∧
    (compileSources "pack" [oneUnitText]).program.functions.map (fun e => (e.1, e.2.unit)) =
      [("ບ", "-.e9a"), ("éa", "-.e9a")] ∧
    let m := [HostStep.entry, .call "ບ" []].foldl Machine.after
      (.start (compileSources "pack" [oneUnitText]).program 512)
    m.display (m.slot hostResult) = "2" := by
  decide +kernel

end PackScript
