import PackScript.Proofs.Command.Part

namespace PackScript

/-!
# Instructions and commands are one-to-one

A unit is written as one line for each instruction, and the lines determine the instructions.

* `Sentence` — an instruction as conditions, a place for the result and an action, in the order of
  the command.
* `Sentence.chars_inj` — the text determines the sentence.
* `Instr.Plain` — the instructions of which the command tells everything.
* `CodeUnit.splitOn_commands` — the lines of a unit.
* `commands_are_one_to_one` — units with the same commands have the same instructions.
-/

/-! ### Sentences -/

/-- What an instruction does, apart from its conditions and the place for its result. -/
inductive Action where
  | write (added : Bool) (target : Place) (source : Source)
  | call (callee : Callee) (channel : Option Channel)
  | leave (code : Int32)

/-- The command of an action. -/
def Action.text (ns : String) : Action → String
  | .write added target source =>
    "data modify " ++ Command.place ns target ++ (if added then " append " else " set ") ++
      Command.source ns source
  | .call callee channel =>
    "function " ++ functionId ns callee.unitName ++ Command.withChannel ns channel
  | .leave code => Command.returning code

/-- The action reads a macro argument. -/
def Action.isMacro : Action → Bool
  | .write _ _ source => Command.isMacro source
  | .call _ _ | .leave _ => false

/-- The trees in an action. -/
def Action.trees : Action → List Nbt
  | .write _ _ source => source.trees
  | .call _ _ | .leave _ => []

/-- The action is told by its command. -/
def Action.Told : Action → Prop
  | .call callee _ => Command.TellsCallee callee
  | .write _ _ _ | .leave _ => True

variable {a : Action} {i j : Instr} {ns : String}

namespace Action

open Command Snbt

/-- Writes, calls and returns start with letters of their own. -/
def letter : Action → Char
  | .write _ _ _ => 'd'
  | .call _ _ => 'f'
  | .leave _ => 'r'

theorem text_eq_cons (ns : String) (a : Action) : ∃ cs, (a.text ns).toList = a.letter :: cs := by
  cases a <;> simp [text, returning, letter]

theorem write_text_inj {added added' : Bool} {p q : Place} {a b : Source}
    (hd : ToldApart (a.trees.flatMap Nbt.doubles) (b.trees.flatMap Nbt.doubles))
    (h : ((write added p a).text ns).toList = ((write added' q b).text ns).toList) :
    write added p a = write added' q b := by
  have hstop : ∀ (added : Bool) (u : List Char),
      Stops isPathChar ((if added then " append " else " set ").toList ++ u) := by
    intro added u
    cases added <;> simp <;> decide
  simp only [text, String.toList_append, List.append_assoc, List.append_cancel_left_eq] at h
  obtain ⟨rfl, hrest⟩ := place_append_inj (hstop _ _) (hstop _ _) h
  have hadded : added = added' := by
    cases added <;> cases added' <;> simp at hrest ⊢
  subst hadded
  rw [source_inj hd (List.append_cancel_left hrest)]

theorem call_text_inj {c d : Callee} {x y : Option Channel} (hc : TellsCallee c)
    (hd : TellsCallee d) (h : ((call c x).text ns).toList = ((call d y).text ns).toList) :
    call c x = call d y := by
  have hname : ∀ {c : Callee}, TellsCallee c → ∀ a ∈ c.unitName.toList, (a != ' ') = true := by
    intro c hc a ha
    exact bne_iff_ne.2 (mem_unitName hc a ha).1
  have hstop : ∀ z : Option Channel, Stops (· != ' ') (withChannel ns z).toList := by
    intro z
    cases z <;> simp [withChannel_none, withChannel_some]
  simp only [text, functionId, String.toList_append, List.append_assoc,
    List.append_cancel_left_eq] at h
  obtain ⟨hunit, hchannel⟩ := append_inj_of_stops (hname hc) (hname hd) (hstop x) (hstop y) h
  rw [unitName_inj hc hd (String.toList_inj.1 hunit), withChannel_inj hchannel]

theorem text_inj {b : Action} (ha : a.Told) (hb : b.Told)
    (hd : ToldApart (a.trees.flatMap Nbt.doubles) (b.trees.flatMap Nbt.doubles))
    (h : (a.text ns).toList = (b.text ns).toList) : a = b := by
  have hletter : a.letter = b.letter := by
    obtain ⟨cs, hcs⟩ := text_eq_cons ns a
    obtain ⟨ds, hds⟩ := text_eq_cons ns b
    exact (List.cons.inj (hcs.symm.trans (h.trans hds))).1
  cases a with
  | write added p source =>
    cases b with
    | write added' q source' => exact write_text_inj hd h
    | call d y => simp [letter] at hletter
    | leave j => simp [letter] at hletter
  | call c x =>
    cases b with
    | write added' q source' => simp [letter] at hletter
    | call d y => exact call_text_inj ha hb h
    | leave j => simp [letter] at hletter
  | leave i =>
    cases b with
    | write added' q source' => simp [letter] at hletter
    | call d y => simp [letter] at hletter
    | leave j =>
      simp only [text, returning, String.toList_append, List.append_cancel_left_eq] at h
      rw [int32_ext h]

end Action

/-- An action with its conditions and the place for its result. -/
structure Sentence where
  guard : Guard
  store : Option Place
  action : Action

variable {s : Sentence}

/-- The text of a sentence. -/
def Sentence.chars (ns : String) (s : Sentence) : List Char :=
  (if s.action.isMacro then ['$'] else []) ++
    (Command.leadChars ns s.guard s.store ++ (s.action.text ns).toList)

/-- The doubles in a sentence. -/
def Sentence.doubles (s : Sentence) : List Float :=
  Command.guardDoubles s.guard ++ s.action.trees.flatMap Nbt.doubles

theorem Sentence.chars_inj {t : Sentence} (hs : s.action.Told) (ht : t.action.Told)
    (hd : Snbt.ToldApart s.doubles t.doubles) (h : s.chars ns = t.chars ns) : s = t := by
  -- a command that is not marked starts with a letter
  have hhead : ∀ (u : Sentence) (c : Char), u.action.letter ≠ c → c ≠ 'e' →
      (Command.leadChars ns u.guard u.store ++ (u.action.text ns).toList).head? ≠ some c := by
    intro u c hletter hc
    obtain ⟨cs, hcs⟩ := u.action.text_eq_cons ns
    rw [Command.leadChars, hcs]
    split
    · simpa using hletter
    · simpa using hc.symm
  have hletter : ∀ a : Action, a.letter ≠ '$' ∧ a.letter ≠ 'e' := by
    intro a
    cases a <;> simp [Action.letter]
  have haction : ∀ u : Sentence, (u.action.text ns).toList.head? ≠ some 'e' := by
    intro u
    obtain ⟨cs, hcs⟩ := u.action.text_eq_cons ns
    simpa [hcs] using (hletter u.action).2
  have hplain : Command.leadChars ns s.guard s.store ++ (s.action.text ns).toList =
      Command.leadChars ns t.guard t.store ++ (t.action.text ns).toList := by
    unfold chars at h
    split at h <;> split at h
    · exact (List.cons.inj h).2
    · rw [List.nil_append] at h
      exact absurd (by rw [← h]; rfl) (hhead t '$' (hletter _).1 (by decide))
    · rw [List.nil_append] at h
      exact absurd (by rw [h]; rfl) (hhead s '$' (hletter _).1 (by decide))
    · exact h
  obtain ⟨⟨hguard, hstore⟩, htext⟩ := Command.leadChars_append_inj
    (hd.mono (List.subset_append_left _ _) (List.subset_append_left _ _)) (haction s) (haction t)
    hplain
  have := Action.text_inj hs ht
    (hd.mono (List.subset_append_right _ _) (List.subset_append_right _ _)) htext
  cases s
  cases t
  simp_all

/-- The sentence of an instruction, unless it is a command already. -/
def Instr.sentence? : Instr → Option Sentence
  | .set guard target source => some ⟨guard, none, .write false target source⟩
  | .append target source => some ⟨[], none, .write true target source⟩
  | .invoke guard callee channel store => some ⟨guard, store, .call callee channel⟩
  | .returnIf guard code => some ⟨guard, none, .leave code⟩
  | .returnWith code => some ⟨[], none, .leave code⟩
  | .raw _ => none

/-- The instructions of which the command tells everything. -/
def Instr.Plain : Instr → Prop
  | .set _ _ _ | .append _ _ | .returnWith _ => True
  | .invoke _ callee _ _ => Command.TellsCallee callee
  | .returnIf guard _ => guard ≠ []
  | .raw _ => False

namespace Instr

theorem Plain.exists_sentence (h : i.Plain) : ∃ s, i.sentence? = some s := by
  cases i with
  | raw _ => cases h
  | _ => exact ⟨_, rfl⟩

theorem Plain.eq_of_sentence? (hi : i.Plain) (hj : j.Plain) (h : i.sentence? = j.sentence?) :
    i = j := by
  cases i <;> cases j <;> simp_all [sentence?, Plain]

theorem toList_ofInstr (ns : String) (h : i.sentence? = some s) :
    (Command.ofInstr ns i).toList = s.chars ns := by
  have hmarked : ∀ (source : Source) (command : String),
      (Command.marked source command).toList =
        (if Command.isMacro source then ['$'] else []) ++ command.toList := by
    intro source command
    rw [Command.marked]
    split <;> simp
  have hguarded : ∀ (g : Guard) (command : String),
      (Command.guarded ns g command).toList = Command.leadChars ns g none ++ command.toList := by
    intro g command
    rw [← Command.toList_executing, Command.guarded, Command.storing, List.append_nil]
  cases i with
  | set guard target source =>
    cases h
    rw [Command.ofInstr, hmarked, hguarded]
    rfl
  | append target source =>
    cases h
    rw [Command.ofInstr, hmarked]
    rfl
  | invoke guard callee channel store =>
    cases h
    rw [Command.ofInstr, Command.toList_executing]
    rfl
  | returnIf guard code =>
    cases h
    rw [Command.ofInstr, hguarded]
    rfl
  | returnWith code =>
    cases h
    rfl
  | raw command => cases h

theorem mem_doubles_of_sentence? (h : i.sentence? = some s) :
    s.doubles ⊆ i.trees.flatMap Nbt.doubles := by
  cases i <;> cases h <;>
    simp [Sentence.doubles, Command.guardDoubles, trees, Action.trees, Guard.trees]

theorem Plain.told (hi : i.Plain) (h : i.sentence? = some s) : s.action.Told := by
  cases i with
  | raw _ => cases h
  | invoke guard callee channel store =>
    cases h
    exact hi
  | _ =>
    cases h
    trivial

/-- The command determines the instruction. -/
theorem Plain.ofInstr_inj (hi : i.Plain) (hj : j.Plain)
    (hd : Snbt.ToldApart (i.trees.flatMap Nbt.doubles) (j.trees.flatMap Nbt.doubles))
    (h : Command.ofInstr ns i = Command.ofInstr ns j) : i = j := by
  obtain ⟨s, hs⟩ := hi.exists_sentence
  obtain ⟨t, ht⟩ := hj.exists_sentence
  have hchars : s.chars ns = t.chars ns := by
    rw [← toList_ofInstr ns hs, ← toList_ofInstr ns ht, h]
  have hst := Sentence.chars_inj (hi.told hs) (hj.told ht)
    (hd.mono (mem_doubles_of_sentence? hs) (mem_doubles_of_sentence? ht)) hchars
  exact hi.eq_of_sentence? hj (by rw [hs, ht, hst])

end Instr

/-! ### One line -/

namespace Command

open Snbt

theorem newline_not_mem_segmentChars (k : String) : '\n' ∉ segmentChars k :=
  newline_not_mem_wordChars (by decide) _

theorem newline_not_mem_toString (n : Nat) : '\n' ∉ (toString n).toList := by
  intro hmem
  rw [Nat.toString_eq_repr, Nat.toList_repr] at hmem
  exact absurd (isDecimalDigit_of_mem_digitsOf hmem) (by decide)

theorem newline_not_mem_name (s : Storage) : '\n' ∉ s.name.toList := by
  cases s <;> simp [Storage.name]

theorem newline_not_mem_key (a : Address) : '\n' ∉ a.key.toList := by
  have hletter : ∀ s : Storage, '\n' ≠ storageLetter s := by
    intro s
    cases s <;> decide
  rw [toList_key, List.mem_cons, not_or]
  exact ⟨hletter _, newline_not_mem_toString _⟩

theorem newline_not_mem_pathChars (ks : List String) : '\n' ∉ pathChars ks := by
  simp [pathChars, newline_not_mem_segmentChars]

variable (hns : '\n' ∉ ns.toList)
include hns

theorem newline_not_mem_place (p : Place) :
    '\n' ∉ (place ns p).toList := by
  simp [toList_place, hns, newline_not_mem_name, newline_not_mem_key, newline_not_mem_pathChars]

theorem newline_not_mem_test (t : Test) :
    '\n' ∉ (test ns t).toList := by
  obtain ⟨init, last, h⟩ := exists_fullPath_eq t.place
  have hjoin : '\n' ∉ joinChars init := by
    cases init <;> simp [joinChars, newline_not_mem_segmentChars, newline_not_mem_pathChars]
  rw [toList_test ns h]
  cases t.negated <;> simp [hns, hjoin, newline_not_mem_name, newline_not_mem_segmentChars,
    newline_not_mem_chars]

theorem newline_not_mem_leadChars (g : Guard) (store : Option Place) :
    '\n' ∉ leadChars ns g store := by
  have hguard : '\n' ∉ guardChars ns g := by
    simp [guardChars, newline_not_mem_test hns]
  have hstore : '\n' ∉ storeChars ns store := by
    cases store <;> simp [storeChars, storing, newline_not_mem_place hns]
  unfold leadChars
  split
  · simp
  · simp [hguard, hstore]

theorem newline_not_mem_source (s : Source) :
    '\n' ∉ (source ns s).toList := by
  cases s with
  | literal v => simp [source_literal, Nbt.snbt, newline_not_mem_chars]
  | copy p => simp [source_copy, newline_not_mem_place hns]
  | param e =>
    simp [source_param, storage, functionId, hns, newline_not_mem_name, toList_segment,
      newline_not_mem_segmentChars]

end Command

theorem Action.newline_not_mem_text (hns : '\n' ∉ ns.toList) (ha : a.Told) :
    '\n' ∉ (a.text ns).toList := by
  cases a with
  | write added p s =>
    cases added <;>
      simp [text, Command.newline_not_mem_place hns, Command.newline_not_mem_source hns]
  | call c x =>
    have hunit : '\n' ∉ c.unitName.toList := fun hmem => (Command.mem_unitName ha _ hmem).2 rfl
    have hkey : ∀ x : Channel, '\n' ∉ x.key.toList := fun x =>
      Command.newline_not_mem_key (.channel x)
    cases x <;>
      simp [text, Command.withChannel_none, Command.withChannel_some, functionId, Command.storage,
        hns, hunit, hkey, Command.newline_not_mem_name]
  | leave code =>
    intro hmem
    rw [text, Command.returning, String.toList_append, List.mem_append] at hmem
    rcases hmem with hmem | hmem
    · simp at hmem
    · exact absurd (Snbt.isNumberChar_of_mem_toString _ hmem) (by decide)

theorem Instr.Plain.newline_not_mem_ofInstr (hns : '\n' ∉ ns.toList) (hi : i.Plain) :
    '\n' ∉ (Command.ofInstr ns i).toList := by
  obtain ⟨s, hs⟩ := hi.exists_sentence
  have hmark : '\n' ∉ (if s.action.isMacro then ['$'] else []) := by
    split <;> simp
  rw [Instr.toList_ofInstr ns hs, Sentence.chars]
  simp [hmark, Command.newline_not_mem_leadChars hns, s.action.newline_not_mem_text hns
    (hi.told hs)]

/-- The lines of a unit are the commands of its instructions. -/
theorem CodeUnit.splitOn_commands (hns : '\n' ∉ ns.toList) {u : CodeUnit}
    (hu : ∀ i ∈ u.instrs, i.Plain) :
    (u.commands ns).toList.splitOn '\n' =
      u.instrs.map (fun i => (Command.ofInstr ns i).toList) ++ [[]] := by
  obtain ⟨name, info, instrs⟩ := u
  simp only [CodeUnit.commands, String.toList_join, List.flatMap_map]
  induction instrs with
  | nil => rfl
  | cons i instrs ih =>
    have hi : ∀ c ∈ (Command.ofInstr ns i).toList, (c == '\n') = false := fun c hc =>
      beq_false_of_ne (ne_of_mem_of_not_mem hc ((hu i (by simp)).newline_not_mem_ofInstr hns))
    have hline : (Command.ofInstr ns i ++ "\n").toList =
        (Command.ofInstr ns i).toList ++ ['\n'] := by simp
    rw [List.flatMap_cons, hline, List.append_assoc, List.singleton_append, List.splitOn,
      List.splitOnP_append_cons_of_forall_mem hi _ (by simp), ← List.splitOn,
      ih fun j hj => hu j (List.mem_cons_of_mem _ hj)]
    rfl

/-- **Instructions and commands are one-to-one.** Every instruction is written on one line, and
    units with the same text have the same instructions, when finite doubles have different
    texts. -/
theorem commands_are_one_to_one (ns : String) (hns : '\n' ∉ ns.toList) (u v : CodeUnit)
    (hu : ∀ i ∈ u.instrs, i.Plain) (hv : ∀ i ∈ v.instrs, i.Plain)
    (hfiniteu : ∀ x ∈ u.doubles, x.isFinite = true)
    (hfinitev : ∀ x ∈ v.doubles, x.isFinite = true)
    (hformat : ∀ x ∈ u.doubles, ∀ y ∈ v.doubles,
      DecimalLayout.storage.format x = DecimalLayout.storage.format y → x = y) :
    (u.commands ns).toList.splitOn '\n' =
        u.instrs.map (fun i => (Command.ofInstr ns i).toList) ++ [[]] ∧
      (u.commands ns = v.commands ns → u.instrs = v.instrs) := by
  refine ⟨u.splitOn_commands hns hu, fun h => ?_⟩
  have htold := Snbt.toldApart_of_format hfiniteu hfinitev hformat
  have hlines : u.instrs.map (fun i => (Command.ofInstr ns i).toList) =
      v.instrs.map fun i => (Command.ofInstr ns i).toList := by
    have hsplit := congrArg (fun s : String => s.toList.splitOn '\n') h
    simp only [u.splitOn_commands hns hu, v.splitOn_commands hns hv] at hsplit
    exact List.append_cancel_right hsplit
  have hlength := congrArg List.length hlines
  simp only [List.length_map] at hlength
  refine List.ext_getElem hlength fun k hk hk' => ?_
  have hi := List.getElem_mem hk
  have hj := List.getElem_mem hk'
  have hline := List.getElem_of_eq hlines (by simpa using hk)
  simp only [List.getElem_map] at hline
  refine (hu _ hi).ofInstr_inj (hv _ hj) (htold.mono ?_ ?_) (String.toList_inj.1 hline)
  all_goals
    intro x hx
    simp only [CodeUnit.doubles, CodeUnit.trees, List.mem_flatMap] at hx ⊢
  · exact hx.imp fun t ht => ⟨⟨_, hi, ht.1⟩, ht.2⟩
  · exact hx.imp fun t ht => ⟨⟨_, hj, ht.1⟩, ht.2⟩

/-- A unit with a guard, a number below a path, a parameter and a call. -/
def numberedUnit (path : List String) : CodeUnit where
  name := "numbered"
  info := ⟨.function, false, none, none, []⟩
  instrs := [
    .set [⟨.field ⟨1⟩ "type", .string "a \"b\"\n", true⟩] ⟨.slot ⟨0⟩, path⟩
      (.literal (.double 1.5)),
    .set [] (.slot ⟨2⟩) (.param "first name"),
    .invoke (.when (.slot ⟨2⟩) (.int 7)) (.unit "next") (some ⟨3⟩) (some (.field ⟨4⟩ "code")),
    .returnIf (.when (.slot ⟨2⟩) (.double 1.5)) 1]

theorem numberedUnit_plain (path : List String) : ∀ i ∈ (numberedUnit path).instrs, i.Plain := by
  simp [numberedUnit, Instr.Plain, Command.TellsCallee, Guard.when]

theorem mem_doubles_numberedUnit {path : List String} {x : Float}
    (h : x ∈ (numberedUnit path).doubles) : x = 1.5 := by
  simpa [CodeUnit.doubles, CodeUnit.trees, numberedUnit, Instr.trees, Guard.trees, Source.trees,
    Guard.when, Nbt.doubles] using h

/-- The paths `"a.b"` and `a.b` give different commands. -/
theorem commands_are_one_to_one_dotted :
    ((numberedUnit ["a.b"]).commands "game").toList.splitOn '\n' =
        (numberedUnit ["a.b"]).instrs.map (fun i => (Command.ofInstr "game" i).toList) ++ [[]] ∧
      (numberedUnit ["a.b"]).commands "game" ≠ (numberedUnit ["a", "b"]).commands "game" := by
  have hfinite : ∀ {path : List String}, ∀ x ∈ (numberedUnit path).doubles, x.isFinite = true := by
    intro path x hx
    rw [mem_doubles_numberedUnit hx]
    decide +kernel
  obtain ⟨hlines, heq⟩ := commands_are_one_to_one "game" (by simp) (numberedUnit ["a.b"])
    (numberedUnit ["a", "b"]) (numberedUnit_plain _) (numberedUnit_plain _) hfinite hfinite
    (fun x hx y hy _ => (mem_doubles_numberedUnit hx).trans (mem_doubles_numberedUnit hy).symm)
  refine ⟨hlines, fun h => ?_⟩
  have hinstrs := heq h
  simp [numberedUnit] at hinstrs

end PackScript
