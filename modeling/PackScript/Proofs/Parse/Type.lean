import PackScript.Parse.TypeAnnotation
import PackScript.Proofs.Parse.Progress

namespace PackScript.Parse

/-!
# Names and types get on

The parsers of names, and those that pass over types, take a token where they have to.
-/

variable {β : Type} [Nodes β] {s : String} {known : Prop} {K : Scene s known} {n : Nat} {c : Cursor}

/-! ### Names -/

theorem bindingName_takes : Takes K n bindingName := by
  refine get_reads fun c hc hn => ?_
  dsimp only
  split
  · exact token_at hc (by simp [*]) rfl rfl
  · rename_i hkind
    split
    · exact token_at hc (by simp [*]) rfl rfl
    · exact reject_reads _ c hc hn
  · exact reject_reads _ c hc hn

theorem memberName_takes : Takes K n memberName := by
  refine get_reads fun c hc hn => ?_
  dsimp only
  split
  · exact token_at hc (by simp [*]) rfl rfl
  · exact token_at hc (by simp [*]) rfl rfl
  · exact reject_reads _ c hc hn

theorem skipModifiers_keeps : Keeps K n skipModifiers := by
  refine passing_keeps rfl fun _ => get_reads fun c hc hn => ?_
  split
  · rename_i hsees
    refine advance_at hc ?_ (.done rfl)
    unfold seesModifier at hsees
    unfold Cursor.atEnd
    split at hsees <;> simp_all
  · exact stop_at hc nofun

/-! ### Types -/

theorem skipBalanced_takes (opening closing : Punct) :
    Takes K n (skipBalanced opening closing) := by
  refine (require_takes opening).after (passing_keeps rfl fun depth => ?_)
  split
  · exact .done_of nofun rfl
  · refine get_reads fun c hc hn => ?_
    split
    · exact reject_reads _ c hc hn
    · rename_i hend
      exact advance_at hc (by simpa using hend) (.done rfl)

theorem skipTypeArguments_keeps : Keeps K n skipTypeArguments := by
  refine (accept_reads .lt).either (passing_keeps rfl fun depth => ?_) (.done rfl)
  split
  · exact .done_of nofun rfl
  · refine get_reads fun c hc hn => ?_
    split
    · exact reject_reads _ c hc hn
    · rename_i hend
      exact advance_at hc (by simpa using hend) (.done rfl)

theorem skipQualifiedName_takes : Takes K n skipQualifiedName := by
  refine memberName_takes.before fun _ => passing_keeps rfl fun _ => ?_
  refine (accept_reads .dot).before_if ?_ (.done_of nofun rfl)
  exact memberName_takes.bind fun _ => .done rfl

theorem skipArraySuffixes_keeps : Keeps K n skipArraySuffixes := by
  refine passing_keeps rfl fun _ => look_reads fun c => ?_
  split
  · exact (skipBalanced_takes _ _).after (.done rfl)
  · exact .done_of nofun rfl

theorem atEnd_of_seesTypeJoint (h : seesTypeJoint c = true) : c.atEnd = false := by
  rcases Bool.or_eq_true_iff.1 h with h | h
  · exact Cursor.atEnd_of_sees h
  · exact Cursor.atEnd_of_sees h

theorem skipJoined_takes {single : Parse Unit} (h : ∀ K : Scene s known, Takes K n single) :
    Takes K n (skipJoined single) := by
  have hrest : Takes K n (single >>= fun _ => repeating (fun _ => do
      if seesTypeJoint (← get) then
        advance
        single
        return .inl ()
      else return .inr ()) ()) := by
    refine (h K).after (passing_keeps rfl fun _ => get_reads fun c hc hn => ?_)
    split
    · rename_i hsees
      refine advance_at hc (atEnd_of_seesTypeJoint hsees) ?_
      exact ((h _).mono (Nat.le_of_lt hn)).seq (.done rfl)
    · exact stop_at hc nofun
  refine look_reads fun c => ?_
  split
  · exact advance_keeps.seq hrest
  · exact hrest

theorem atEnd_of_seesNamed {name : String} (h : c.seesNamed name = true) : c.atEnd = false := by
  unfold Cursor.seesNamed at h
  unfold Cursor.atEnd
  split at h <;> simp_all

theorem atEnd_of_seesTypeOperator (h : seesTypeOperator c = true) : c.atEnd = false := by
  simp only [seesTypeOperator, Bool.and_eq_true, Bool.or_eq_true] at h
  rcases h.1 with (h | h) | h <;> exact atEnd_of_seesNamed h

theorem skipSingle_takes (fuel : Nat) : ∀ K : Scene s known, Takes K fuel (skipSingle fuel) := by
  induction fuel with
  | zero => exact fun _ _ _ h => absurd h (Nat.not_lt_zero _)
  | succ fuel ih =>
    refine fun K => get_reads fun c hc hn => ?_
    have hlow : c.left ≤ fuel := Nat.le_of_lt_succ hn
    have hrest : Keeps K (fuel + 1) skipArraySuffixes := skipArraySuffixes_keeps
    dsimp only
    split
    · refine Takes.past (skipBalanced_takes _ _) ?_ c hc hn
      exact (accept_reads .arrow).either ((skipJoined_takes ih).seq hrest.lower) hrest.lower
    · exact Takes.after (skipBalanced_takes _ _) hrest c hc hn
    · exact Takes.after (skipBalanced_takes _ _) hrest c hc hn
    · rename_i hkind
      refine advance_at hc (by simp [Cursor.atEnd, hkind]) ?_
      exact skipQualifiedName_takes.seq (hrest.mono (Nat.le_of_lt hn))
    · rename_i hkind
      refine advance_at hc (by simp [Cursor.atEnd, hkind]) ?_
      exact ((ih K).mono hlow).seq (hrest.mono (Nat.le_of_lt hn))
    -- The types of one token
    iterate 8
      · rename_i hkind
        exact advance_at hc (by simp [Cursor.atEnd, hkind]) (hrest.mono (Nat.le_of_lt hn))
    · rename_i hkind
      refine advance_at hc (by simp [Cursor.atEnd, hkind]) ?_
      refine look_reads fun c' => ?_
      split
      · exact advance_keeps.seq (hrest.mono (Nat.le_of_lt hn))
      · exact reject_reads _
    · split
      · rename_i hsees
        exact advance_at hc (atEnd_of_seesTypeOperator hsees) ((ih K).mono hlow).keeps
      · exact Takes.after skipQualifiedName_takes (skipTypeArguments_keeps.seq hrest) c hc hn

theorem skipType_takes : Takes K n skipType := by
  refine get_reads fun c hc hn => ?_
  exact skipJoined_takes (skipSingle_takes c.budget) c hc (Nat.lt_succ_self _)

theorem skipTypes_takes : Takes K n skipTypes := by
  refine skipType_takes.after ?_
  exact (afterCommas_keeps fun _ => skipType_takes.keeps).bind fun _ => .done rfl

theorem Reads.seq_bind {α γ : Type} [Nodes α] {takes : α → Prop} {takes' : β → Prop} {q : Parse α}
    {g : Parse γ} {f : γ → Parse β} (hq : Reads K n takes q) (hg : Reads K n takes' (g >>= f)) :
    Reads K n takes' ((q >>= fun _ => g) >>= f) := by
  rw [bind_assoc]
  exact hq.seq hg

theorem skipAnnotation_keeps : Keeps K n skipAnnotation :=
  (accept_reads .colon).either skipType_takes.keeps (.done rfl)

theorem skipReturnType_keeps : Keeps K n skipReturnType := by
  refine (accept_reads .colon).either (skipType_takes.seq ?_) (.done rfl)
  exact (seesNamed_keeps "is").either (advance_keeps.seq skipType_takes.keeps) (.done rfl)

/-- The declaration of a type takes a token, where there is one, and nothing is read elsewhere. -/
theorem skipTypeDeclaration_at {takes : β → Prop} {f : Option Span → Parse β} (hc : K.Holds c)
    (hyes : ∀ n, Keeps (.opening hc.valid : Scene s known) n
      ((do return some (← spanFrom c.current.span)) >>= f))
    (hno : ReadsAt K c takes (f none)) : ReadsAt K c takes (skipTypeDeclaration >>= f) := by
  show ReadsAt K c takes ((if _ then _ else _) >>= f)
  -- Whether the next token is a name on the same line
  split
  · split
    · rename_i hsees
      have hend : c.atEnd = false := by
        rw [Bool.and_eq_true, Bool.or_eq_true] at hsees
        rcases hsees.1 with h | h <;> exact atEnd_of_seesNamed h
      rw [bind_assoc]
      refine ReadsAt.start hc (advance_at hc.opening hend ?_)
      refine bindingName_takes.seq_bind (skipTypeArguments_keeps.seq_bind ?_)
      split
      · refine (require_takes .eq).seq_bind (skipType_takes.seq_bind ?_)
        exact endStatement_keeps.seq_bind (hyes _)
      · rw [bind_assoc]
        have hbody := (skipBalanced_takes .lbrace .rbrace).seq_bind (hyes c.left)
        exact (acceptWord_reads .extends_).either (skipTypes_takes.seq_bind hbody) hbody
    · exact hno
  · rw [Bool.and_false, if_neg (by simp)]
    exact hno

end PackScript.Parse
