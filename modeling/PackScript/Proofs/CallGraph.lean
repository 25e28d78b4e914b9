import PackScript.Compile.Call
import PackScript.Proofs.Table

namespace PackScript

/-!
# The graph of recorded calls

`callsReach` searches with a stack of functions to look at and a list of those that were seen.

* `exists_of_callSearch`, `CallsSeen.not_reaches` — what the search finds and what it rules out, by
  induction on its steps. `callsReach_iff`: it finds exactly the functions that calls lead to.
* `NoCircle.addCall_iff` — a call closes a circle exactly if there is a way back.
* `NoCircle.grows` — calls that are added with nothing leading back close no circle.
-/

/-- A call from one function to another is recorded. -/
def Calls (calls : Table (List String)) (caller callee : String) : Prop :=
  callee ∈ (calls.find? caller).getD []

/-- No function leads to itself by calls. -/
def NoCircle (calls : Table (List String)) : Prop :=
  ∀ f, ¬ Relation.TransGen (Calls calls) f f

/-- A call is added that nothing leads back from. -/
def AddsCall (calls calls' : Table (List String)) : Prop :=
  ∃ (s : Compiler) (caller callee : String), s.calls = calls ∧
    callsReach calls callee caller = false ∧ (s.addCall caller callee).calls = calls'

/-! ### The search -/

/-- What the functions that were seen call is seen or pending, and the one that is searched was not
    seen. -/
structure CallsSeen (calls : Table (List String)) (target : String) (seen pending : List String) :
    Prop where
  calls : ∀ f ∈ seen, ∀ g, Calls calls f g → g ∈ seen ∨ g ∈ pending
  target : target ∉ seen

section

variable {calls : Table (List String)} {target f g : String} {seen pending : List String}

/-- The search finds only what calls lead to from a function that is pending. -/
theorem exists_of_callSearch (h : callSearch calls target seen pending = true) :
    ∃ f ∈ pending, Relation.ReflTransGen (Calls calls) f target := by
  fun_induction callSearch calls target seen pending with
  | case1 => cases h
  | case2 seen pending => exact ⟨target, List.mem_cons_self, .refl⟩
  | case3 seen name pending _ _ ih =>
    obtain ⟨f, hf, hway⟩ := ih h
    exact ⟨f, List.mem_cons_of_mem name hf, hway⟩
  | case4 seen name pending _ _ ih =>
    obtain ⟨f, hf, hway⟩ := ih h
    rcases List.mem_append.1 hf with hf | hf
    · exact ⟨name, List.mem_cons_self, .head (List.mem_reverse.1 hf) hway⟩
    · exact ⟨f, List.mem_cons_of_mem name hf, hway⟩

/-- Nothing is pending: what was seen is closed under calls. -/
theorem CallsSeen.not_reaches_of_seen (h : CallsSeen calls target seen []) (hf : f ∈ seen) :
    ¬ Relation.ReflTransGen (Calls calls) f target := by
  have hclosed : ∀ e ∈ seen, ∀ g, Calls calls e g → g ∈ seen := fun e he g hcall =>
    (h.calls e he g hcall).resolve_right List.not_mem_nil
  intro hway
  refine h.target ?_
  clear h
  induction hway with
  | refl => exact hf
  | tail _ hcall ih => exact hclosed _ ih _ hcall

/-- A search without success leaves out nothing. -/
theorem CallsSeen.not_reaches (h : CallsSeen calls target seen pending)
    (hfalse : callSearch calls target seen pending = false) (hf : f ∈ seen ∨ f ∈ pending) :
    ¬ Relation.ReflTransGen (Calls calls) f target := by
  fun_induction callSearch calls target seen pending with
  | case1 seen => exact h.not_reaches_of_seen (hf.resolve_right List.not_mem_nil)
  | case2 => cases hfalse
  | case3 seen name pending _ hseen ih =>
    -- a function that was seen already is no longer pending
    have hmove : ∀ g, g ∈ seen ∨ g ∈ name :: pending → g ∈ seen ∨ g ∈ pending := by
      rintro g (hg | hg)
      · exact .inl hg
      · rcases List.mem_cons.1 hg with rfl | hg
        · exact .inl hseen
        · exact .inr hg
    exact ih ⟨fun e he g hcall => hmove g (h.calls e he g hcall), h.target⟩ hfalse (hmove f hf)
  | case4 seen name pending hne _ ih =>
    -- a new one is seen from here on, and all that it calls is pending
    have hmove : ∀ g, g ∈ seen ∨ g ∈ name :: pending →
        g ∈ name :: seen ∨ g ∈ ((calls.find? name).getD []).reverse ++ pending := by
      rintro g (hg | hg)
      · exact .inl (List.mem_cons_of_mem name hg)
      · rcases List.mem_cons.1 hg with rfl | hg
        · exact .inl List.mem_cons_self
        · exact .inr (List.mem_append_right _ hg)
    refine ih ⟨fun e he g hcall => ?_, ?_⟩ hfalse (hmove f hf)
    · rcases List.mem_cons.1 he with rfl | he
      · exact .inr (List.mem_append_left _ (List.mem_reverse.2 hcall))
      · exact hmove g (h.calls e he g hcall)
    · exact List.not_mem_cons_of_ne_of_not_mem (Ne.symm hne) h.target

/-- Exactly those functions are found that calls lead to. -/
theorem callsReach_iff : callsReach calls f g = true ↔ Relation.ReflTransGen (Calls calls) f g := by
  constructor
  · intro hfound
    obtain ⟨f', hf', hway⟩ := exists_of_callSearch hfound
    rwa [List.mem_singleton.1 hf'] at hway
  · intro hway
    have hstart : CallsSeen calls g [] [f] := ⟨nofun, List.not_mem_nil⟩
    by_contra hnot
    exact hstart.not_reaches (Bool.eq_false_iff.2 hnot) (.inr List.mem_cons_self) hway

end

/-! ### A further call -/

section

variable {s : Compiler} {caller callee f g : String}

/-- One call is added, and nothing else. -/
theorem Compiler.calls_addCall_iff :
    Calls (s.addCall caller callee).calls f g ↔
      Calls s.calls f g ∨ f = caller ∧ g = callee := by
  show g ∈ ((s.calls.put caller _).find? f).getD [] ↔ _
  rw [Table.find?_put]
  by_cases hf : caller = f
  · subst hf
    simp [Calls, List.mem_insert_iff, or_comm]
  · simp [hf, Ne.symm hf, Calls]

/-- A way along the calls and a further one, which is passed or not. -/
theorem Compiler.transGen_addCall
    (h : Relation.TransGen (Calls (s.addCall caller callee).calls) f g) :
    Relation.TransGen (Calls s.calls) f g ∨
      Relation.ReflTransGen (Calls s.calls) f caller ∧
        Relation.ReflTransGen (Calls s.calls) callee g := by
  induction h with
  | single hcall =>
    rcases calls_addCall_iff.1 hcall with hcall | ⟨rfl, rfl⟩
    · exact .inl (.single hcall)
    · exact .inr ⟨.refl, .refl⟩
  | tail _ hcall ih =>
    rcases calls_addCall_iff.1 hcall with hcall | ⟨rfl, rfl⟩
    · rcases ih with hold | ⟨hfirst, hrest⟩
      · exact .inl (hold.tail hcall)
      · exact .inr ⟨hfirst, hrest.tail hcall⟩
    · rcases ih with hold | ⟨hfirst, _⟩
      · exact .inr ⟨hold.to_reflTransGen, .refl⟩
      · exact .inr ⟨hfirst, .refl⟩

/-- A further call closes a circle exactly if there is a way back. -/
theorem NoCircle.addCall_iff (h : NoCircle s.calls) :
    NoCircle (s.addCall caller callee).calls ↔ callsReach s.calls callee caller = false := by
  rw [← Bool.not_eq_true, callsReach_iff]
  constructor
  · intro hnone hway
    refine hnone caller (.head' (Compiler.calls_addCall_iff.2 (.inr ⟨rfl, rfl⟩)) ?_)
    exact hway.lift id fun f g hcall => Compiler.calls_addCall_iff.2 (.inl hcall)
  · intro hback f hcircle
    rcases Compiler.transGen_addCall hcircle with hold | ⟨hfirst, hrest⟩
    · exact h f hold
    · exact hback (hrest.trans hfirst)

/-- Calls that nothing leads back from close no circle. -/
theorem NoCircle.grows {calls calls' : Table (List String)} (h : NoCircle calls)
    (hgrows : Relation.ReflTransGen AddsCall calls calls') : NoCircle calls' := by
  induction hgrows with
  | refl => exact h
  | tail _ hadds ih =>
    obtain ⟨s, caller, callee, rfl, hback, rfl⟩ := hadds
    exact ih.addCall_iff.2 hback

/-- Calls may be taken back by their callers. -/
theorem NoCircle.filter {calls : Table (List String)} (h : NoCircle calls) (keep : String → Bool) :
    NoCircle (List.filter (fun e => keep e.1) calls) := by
  have hcalls : ∀ f g, Calls (List.filter (fun e => keep e.1) calls) f g → Calls calls f g := by
    intro f g
    rw [Calls, Table.find?_filter]
    split <;> simp [Calls]
  exact fun f hcircle => h f (hcircle.lift id hcalls)

end

end PackScript
