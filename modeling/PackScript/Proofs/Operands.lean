import PackScript.Proofs.NeverStuck
import PackScript.Proofs.Uses.Program

namespace PackScript

/-!
# Operands before others

The operands of an operator and the arguments of a call are evaluated from left to right, and only
then used. The value of an earlier one must be the same then: the code of the later ones must not
write the slot that holds it.

* `Compiler.Regular` — the states that the compiler can be in.
* `Compiler.Spares` — the code that is compiled between two states does not write a slot.
* `Uses.Pieces.confined` — code names no slots but those that it may write.
* `Compile.LeadsIn.spares` — whatever is compiled leaves a slot alone that is no variable's.
* `earlier_operands_are_spared` — operators and calls.
-/

variable {opens : Bool} {entries : Compile.Entries} {s : Slot} {α : Type} {c : Compile α}
  {Q : Uses → α → Compiler → Prop} {v : α}

/-! ### Code that names slots -/

namespace Uses

variable {G : Uses} {site : Site} {writes : Slot → Prop} {a b : Option Slot} {is : List Instr}

/-- The instruction names no slots but some. -/
def Names (writes : Slot → Prop) (i : Instr) : Prop :=
  ∀ s, i.names s = true → writes s

theorem names_slot {guard : Guard} {path : List String} {source : Source} (hs : writes s) :
    Names writes (.set guard ⟨.slot s, path⟩ source) := by
  intro t ht
  have hst : s = t := by simpa [Instr.names, Place.isTarget] using ht
  exact hst ▸ hs

/-- Entries of a channel, where the slot for the result may be written. -/
theorem names_fill {c : Channel}
    (h : ∀ e ∈ entries, (e.1 = "result" ∨ e.1 = "return") → ∀ s, e.2.isText s.key = true → writes s)
    :
    ∀ i ∈ fillCode c entries, Names writes i := by
  intro i hi s hs
  rcases List.mem_cons.1 hi with rfl | hi
  · simp [Instr.names, Place.channel, Place.isTarget] at hs
  · obtain ⟨⟨name, source⟩, he, rfl⟩ := List.mem_map.1 hi
    have hparts : (Place.entry c name).isTarget = true ∧ source.isText s.key = true := by
      simpa [Instr.names, Place.entry] using hs
    refine h _ he ?_ s hparts.2
    by_contra hname
    obtain ⟨hresult, hreturn⟩ := not_or.1 hname
    have hnot : (Place.entry c name).isTarget = false := by
      unfold Place.isTarget Place.entry
      split
      · next heq => cases heq; exact absurd rfl hresult
      · next heq => cases heq; exact absurd rfl hreturn
      · rfl
    rw [hnot] at hparts
    cases hparts.1

/-- The key of a slot tells the slot. -/
theorem eq_of_isText {t : Slot} (h : (Source.addressOf s).isText t.key = true) : s = t :=
  Source.addressOf_inj.1 (Source.isText_iff.1 h)

theorem valueEntry_ne_result {name : String} (h : ValueEntry name) : name ≠ "result" := by
  rcases h with rfl | rfl | ⟨i, rfl⟩
  · decide
  · decide
  · exact argumentName_ne i (by decide)

theorem CallEntries.names {S : Standing} {result : Slot} (h : G.CallEntries S result entries)
    (hwrites : writes result) {c : Channel} : ∀ i ∈ fillCode c entries, Names writes i := by
  refine names_fill fun e he hname s hs => ?_
  rcases h.fits e he with ⟨hvalue, _⟩ | ⟨_, hsource⟩
  · rcases hname with hname | hname
    · exact absurd hname (valueEntry_ne_result hvalue)
    · exact absurd hname (valueEntry_ne hvalue).1
  · rw [hsource] at hs
    exact eq_of_isText hs ▸ hwrites

theorem Piece.names (h : G.Piece site writes a is) : ∀ i ∈ is, Names writes i := by
  have hone : ∀ {i : Instr}, Names writes i → ∀ j ∈ [i], Names writes j := by
    rintro i hi j hj
    rwa [List.mem_singleton.1 hj]
  have hinvoke : ∀ {guard callee channel}, Names writes (.invoke guard callee channel none) :=
    nofun
  cases h with
  | value _ _ _ hwrites _ | flag _ hwrites _ | raised _ _ hwrites _ | listener _ hwrites _
  | code _ hwrites _ => exact hone (names_slot hwrites)
  | record _ _ | property _ _ =>
    exact hone (by simp [Names, Instr.names, Place.record, Place.isTarget])
  | returnIf _ _ | returnWith _ | raw => exact hone nofun
  | scalar _ hwrites _ =>
    intro i hi
    rcases List.mem_cons.1 hi with rfl | hi
    · exact names_slot hwrites
    · obtain ⟨e, _, rfl⟩ := List.mem_map.1 hi
      exact names_slot hwrites
  | library _ htarget hentries =>
    refine List.forall_mem_append.2 ⟨names_fill fun e he hname s hs => ?_, hone hinvoke⟩
    obtain ⟨layout, hsupplied, haccepts⟩ := hentries
    obtain ⟨shape, hmem, hfits⟩ := hsupplied.shape he
    have huse := haccepts.uses _ hmem
    rcases hname with hname | hname
    · -- only the slot for the result is given as such
      have hshape : shape = .result := by
        simpa [hname, Routine.argUse, ArgUse.admits] using huse
      subst hshape
      obtain ⟨t, ht, hsource⟩ := hfits
      rw [hsource] at hs
      exact eq_of_isText hs ▸ (htarget t ht).2.1
    · simp [hname, Routine.argUse, ArgUse.admits] at huse
  | call _ _ hwrites hentries _ _ _ =>
    exact List.forall_mem_append.2 ⟨hentries.names hwrites, hone hinvoke⟩
  | through _ _ _ hwrites hentries _ =>
    refine List.forall_mem_append.2 ⟨hentries.names hwrites,
      List.forall_mem_append.2 ⟨names_fill fun e he hname => ?_, hone hinvoke⟩⟩
    simp only [List.mem_cons, List.not_mem_nil, or_false] at he
    rcases he with rfl | rfl <;> simp at hname
  | part _ _ _ hstore =>
    refine hone fun s hs => ?_
    obtain ⟨p, hp, haddress⟩ := (Option.any_eq_true _ _).1 hs
    obtain ⟨t, rfl, _, hwrites⟩ := hstore p hp
    obtain rfl : t = s := by simpa [Place.slot] using haddress
    exact hwrites
  | @each _ _ _ cell _ _ _ _ _ _ _ _ hwrites =>
    refine List.forall_mem_append.2 ⟨names_fill fun e he hname => ?_, ?_⟩
    · simp only [List.mem_cons, List.not_mem_nil, or_false] at he
      rcases he with rfl | rfl | rfl <;> simp at hname
    · refine List.forall_mem_cons.2 ⟨names_slot hwrites, hone fun s hs => ?_⟩
      have hst : cell = s := by simpa [Instr.names, Place.slot] using hs
      exact hst ▸ hwrites
  | @answer c d s _ _ _ _ _ =>
    have hfill : ∀ i ∈ fillCode c [("target", .valueOf d), ("source", .addressOf s)],
        Names writes i := by
      refine names_fill fun e he hname => ?_
      simp only [List.mem_cons, List.not_mem_nil, or_false] at he
      rcases he with rfl | rfl <;> simp at hname
    exact List.forall_mem_append.2 ⟨hfill, hone hinvoke⟩

/-- Code names no slots but those that it may write. -/
theorem Pieces.names (h : G.Pieces site writes a is b) : ∀ i ∈ is, Names writes i := by
  induction h with
  | nil => exact nofun
  | cons his _ ih => exact List.forall_mem_append.2 ⟨his.names, ih⟩
  | address _ hwrites _ _ ih =>
    exact List.forall_mem_cons.2 ⟨names_slot hwrites,
      List.forall_mem_cons.2 ⟨names_slot hwrites, ih⟩⟩

end Uses

/-! ### States of the compiler -/

/-- A state that the compiler can be in: all that it has bound and compiled so far keeps to uses of
    names. -/
def Compiler.Regular (s : Compiler) : Prop :=
  ∃ W G, Orderly W G s

theorem regular_after (ns : String) (texts : List String) : (Compiler.after ns texts).Regular := by
  obtain ⟨G, _, hs, _⟩ := compileSources_orderly ns texts
  exact ⟨_, G, hs.orderly ((Compiler.after ns texts).terms True)⟩

namespace Compiler

/-- The slot is not that of a variable. -/
def Unbound (s : Compiler) (a : Slot) : Prop :=
  ∀ t ∈ s.scopes.list, ∀ e ∈ t, e.2.slot ≠ a

/-- The second code is the first one and further instructions that neither write the slot nor have
    a result written there. -/
def Adds (a : Slot) (old new : List Instr) : Prop :=
  ∃ is, new = old ++ is ∧ ∀ i ∈ is, i.names a = false

/-- What is compiled between two states does not write the slot: neither the present unit, which
    goes on or is cut off by an `await`, nor units that are finished in between. -/
structure Spares (a : Slot) (s s' : Compiler) : Prop where
  code : Adds a s.code s'.code ∨ Adds a [] s'.code
  units : ∀ e ∈ s'.units, e ∈ s.units ∨ Adds a s.code e.2.instrs ∨ Adds a [] e.2.instrs

end Compiler

section

variable {W : Watch} {G G' : Uses} {s s' : Compiler} {a : Slot}

theorem Orderly.index_lt (h : Orderly W G s) {use : SlotUse} (ha : G.slot a = some use) :
    a.index < s.names.slots := by
  refine Nat.lt_of_not_le fun hle => ?_
  cases (h.freshSlot a.index hle).1.symm.trans ha

/-- Code may be compiled so that it does not write a slot, if that is not one of a variable. -/
theorem Orderly.sparing (h : Orderly W G s) (ha : a.index < s.names.slots)
    (hunbound : s.Unbound a) :
    Orderly { W with writes := (· ≠ a) } G s :=
  { h with
    freshSlot := fun n hn => ⟨(h.freshSlot n hn).1, by
      rintro rfl
      exact absurd ha (Nat.not_lt.2 hn)⟩
    scopes :=
      { h.scopes with
        bindings := fun t ht e he =>
          { h.scopes.bindings t ht e he with writes := hunbound t ht e he } } }

theorem Uses.Pieces.adds {site : Site} {b c : Option Slot} {is : List Instr}
    (h : G.Pieces site (· ≠ a) b is c) (old : List Instr) : Compiler.Adds a old (old ++ is) :=
  ⟨is, rfl, fun i hi => Bool.eq_false_iff.2 fun hnames => h.names i hi a hnames rfl⟩

theorem Advances.spares (h : Advances opens { W with writes := (· ≠ a) } G s G' s') :
    s.Spares a s' where
  code := by
    cases h.current with
    | same _ _ hcode =>
      obtain ⟨is, hnew, his⟩ := hcode
      exact .inl (hnew ▸ his.adds s.code)
    | rest _ _ _ _ _ hcode => exact .inr (hcode.adds [])
  units e he := by
    rcases h.units e he with hold | ⟨_, b, is, hnew, his⟩ | ⟨site, b, c, his⟩
    · exact .inl hold
    · exact .inr (.inl (hnew ▸ his.adds s.code))
    · exact .inr (.inr (his.adds []))

/-- A computation that succeeds goes on to its answer. -/
theorem Compile.LeadsIn.advances (h : Compile.LeadsIn opens W G s c Q) (hrun : c s = .ok v s') :
    ∃ G', Advances opens W G s G' s' ∧ Q G' v s' := by
  unfold Compile.LeadsIn at h
  rw [hrun] at h
  obtain ⟨G', hadvances, _, hQ⟩ := h
  exact ⟨G', hadvances, hQ⟩

theorem Compile.LeadsIn.of_run (h : Compile.LeadsIn opens W G s c Q) (hrun : c s = .ok v s') :
    ∃ G', Orderly W G' s' ∧ Q G' v s' := by
  obtain ⟨G', hadvances, hQ⟩ := h.advances hrun
  exact ⟨G', hadvances.orderly, hQ⟩

/-- Whatever is compiled does not write a slot that is no variable's. -/
theorem Compile.LeadsIn.spares (h : Compile.LeadsIn opens { W with writes := (· ≠ a) } G s c Q)
    (hrun : c s = .ok v s') : s.Spares a s' := by
  obtain ⟨G', hadvances, _⟩ := h.advances hrun
  exact hadvances.spares

end

/-! ### Operands -/

namespace Compile

variable {s s' : Compiler} {α β : Type}

/-- The value of an operand before others, which is copied if it is that of a name and one of the
    others may assign. -/
def operand (k : Lowering) (e : Expr) (later : Bool) : Compile Lowered := do
  let v ← k.expr e
  if e.isName && later then snapshot v else pure v

/-- The slot of the value is either a copy, or it is not that of a variable. -/
def Safe (e : Expr) (later : Bool) (s : Compiler) (a : Slot) : Prop :=
  (e.isName && later) = true ∨ s.Unbound a

variable {levels : Nat} {e : Expr} {later : Bool} {W : Watch} {G : Uses}

theorem operand_orderly {v : Lowered} (h : Orderly W G s)
    (hrun : operand (lowering levels) e later s = .ok v s') :
    ∃ G', Orderly W G' s' ∧ v.Readable W G' := by
  obtain ⟨v₀, s₁, hexpr, hcopy⟩ := bind_ok_cases hrun
  obtain ⟨G₁, h₁, hv⟩ := ((lowering_leads levels).expr W G s e h).of_run hexpr
  exact (snapshotIf_leads h₁ hv).of_run hcopy

/-- The slot of an operand was handed out, and a copy is not in that of a variable. -/
theorem operand_slot {a : Slot} (h : Orderly W G s)
    (hrun : operand (lowering levels) e later s = .ok (.slot a) s') :
    a.index < s'.names.slots ∧ (Safe e later s' a → s'.Unbound a) := by
  obtain ⟨G', h', hreads⟩ := operand_orderly h hrun
  obtain ⟨use, huse, _⟩ := hreads.isValue
  refine ⟨h'.index_lt huse, fun hsafe => hsafe.elim (fun hname => ?_) id⟩
  obtain ⟨v, s₁, hexpr, hcopy⟩ := bind_ok_cases hrun
  obtain ⟨G₁, h₁, _⟩ := ((lowering_leads levels).expr W G s e h).of_run hexpr
  rw [if_pos hname] at hcopy
  cases v with
  | known value => cases hcopy
  | slot x =>
    cases hcopy
    -- all variables have slots that were handed out before
    intro t ht e he heq
    have hlt := h₁.index_lt (h₁.scopes.bindings t ht e he).slot
    rw [heq] at hlt
    exact absurd hlt (Nat.lt_irrefl _)

/-- The first argument is an operand before the others. -/
theorem argumentsFrom_cons {k : Lowering} {index : Nat} {rest : List Expr} {entries : Entries}
    (hrun : argumentsFrom k index (e :: rest) s = .ok entries s') :
    ∃ v s₁ later, operand k e (anyMayAssign rest) s = .ok v s₁ ∧
      argumentsFrom k (index + 1) rest s₁ = .ok later s' ∧
      entries = (argumentName index, v.source) :: later := by
  by_cases hspread : ∃ argument span, e = .spread argument span
  · obtain ⟨argument, span, rfl⟩ := hspread
    cases hrun
  · rw [argumentsFrom.eq_3 k index e rest fun argument span heq => hspread ⟨argument, span, heq⟩]
      at hrun
    obtain ⟨v₀, s₀, hexpr, hrun⟩ := bind_ok_cases hrun
    obtain ⟨v, s₁, hcopy, hrun⟩ := bind_ok_cases hrun
    obtain ⟨later, s₂, hrest, hrun⟩ := bind_ok_cases hrun
    cases hrun
    exact ⟨v, s₁, later, (bind_of_ok hexpr).trans hcopy, hrest, rfl⟩

end Compile

/-- Operands are evaluated from left to right, and the code of later ones does not write the slot
    that holds the value of an earlier one, if the value was copied or the slot is not that of a
    variable. The operator, or the call, then uses these values. -/
theorem earlier_operands_are_spared {s : Compiler} (hs : s.Regular) (levels : Nat) :
    (∀ op left right span v s', Compile.lowerBinary (lowering levels) op left right span s =
      .ok v s' →
      ∃ l s₁ r s₂, Compile.operand (lowering levels) left right.mayAssign s = .ok l s₁ ∧
        (lowering levels).expr right s₁ = .ok r s₂ ∧ Compile.applyBinary op l r span s₂ = .ok v s' ∧
        ∀ a, l = .slot a → Compile.Safe left right.mayAssign s₁ a → s₁.Spares a s₂) ∧
    ∀ index e rest entries s',
      Compile.argumentsFrom (lowering levels) index (e :: rest) s = .ok entries s' →
      ∃ v s₁ later, Compile.operand (lowering levels) e (anyMayAssign rest) s = .ok v s₁ ∧
        Compile.argumentsFrom (lowering levels) (index + 1) rest s₁ = .ok later s' ∧
        entries = (argumentName index, v.source) :: later ∧ s₁.Regular ∧
        ∀ a, v = .slot a → Compile.Safe e (anyMayAssign rest) s₁ a → s₁.Spares a s' := by
  obtain ⟨W, G, h⟩ := hs
  constructor
  · intro op left right span v s' hrun
    obtain ⟨l₀, s₀, hleft, hrun⟩ := Compile.bind_ok_cases hrun
    obtain ⟨l, s₁, hcopy, hrun⟩ := Compile.bind_ok_cases hrun
    obtain ⟨r, s₂, hright, hrun⟩ := Compile.bind_ok_cases hrun
    have hoperand : Compile.operand (lowering levels) left right.mayAssign s = .ok l s₁ :=
      (Compile.bind_of_ok hleft).trans hcopy
    refine ⟨l, s₁, r, s₂, hoperand, hright, hrun, ?_⟩
    rintro a rfl hsafe
    obtain ⟨hlt, hunbound⟩ := Compile.operand_slot h hoperand
    obtain ⟨G₁, h₁, _⟩ := Compile.operand_orderly h hoperand
    exact ((lowering_leads levels).expr _ G₁ s₁ right (h₁.sparing hlt (hunbound hsafe))).spares
      hright
  · intro index e rest entries s' hrun
    obtain ⟨v, s₁, later, hoperand, hrest, hentries⟩ := Compile.argumentsFrom_cons hrun
    obtain ⟨G₁, h₁, _⟩ := Compile.operand_orderly h hoperand
    refine ⟨v, s₁, later, hoperand, hrest, hentries, ⟨W, G₁, h₁⟩, ?_⟩
    rintro a rfl hsafe
    obtain ⟨hlt, hunbound⟩ := Compile.operand_slot h hoperand
    exact (Compile.argumentsFrom_leads (lowering_leads levels) rest (index + 1)
      (h₁.sparing hlt (hunbound hsafe))).spares hrest

/-- The state after `let x = 1;`. -/
def afterX : Compiler :=
  Compiler.after "pack" ["let x = 1;"]

/-- `x`, and `++x`. -/
def nameX : Expr := .ident ⟨"x", .origin⟩
@[inherit_doc nameX]
def updateX : Expr := .update .increment nameX true .origin

theorem earlier_operands_are_spared_update :
    ∃ a s₁ r s₂, Compile.operand (lowering 2) nameX updateX.mayAssign afterX = .ok (.slot a) s₁ ∧
      (lowering 2).expr updateX s₁ = .ok r s₂ ∧ s₁.Spares a s₂ := by
  have hcompiles : (EStateM.run' (Compile.lowerBinary (lowering 2) .add nameX updateX .origin)
      afterX).isSome = true := by
    decide +kernel
  have hslot : ((EStateM.run' (Compile.operand (lowering 2) nameX updateX.mayAssign) afterX).map
      fun v => (v.casesOn (fun _ => false) fun _ => true : Bool)) = some true := by
    decide +kernel
  cases hrun : Compile.lowerBinary (lowering 2) .add nameX updateX .origin afterX with
  | error d s' => simp [EStateM.run', EStateM.run, hrun] at hcompiles
  | ok v s' =>
    have hregular : afterX.Regular := regular_after "pack" ["let x = 1;"]
    obtain ⟨l, s₁, r, s₂, hoperand, hright, _, hspares⟩ :=
      (earlier_operands_are_spared hregular 2).1 _ _ _ _ _ _ hrun
    rw [EStateM.run', EStateM.run, hoperand] at hslot
    cases l with
    | known value => cases hslot
    | slot a => exact ⟨a, s₁, r, s₂, hoperand, hright, hspares a rfl (.inl (by decide))⟩

/-- Two assignments as operands. Each answers the slot of the variable. -/
def assigningText : String :=
  "let x = \"\"; let y = (x = \"a\") + (x = \"b\");"

/-- The left operand has the value that the right one assigns. -/
theorem left_operand_changes :
    (compileSources "pack" [assigningText]).diagnostics = [] ∧
    let m := (Machine.start (compileSources "pack" [assigningText]).program 512).after .entry
    (m.global? "y").map m.display = some "bb" := by
  decide +kernel

end PackScript
