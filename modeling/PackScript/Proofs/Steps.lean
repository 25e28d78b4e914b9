import PackScript.Compile.Script
import PackScript.Proofs.Table
import PackScript.Proofs.Uses.Basic

namespace PackScript

/-!
# Steps of the compiler

What the steps that all lowering rules are made of do to the state, by themselves.

* `Compile.bind_of_ok`, `Compile.bind_of_error`, `Compile.bind_ok_cases` — computations one after
  the other.
* `Names.Le`, `Scopes.Grows` — names are handed out, and scopes get further names.
* `Compiler.push` — the state with further instructions in the present unit.
* `Compile.openScope`, `Compiler.openPart`, `Compiler.openFunction`, `Compiler.closeIn` — scopes and
  units are opened and closed.
* `Compile.caseTest`, `Compile.caseMatch` — the part of a case of a switch before its statements.
-/

variable {s s' : Compiler} {chain : List ScopeId} {scope : ScopeId} {a b : Scopes} {name : String}

/-! ### Computations one after the other -/

namespace Compile

variable {α β : Type}

theorem bind_of_ok {c : Compile α} {f : α → Compile β} {a : α} (h : c s = .ok a s') :
    (c >>= f) s = f a s' := by
  show EStateM.bind c f s = f a s'
  rw [EStateM.bind, h]

theorem bind_of_error {c : Compile α} {f : α → Compile β} {d : Diagnostic} (h : c s = .error d s') :
    (c >>= f) s = .error d s' := by
  show EStateM.bind c f s = .error d s'
  rw [EStateM.bind, h]

/-- If both succeed, the first one does. -/
theorem bind_ok_cases {c : Compile α} {f : α → Compile β} {b : β} (h : (c >>= f) s = .ok b s') :
    ∃ a s1, c s = .ok a s1 ∧ f a s1 = .ok b s' := by
  cases hc : c s with
  | error d s1 => cases (bind_of_error hc).symm.trans h
  | ok a s1 => exact ⟨a, s1, rfl, (bind_of_ok hc).symm.trans h⟩

variable {s : Compiler}

/-- The step succeeds, with an answer and a state as they should be. -/
def Answers (s : Compiler) (c : Compile α) (Q : α → Compiler → Prop) : Prop :=
  ∃ a s', c s = .ok a s' ∧ Q a s'

theorem Answers.bind {c : Compile α} {f : α → Compile β} {Q : α → Compiler → Prop}
    {R : β → Compiler → Prop} (h : Answers s c Q)
    (hf : ∀ a s', Q a s' → Answers s' (f a) R) : Answers s (c >>= f) R := by
  obtain ⟨a, s', hc, hQ⟩ := h
  obtain ⟨b, s'', hb, hR⟩ := hf a s' hQ
  exact ⟨b, s'', (bind_of_ok hc).trans hb, hR⟩

/-- A step whose outcome is known comes first. -/
theorem Answers.ok {c : Compile α} {f : α → Compile β} {a : α} {R : β → Compiler → Prop}
    (hc : c s = .ok a s') (h : Answers s' (f a) R) : Answers s (c >>= f) R := by
  obtain ⟨b, s'', hb, hR⟩ := h
  exact ⟨b, s'', (bind_of_ok hc).trans hb, hR⟩

theorem Answers.pure {a : α} {Q : α → Compiler → Prop} (h : Q a s) :
    Answers s (Pure.pure a) Q :=
  ⟨a, s, rfl, h⟩

/-- One step for each item of a list. -/
theorem Answers.forM {items : List β} {f : β → Compile PUnit} (P : Compiler → Prop) (hP : P s)
    (hf : ∀ b s, P s → Answers s (f b) (fun _ => P)) :
    Answers s (items.forM f) (fun _ => P) := by
  induction items generalizing s with
  | nil => exact .pure hP
  | cons b rest ih => exact (hf b s hP).bind fun _ _ hP' => ih hP'

end Compile

/-! ### Names and scopes -/

/-- Names are only handed out, never taken back. -/
structure Names.Le (a b : Names) : Prop where
  slots : a.slots ≤ b.slots
  records : a.records ≤ b.records
  channels : a.channels ≤ b.channels
  units : a.units ≤ b.units

/-- Scopes get further names only, and of the old scopes only those of a chain and the global one
    get any. -/
structure Scopes.Grows (chain : List ScopeId) (a b : Scopes) : Prop where
  length : a.list.length ≤ b.list.length
  tables : ∀ i t, a.list[i]? = some t → ∃ t', b.list[i]? = some t' ∧ t <+: t' ∧
    (i ∉ chain → i ≠ globalScope → t' = t)

theorem Names.Le.refl (a : Names) : a.Le a :=
  ⟨Nat.le_refl _, Nat.le_refl _, Nat.le_refl _, Nat.le_refl _⟩

theorem Names.Le.trans {a b c : Names} (h : a.Le b) (h' : b.Le c) : a.Le c :=
  ⟨Nat.le_trans h.slots h'.slots, Nat.le_trans h.records h'.records,
    Nat.le_trans h.channels h'.channels, Nat.le_trans h.units h'.units⟩

theorem Scopes.Grows.refl (chain : List ScopeId) (a : Scopes) : a.Grows chain a :=
  ⟨Nat.le_refl _, fun _ t h => ⟨t, h, List.prefix_rfl, fun _ _ => rfl⟩⟩

theorem Scopes.Grows.trans {c : Scopes} (h : a.Grows chain b) (h' : b.Grows chain c) :
    a.Grows chain c := by
  refine ⟨Nat.le_trans h.length h'.length, fun i t ht => ?_⟩
  obtain ⟨t1, ht1, hpre1, heq1⟩ := h.tables i t ht
  obtain ⟨t2, ht2, hpre2, heq2⟩ := h'.tables i t1 ht1
  exact ⟨t2, ht2, hpre1.trans hpre2,
    fun hchain hglobal => (heq2 hchain hglobal).trans (heq1 hchain hglobal)⟩

theorem unitNames_has (h : s.units.names <+: s'.units.names) {n : String}
    (hn : s.units.has n = true) : s'.units.has n = true :=
  Table.has_iff_mem_names.2 (h.subset (Table.has_iff_mem_names.1 hn))

namespace Scopes

theorem mem_of_own? {b : Binding} (h : a.own? scope name = some b) :
    ∃ table ∈ a.list, (name, b) ∈ table := by
  obtain ⟨table, htable, hb⟩ := Option.bind_eq_some_iff.1 h
  exact ⟨table, List.mem_of_getElem? htable, Table.mem_of_find? hb⟩

theorem mem_of_resolve {b : Binding} (h : a.resolve chain name = some b) :
    ∃ table ∈ a.list, (name, b) ∈ table := by
  obtain ⟨scope, _, hb⟩ := List.exists_of_findSome?_eq_some h
  exact mem_of_own? hb

/-- A declaration finds the binding there, or makes the given one. What is found again is declared
    neither by `let` nor by `const`. -/
theorem declare_cases {a' : Scopes} {b b' : Binding} (h : a.declare scope name b = .ok (b', a')) :
    (a' = a ∧ b.kind ≠ .let_ ∧ b.kind ≠ .const_) ∨
      (b' = b ∧ ∃ table, a.list[scope]? = some table ∧ table.has name = false ∧
        a' = ⟨a.list.set scope (table.put name b)⟩) := by
  rw [declare] at h
  split at h
  · cases h
  · next table htable =>
    split at h
    · split at h
      · next hkinds =>
        cases h
        refine .inl ⟨rfl, ?_, ?_⟩
        · intro hkind
          simp [hkind, BindingKind.allowsRedeclaration] at hkinds
        · intro hkind
          simp [hkind, BindingKind.allowsRedeclaration] at hkinds
      · cases h
    · next hnone =>
      cases h
      exact .inr ⟨rfl, table, htable, Table.find?_eq_none_iff.1 hnone, rfl⟩

/-- One more name in a scope that is seen. -/
theorem grows_set {table : Table Binding} (b : Binding)
    (hscope : scope ∈ chain ∨ scope = globalScope) (htable : a.list[scope]? = some table)
    (hnew : table.has name = false) : a.Grows chain ⟨a.list.set scope (table.put name b)⟩ := by
  refine ⟨by simp, fun i u hu => ?_⟩
  have hi : i < a.list.length := (List.getElem?_eq_some_iff.1 hu).1
  by_cases heq : scope = i
  · subst heq
    obtain rfl : u = table := Option.some.inj (hu.symm.trans htable)
    refine ⟨Table.put u name b, by simp [hi], ?_, fun hchain hglobal => ?_⟩
    · exact Table.prefix_put b hnew
    · exact absurd hscope (not_or.2 ⟨hchain, hglobal⟩)
  · exact ⟨u, by simpa [List.getElem?_set, heq] using hu, List.prefix_rfl, fun _ _ => rfl⟩

/-- A new scope has no names. -/
theorem own?_create (a : Scopes) (scope : ScopeId) (name : String) :
    a.create.2.own? scope name = a.own? scope name := by
  simp only [own?, get?, create, List.getElem?_append]
  split
  · rfl
  · next hlen =>
    rw [List.getElem?_eq_none (Nat.le_of_not_lt hlen)]
    cases scope - a.list.length <;> rfl

/-- A further scope binds no names. -/
theorem own?_create_self (a : Scopes) (name : String) :
    a.create.2.own? a.create.1 name = none := by
  rw [own?_create, own?, get?, create, List.getElem?_eq_none (Nat.le_refl _)]
  rfl

/-- The innermost scope comes first. -/
theorem resolve_concat (a : Scopes) (chain : List ScopeId) (scope : ScopeId) (name : String) :
    a.resolve (chain ++ [scope]) name = (a.own? scope name).or (a.resolve chain name) := by
  rw [resolve, resolve, List.reverse_append, List.findSome?_append]
  simp

/-- A name that is looked up through a new scope. -/
theorem resolve_create (a : Scopes) (chain : List ScopeId) (name : String) :
    a.create.2.resolve (chain ++ [a.create.1]) name = a.resolve chain name := by
  rw [resolve_concat, own?_create_self, Option.none_or, resolve, resolve]
  exact congrArg (List.findSome? · _) (funext fun scope => own?_create a scope name)

theorem grows_create (a : Scopes) (chain : List ScopeId) : a.Grows chain a.create.2 := by
  refine ⟨by simp [create], fun i u hu => ⟨u, ?_, List.prefix_rfl, fun _ _ => rfl⟩⟩
  have hi : i < a.list.length := (List.getElem?_eq_some_iff.1 hu).1
  simpa [create, List.getElem?_append_left hi] using hu

end Scopes

theorem Scopes.Grows.of_create (h : a.create.2.Grows (chain ++ [a.create.1]) b) :
    a.Grows chain b := by
  have hstart := a.grows_create chain
  refine ⟨Nat.le_trans hstart.length h.length, fun i u hu => ?_⟩
  obtain ⟨u1, hu1, hpre1, heq1⟩ := hstart.tables i u hu
  obtain ⟨u2, hu2, hpre2, heq2⟩ := h.tables i u1 hu1
  refine ⟨u2, hu2, hpre1.trans hpre2, fun hchain hglobal => ?_⟩
  have hi : i < a.list.length := (List.getElem?_eq_some_iff.1 hu).1
  have hne : i ≠ a.create.1 := Nat.ne_of_lt hi
  exact (heq2 (by simp [hchain, hne]) hglobal).trans (heq1 hchain hglobal)

/-- More scopes may get names. -/
theorem Scopes.Grows.mono {chain' : List ScopeId} (h : a.Grows chain b) (hchain : chain ⊆ chain') :
    a.Grows chain' b := by
  refine ⟨h.length, fun i u hu => ?_⟩
  obtain ⟨u', hu', hpre, heq⟩ := h.tables i u hu
  exact ⟨u', hu', hpre, fun hout => heq fun hi => hout (hchain hi)⟩

/-- Other scopes have the same names as before. -/
theorem Scopes.Grows.own?_eq (h : a.Grows chain b) (hscope : scope < a.list.length)
    (hchain : scope ∉ chain) (hglobal : scope ≠ globalScope) (name : String) :
    b.own? scope name = a.own? scope name := by
  have htable := List.getElem?_eq_getElem hscope
  obtain ⟨t', ht', _, heq⟩ := h.tables scope _ htable
  have hsame : b.list[scope]? = a.list[scope]? := by rw [ht', heq hchain hglobal, htable]
  rw [own?, own?, get?, get?, hsame]

/-! ### Instructions -/

namespace Compiler

/-- The state with further instructions in the present unit. -/
def push (s : Compiler) (is : List Instr) : Compiler :=
  { s with current.instrs := is.foldl Array.push s.current.instrs }

theorem push_append (s : Compiler) (is js : List Instr) :
    s.push (is ++ js) = (s.push is).push js := by
  simp [push, List.foldl_append]

theorem toList_instrs_push (s : Compiler) (is : List Instr) :
    (s.push is).current.instrs.toList = s.current.instrs.toList ++ is := by
  simp [push]

end Compiler

namespace Compile

/-- Writing entries emits one instruction for each. -/
theorem forM_set_entry (c : Channel) (entries : Entries) (s : Compiler) :
    (entries.forM fun (name, source) => set (.entry c name) source) s =
      .ok ⟨⟩ (s.push (entries.map fun e => .set .always (.entry c e.1) e.2)) := by
  induction entries generalizing s with
  | nil => rfl
  | cons e rest ih => exact ih (s.push [.set .always (.entry c e.1) e.2])

/-- A channel is filled with one instruction for each entry, and one that empties it. -/
theorem fillChannel_run (entries : Entries) (s : Compiler) :
    fillChannel entries s = .ok ⟨s.names.channels⟩
      ({ s with names.channels := s.names.channels + 1 }.push
        (fillCode ⟨s.names.channels⟩ entries)) := by
  refine (bind_of_ok rfl).trans ((bind_of_ok rfl).trans ?_)
  exact bind_of_ok (forM_set_entry _ entries _)

end Compile

/-! ### Scopes, loops and units inside of units -/

namespace Compile

variable {α : Type}

theorem ensuring_run (body : Compile α) (leave : Compiler → Compiler) (s : Compiler) :
    ensuring body (modify leave) s = match body s with
      | .ok a s' => .ok a (leave s')
      | .error d s' => .error d (leave s') := by
  cases hbody : body s with
  | ok a s' =>
    have hbracket : bracket body (modify leave) s = .ok (a, ()) (leave s') := by
      rw [bracket, hbody]
      rfl
    exact bind_of_ok hbracket
  | error d s' =>
    have hbracket : bracket body (modify leave) s = .error d (leave s') := by
      rw [bracket, hbody]
      rfl
    exact bind_of_error hbracket

/-- The state with a further scope in the present unit. -/
def openScope (s : Compiler) : Compiler :=
  { s with scopes := s.scopes.create.2, current.scopes := s.current.scopes ++ [s.scopes.create.1] }

end Compile

/-- The context inside of further switches and loops. -/
def FunctionContext.enter (c : FunctionContext) (breakables loops : Nat) : FunctionContext :=
  { c with breakables := c.breakables + breakables, loops := c.loops + loops }

/-- The context outside of the innermost switches and loops. -/
def FunctionContext.leave (c : FunctionContext) (breakables loops : Nat) : FunctionContext :=
  { c with breakables := c.breakables - breakables, loops := c.loops - loops }

theorem FunctionContext.leave_enter (c : FunctionContext) (breakables loops : Nat) :
    (c.enter breakables loops).leave breakables loops = c := by
  simp [enter, leave]

/-- The present unit is finished, and the one of another state goes on. -/
def Compiler.closeIn (s2 s : Compiler) : Compiler :=
  { s2 with
    units := s2.units.put s2.current.name s2.current.finish
    current := s.current, parents := s.parents, context := s.context, outer := s.outer }

/-- The state after a part of the present unit was opened. -/
def Compiler.openPart (s : Compiler) (kind : UnitKind) (opensScope : Bool) : Compiler :=
  { s with
    names.units := s.names.units + 1
    scopes := if opensScope then s.scopes.create.2 else s.scopes
    current := s.current.child (generatedUnit s.names.units) kind
      (if opensScope then some s.scopes.create.1 else none)
    parents := s.current :: s.parents }

theorem UnitKind.ne_script {kind : UnitKind} (h : kind.isPart = true) : kind ≠ .script := by
  rintro rfl
  cases h

namespace Compile

theorem closeUnit_run {parent : Draft} {parents : List Draft} (h : s.parents = parent :: parents) :
    closeUnit s = .ok s.current.name
      { s with
        units := s.units.put s.current.name s.current.finish
        current := parent, parents := parents } := by
  refine (bind_of_ok rfl).trans ?_
  rw [h]
  rfl

/-- Finds out whether a case of a switch is the first one that matches, from the value of its
    test. -/
def caseMatch (subject matched test : Slot) : Compile Slot := do
  let equal ← freshSlot
  callLibrary .equals
    [("left", .addressOf subject), ("right", .addressOf test), ("result", .addressOf equal),
     ("operation", .text BinaryOp.strictEq.text)]
  let hit ← slotOf (.boolean false)
  raise ((isTrue equal).and (.field matched "value") (.bool false)) hit
  raise (isTrue hit) matched
  return hit

/-- The part of a case before its statements. -/
def caseTest (k : Lowering) (subject matched : Slot) (test : Expr) : Compile Slot := do
  caseMatch subject matched (← exprSlot k test)

theorem lowerTestedCase_eq (k : Lowering) (subject matched : Slot) (test : Expr)
    (body : List Stmt) :
    lowerTestedCase k subject matched test body =
      caseTest k subject matched test >>= fun hit => lowerCase k (isTrue hit) body := by
  simp only [lowerTestedCase, caseTest, caseMatch, bind_assoc, pure_bind]

end Compile

end PackScript
