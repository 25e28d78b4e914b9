import PackScript.Nbt.Basic
import PackScript.Proofs.Table

namespace PackScript.Nbt

/-!
# Writes to storage trees

A storage is a compound of compounds, and what its entries must look like depends on their names.

* `Entries P v` — `v` is a compound, and every entry of it meets `P` for its name.
* `Entries.setPath` — a write below one entry succeeds, and keeps all of them as they should be, if
  the write below that entry does. Deeper paths are taken one key at a time.
* `setPath_cons`, `Entries.ofSetPath` — the same for a write of which only is known that it
  succeeded.
-/

/-- A compound all of whose entries are as their names say. -/
def Entries (P : String → Nbt → Prop) (v : Nbt) : Prop :=
  (∃ entries, v = .compound entries) ∧ ∀ name w, v.get? name = some w → P name w

section

variable {P Q : String → Nbt → Prop} {v w child : Nbt} {key name : String} {path : List String}
  {value : Nbt}

theorem Entries.mono (h : v.Entries P) (hPQ : ∀ name w, P name w → Q name w) : v.Entries Q :=
  ⟨h.1, fun name w hw => hPQ name w (h.2 name w hw)⟩

theorem entries_empty (P : String → Nbt → Prop) : empty.Entries P :=
  ⟨⟨[], rfl⟩, fun _ _ h => (nomatch h)⟩

/-- The entries of a compound may be checked one by one. -/
theorem entries_compound {entries : List (String × Nbt)} (h : ∀ e ∈ entries, P e.1 e.2) :
    (Nbt.compound entries).Entries P :=
  ⟨⟨entries, rfl⟩, fun _ _ hw => h _ (Table.mem_of_find? hw)⟩

/-- What is below a key, or would be created there. -/
theorem Entries.getD (h : v.Entries P) (hP : ∀ w, P key w → w.Entries Q) :
    ((v.get? key).getD empty).Entries Q := by
  cases hw : v.get? key with
  | none => exact entries_empty Q
  | some w => exact hP w (h.2 key w hw)

/-- A write below one entry of a compound. -/
theorem Entries.setPath (h : v.Entries P)
    (hset : ((v.get? key).getD empty).setPath path value = some child) (hP : P key child) :
    ∃ v', v.setPath (key :: path) value = some v' ∧ v'.Entries P ∧
      ∀ name, v'.get? name = if key = name then some child else v.get? name := by
  obtain ⟨⟨entries, rfl⟩, hentries⟩ := h
  have hget : ∀ name, (Nbt.compound (Table.put entries key child)).get? name =
      if key = name then some child else Table.find? entries name :=
    fun name => Table.find?_put entries key name child
  refine ⟨.compound (Table.put entries key child), ?_, ⟨⟨_, rfl⟩, fun name w hw => ?_⟩, hget⟩
  · have hset' : ((Table.find? entries key).getD empty).setPath path value = some child := hset
    rw [Nbt.setPath, hset']
    rfl
  · rw [hget] at hw
    split at hw
    · next hname =>
      cases hw
      exact hname ▸ hP
    · exact hentries name w hw

/-- A write of a whole entry. -/
theorem Entries.setEntry (h : v.Entries P) (hP : P key value) :
    ∃ v', v.setPath [key] value = some v' ∧ v'.Entries P ∧
      ∀ name, v'.get? name = if key = name then some value else v.get? name :=
  h.setPath rfl hP

/-- A write two keys deep. -/
theorem Entries.setEntry₂ {inner : String} (h : v.Entries P) (hQ : ∀ w, P key w → w.Entries Q)
    (hvalue : Q inner value) (hP : ∀ w, w.Entries Q → P key w) :
    ∃ v' child, v.setPath [key, inner] value = some v' ∧ v'.Entries P ∧
      (∀ name, v'.get? name = if key = name then some child else v.get? name) ∧
      ∀ name, child.get? name =
        if inner = name then some value else ((v.get? key).getD empty).get? name := by
  obtain ⟨child, hset, hchild, hget⟩ := (h.getD hQ).setEntry hvalue
  obtain ⟨v', hset', hentries, hget'⟩ := h.setPath hset (hP child hchild)
  exact ⟨v', child, hset', hentries, hget', hget⟩

/-- What a write below an entry does, if it succeeds. -/
theorem setPath_cons {v' : Nbt} (h : v.setPath (key :: path) value = some v') :
    ∃ child, ((v.get? key).getD empty).setPath path value = some child ∧
      (∃ entries, v' = .compound entries) ∧
      ∀ name, v'.get? name = if key = name then some child else v.get? name := by
  cases v with
  | compound entries =>
    rw [Nbt.setPath] at h
    obtain ⟨child, hchild, rfl⟩ := Option.map_eq_some_iff.1 h
    exact ⟨child, hchild, ⟨_, rfl⟩, fun name => Table.find?_put entries key name child⟩
  | _ => cases h

/-- A write below one entry keeps all of them as they should be, if it does so below the entry. -/
theorem Entries.ofSetPath {v' : Nbt} (h : v.Entries P)
    (hset : v.setPath (key :: path) value = some v')
    (hP : ∀ child, ((v.get? key).getD empty).setPath path value = some child → P key child) :
    v'.Entries P := by
  obtain ⟨child, hchild, hcompound, hget⟩ := setPath_cons hset
  refine ⟨hcompound, fun name w hw => ?_⟩
  rw [hget] at hw
  split at hw
  · next hname =>
    cases hw
    exact hname ▸ hP child hchild
  · exact h.2 name w hw

theorem getPath_cons (v : Nbt) (key : String) (path : List String) :
    v.getPath (key :: path) = (v.get? key).bind (·.getPath path) := by
  rw [getPath]
  cases v.get? key <;> rfl

theorem getPath_single (v : Nbt) (key : String) : v.getPath [key] = v.get? key := by
  rw [getPath_cons]
  cases v.get? key <;> rfl

theorem getPath_pair (v : Nbt) (key name : String) :
    v.getPath [key, name] = (v.get? key).bind (·.get? name) := by
  rw [getPath_cons]
  cases v.get? key with
  | none => rfl
  | some w => exact getPath_single w name

end

end PackScript.Nbt
