import Mathlib
import PackScript.Table

namespace PackScript.Table

/-!
# Reading and writing tables

A table is read through `find?` and written through `put`. The lemmas say what a write does to
each view of the table: its entries, its names and the answers of `find?`.

* `find?_put` — a write changes the entry of its own name only.
* `put_of_not_has` — a new name goes to the end, so the old table is a prefix of the new one.
* `names_put` — the order of names is the order of their first writes.
-/

variable {α : Type}

/-! ### Entries -/

theorem mem_of_find? {t : Table α} {key : String} {a : α} (h : t.find? key = some a) :
    (key, a) ∈ t := by
  induction t with
  | nil => simp [find?] at h
  | cons e rest ih =>
    obtain ⟨name, b⟩ := e
    rw [find?] at h
    split at h
    · next hname =>
      cases h
      simp [hname]
    · exact List.mem_cons_of_mem _ (ih h)

theorem has_iff_mem_names {t : Table α} {key : String} : t.has key = true ↔ key ∈ t.names := by
  induction t with
  | nil => simp [has, find?, names]
  | cons e rest ih =>
    obtain ⟨name, b⟩ := e
    simp only [has, names] at ih ⊢
    rw [find?, List.map_cons, List.mem_cons]
    split
    · next hname => simp [hname]
    · next hname => rw [ih]; simp [Ne.symm hname]

theorem has_of_mem {t : Table α} {e : String × α} (h : e ∈ t) : t.has e.1 = true :=
  has_iff_mem_names.2 (List.mem_map_of_mem h)

theorem find?_eq_none_iff {t : Table α} {key : String} :
    t.find? key = none ↔ t.has key = false := by
  simp [has, Option.isSome_eq_false_iff]

/-! ### Writes -/

theorem put_of_not_has {t : Table α} {key : String} (a : α) (h : t.has key = false) :
    t.put key a = t ++ [(key, a)] := by
  induction t with
  | nil => rfl
  | cons e rest ih =>
    obtain ⟨name, b⟩ := e
    by_cases hname : name = key
    · simp [has, find?, hname] at h
    · have hrest : has rest key = false := by simpa [has, find?, hname] using h
      rw [put, if_neg hname, ih hrest]
      rfl

theorem prefix_put {t : Table α} {key : String} (a : α) (h : t.has key = false) :
    t <+: t.put key a :=
  put_of_not_has a h ▸ List.prefix_append t [(key, a)]

theorem names_put (t : Table α) (key : String) (a : α) :
    (t.put key a).names = if t.has key then t.names else t.names ++ [key] := by
  induction t with
  | nil => rfl
  | cons e rest ih =>
    obtain ⟨name, b⟩ := e
    simp only [names] at ih
    by_cases hname : name = key
    · simp [put, has, find?, names, hname]
    · have hhas : has ((name, b) :: rest) key = has rest key := by simp [has, find?, hname]
      rw [put, if_neg hname, names, List.map_cons, ih, hhas, names]
      split <;> rfl

theorem names_prefix_put (t : Table α) (key : String) (a : α) :
    t.names <+: (t.put key a).names := by
  rw [names_put]
  split
  · exact List.prefix_rfl
  · exact List.prefix_append _ _

/-- An entry after a write is the one that was written, or it was there before. -/
theorem mem_put {t : Table α} {key : String} {a : α} {e : String × α} (h : e ∈ t.put key a) :
    e = (key, a) ∨ e ∈ t := by
  induction t with
  | nil => simpa [put] using h
  | cons e' rest ih =>
    obtain ⟨name, b⟩ := e'
    rw [put] at h
    split at h
    · next hname =>
      rcases List.mem_cons.1 h with rfl | h
      · exact .inl (by rw [hname])
      · exact .inr (List.mem_cons_of_mem _ h)
    · rcases List.mem_cons.1 h with rfl | h
      · exact .inr (List.mem_cons_self ..)
      · exact (ih h).imp_right (List.mem_cons_of_mem _)

theorem mem_put_self (t : Table α) (key : String) (a : α) : (key, a) ∈ t.put key a := by
  induction t with
  | nil => simp [put]
  | cons e rest ih =>
    obtain ⟨name, b⟩ := e
    by_cases hname : name = key
    · simp [put, hname]
    · simp [put, hname, ih]

/-- A write changes the entry of its own name only. -/
theorem find?_put (t : Table α) (key name : String) (a : α) :
    (t.put key a).find? name = if key = name then some a else t.find? name := by
  induction t with
  | nil => simp [put, find?]
  | cons e rest ih =>
    obtain ⟨other, b⟩ := e
    by_cases hother : other = key
    · subst hother
      by_cases hname : other = name <;> simp [put, find?, hname]
    · by_cases hname : key = name
      · subst hname
        simp [put, find?, hother, ih]
      · simp [put, find?, hother, ih, hname]

@[simp] theorem find?_put_self (t : Table α) (key : String) (a : α) :
    (t.put key a).find? key = some a := by
  simp [find?_put]

theorem find?_put_of_ne {key name : String} (t : Table α) (a : α) (h : key ≠ name) :
    (t.put key a).find? name = t.find? name := by
  simp [find?_put, h]

theorem has_put (t : Table α) (key name : String) (a : α) :
    (t.put key a).has name = (decide (key = name) || t.has name) := by
  by_cases h : key = name <;> simp [has, find?_put, h]

theorem filter_put {t : Table α} {keep : String → Bool} {key : String} (a : α)
    (h : keep key = false) :
    List.filter (fun e => keep e.1) (t.put key a) = List.filter (fun e => keep e.1) t := by
  induction t with
  | nil => simp [put, h]
  | cons e rest ih =>
    obtain ⟨name, b⟩ := e
    rw [put]
    split
    · next heq => simp [heq, h]
    · simp only [List.filter_cons, ih]

/-! ### Prefixes -/

theorem find?_filter (t : Table α) (keep : String → Bool) (key : String) :
    Table.find? (List.filter (fun e => keep e.1) t) key =
      if keep key then t.find? key else none := by
  induction t with
  | nil => simp [find?]
  | cons e rest ih =>
    by_cases hname : e.1 = key
    · cases hkeep : keep key <;> simp_all [find?]
    · cases hkeep : keep e.1 <;> simp_all [find?]

theorem has_of_prefix {t t' : Table α} {key : String} (h : t <+: t') (hkey : t.has key = true) :
    t'.has key = true := by
  rw [has_iff_mem_names] at hkey ⊢
  exact (h.map (·.1)).subset hkey

/-- Names that a table has before others are found in the longer one as well. -/
theorem find?_of_prefix {t t' : Table α} {key : String} {a : α} (h : t <+: t')
    (hkey : t.find? key = some a) : t'.find? key = some a := by
  obtain ⟨more, rfl⟩ := h
  induction t with
  | nil => simp [find?] at hkey
  | cons e rest ih =>
    obtain ⟨name, b⟩ := e
    rw [find?] at hkey
    rw [List.cons_append, find?]
    split
    · next hname => rwa [if_pos hname] at hkey
    · next hname => exact ih (by rwa [if_neg hname] at hkey)

end PackScript.Table
