import PackScript.Proofs.Machine.Tree
import PackScript.Proofs.Uses.Library

namespace PackScript

/-!
# Writes by path

A write goes down a path key by key, and compounds that are missing are created on the way. It is
not known at the start whether it will come through.

* `Nbt.writeDown` — the write as it goes: what was created is kept, also where the write stops.
* `Nbt.Blocked` — a node on the way is there and is no compound.
* `Nbt.writeDown_eq` — nothing is ever created above a node that stops the write.
* `setPath_is_lawful` — when a write is refused, and what it does to all reads of the tree.
* `Nbt.appendDown` — an item is added as it goes: a list that is missing is created first.
* `appendPath_is_lawful` — when an item is refused, and what adding it does to all reads.
-/

theorem Table.put_of_find? {α : Type} {t : Table α} {key : String} {a : α}
    (h : t.find? key = some a) : t.put key a = t := by
  induction t with
  | nil => cases h
  | cons e rest ih =>
    obtain ⟨name, b⟩ := e
    rw [find?] at h
    rw [put]
    split
    · next hname =>
      rw [if_pos hname] at h
      cases h
      rfl
    · next hname => rw [ih (by rwa [if_neg hname] at h)]

theorem Table.put_put {α : Type} (t : Table α) (key : String) (a b : α) :
    (t.put key a).put key b = t.put key b := by
  induction t with
  | nil => simp [put]
  | cons e rest ih =>
    rw [put]
    split
    · next hname => simp [put, hname]
    · next hname => simp [put, hname, ih]

namespace Nbt

/-- Writes a node at a path, step by step: a compound that is missing is put into its parent before
    the write goes on below it. Answers whether the write came through, and the tree that is
    left. -/
def writeDown (node : Nbt) : List String → Nbt → Bool × Nbt
  | [], value => (true, value)
  | key :: path, value => match node with
    | .compound entries =>
      let (done, child) := ((Table.find? entries key).getD empty).writeDown path value
      (done, .compound (Table.put entries key child))
    | node => (false, node)

/-- Some node above the end of the path is there and is no compound. -/
def Blocked (node : Nbt) (path : List String) : Prop :=
  ∃ before key rest found, path = before ++ key :: rest ∧ node.getPath before = some found ∧
    ∀ entries, found ≠ .compound entries

variable {node after value : Nbt} {key : String} {path : List String}

/-! ### Refused writes -/

theorem not_blocked_nil (node : Nbt) : ¬ node.Blocked [] := by
  rintro ⟨before, key, rest, found, hpath, _⟩
  cases before <;> cases hpath

/-- The first key of a path leads on from a compound. -/
theorem blocked_cons (entries : List (String × Nbt)) (key : String) (path : List String) :
    (Nbt.compound entries).Blocked (key :: path) ↔
      ∃ child, Table.find? entries key = some child ∧ child.Blocked path := by
  constructor
  · rintro ⟨before, key', rest, found, hpath, hfound, hleaf⟩
    cases before with
    | nil =>
      cases hfound
      exact absurd rfl (hleaf entries)
    | cons first before =>
      obtain ⟨rfl, rfl⟩ := List.cons.inj hpath
      rw [getPath_cons] at hfound
      obtain ⟨child, hchild, hfound⟩ := Option.bind_eq_some_iff.1 hfound
      exact ⟨child, hchild, before, key', rest, found, rfl, hfound, hleaf⟩
  · rintro ⟨child, hchild, before, key', rest, found, rfl, hfound, hleaf⟩
    refine ⟨key :: before, key', rest, found, rfl, ?_, hleaf⟩
    rw [getPath_cons]
    exact Option.bind_eq_some_iff.2 ⟨child, hchild, hfound⟩

/-- Below a compound that is just created, a write comes through. -/
theorem setPath_empty (path : List String) (value : Nbt) :
    ∃ after, empty.setPath path value = some after := by
  induction path with
  | nil => exact ⟨value, rfl⟩
  | cons key path ih =>
    obtain ⟨child, hchild⟩ := ih
    have hset : ((Table.find? [] key).getD empty).setPath path value = some child := hchild
    refine ⟨.compound (Table.put [] key child), ?_⟩
    rw [empty, setPath, hset]
    rfl

theorem setPath_eq_none_iff : node.setPath path value = none ↔ node.Blocked path := by
  induction path generalizing node with
  | nil => simp [setPath, not_blocked_nil]
  | cons key path ih =>
    cases node with
    | compound entries =>
      rw [blocked_cons, setPath, Option.map_eq_none_iff]
      cases hchild : Table.find? entries key with
      | none =>
        obtain ⟨after, hafter⟩ := setPath_empty path value
        simp [hafter]
      | some child => simp [ih]
    | _ => exact ⟨fun _ => ⟨[], key, path, _, rfl, rfl, by simp⟩, fun _ => rfl⟩

/-- The write that goes step by step leaves the tree as it is, unless it comes through. -/
theorem writeDown_eq (node value : Nbt) (path : List String) :
    node.writeDown path value = match node.setPath path value with
      | some after => (true, after)
      | none => (false, node) := by
  induction path generalizing node with
  | nil => rfl
  | cons key path ih =>
    cases node with
    | compound entries =>
      rw [writeDown, setPath, ih]
      cases hset : ((Table.find? entries key).getD empty).setPath path value with
      | some child => rfl
      | none =>
        -- what stops the write was there before, so putting it back changes nothing
        cases hchild : Table.find? entries key with
        | none =>
          obtain ⟨after, hafter⟩ := setPath_empty path value
          rw [hchild, Option.getD_none, hafter] at hset
          cases hset
        | some child =>
          show (false, Nbt.compound (Table.put entries key child)) = _
          rw [Table.put_of_find? hchild]
          rfl
    | _ => rfl

/-! ### Reads after a write -/

theorem getPath_setPath (h : node.setPath path value = some after) :
    after.getPath path = some value := by
  induction path generalizing node after with
  | nil => exact h.symm
  | cons key path ih =>
    obtain ⟨child, hchild, _, hget⟩ := setPath_cons h
    rw [getPath_cons, hget, if_pos rfl]
    exact ih hchild

theorem getPath_empty (path : List String) (h : path ≠ []) : empty.getPath path = none := by
  cases path with
  | nil => exact absurd rfl h
  | cons key path => rfl

/-- A read that neither passes the place of the write nor ends above it is as before. -/
theorem getPath_setPath_apart (h : node.setPath path value = some after) {other : List String}
    (habove : ¬ other <+: path) (hbelow : ¬ path <+: other) :
    after.getPath other = node.getPath other := by
  induction path generalizing node after other with
  | nil => exact absurd (List.nil_prefix) hbelow
  | cons key path ih =>
    cases other with
    | nil => exact absurd (List.nil_prefix) habove
    | cons name other =>
      obtain ⟨child, hchild, _, hget⟩ := setPath_cons h
      rw [getPath_cons, getPath_cons, hget]
      split
      · next hname =>
        subst hname
        have habove' : ¬ other <+: path := fun hp => habove (List.cons_prefix_cons.2 ⟨rfl, hp⟩)
        have hbelow' : ¬ path <+: other := fun hp => hbelow (List.cons_prefix_cons.2 ⟨rfl, hp⟩)
        have hread := ih hchild habove' hbelow'
        cases hold : node.get? key with
        | some old =>
          rw [hold, Option.getD_some] at hread
          exact hread
        | none =>
          have hother : other ≠ [] := fun hnil => habove' (hnil ▸ List.nil_prefix)
          rw [hold, Option.getD_none, getPath_empty other hother] at hread
          exact hread
      · rfl

/-- On the way down, each compound gets the next key: in its place if it was there, and behind all
    others if it was not. One that is created counts as empty before. -/
theorem names_setPath {before rest : List String} (hpath : path = before ++ key :: rest)
    (h : node.setPath path value = some after) :
    ∃ entries child, (node.getPath before).getD empty = .compound entries ∧
      after.getPath before = some (.compound (Table.put entries key child)) := by
  induction before generalizing node after path with
  | nil =>
    subst hpath
    cases node with
    | compound entries =>
      rw [List.nil_append, setPath] at h
      obtain ⟨child, _, rfl⟩ := Option.map_eq_some_iff.1 h
      exact ⟨entries, child, rfl, rfl⟩
    | _ => cases h
  | cons first before ih =>
    subst hpath
    obtain ⟨below, hbelow, _, hget⟩ := setPath_cons h
    obtain ⟨entries, child, hentries, hafter⟩ := ih rfl hbelow
    refine ⟨entries, child, ?_, ?_⟩
    · rw [getPath_cons]
      cases hfirst : node.get? first with
      | some old => rwa [hfirst] at hentries
      | none =>
        -- all of this part of the path is created
        rw [hfirst, Option.getD_none] at hentries
        cases before with
        | nil => exact hentries
        | cons second before => exact hentries
    · rw [getPath_cons, hget, if_pos rfl]
      exact hafter

end Nbt

/-- **A write by path is done as a whole or not at all.** It is refused exactly if some node above
    the end of the path is there and is no compound. Then the tree is left as it was, although
    missing compounds are created on the way, and a machine that writes stops with all its storages
    as they were. Otherwise the value is read at the path. What is read at a path that is neither
    above nor below is as before. In each compound on the way the keys that were there stay in their
    order, and a new key goes to the end. -/
theorem setPath_is_lawful (tree value : Nbt) (path : List String) :
    (tree.setPath path value = none ↔ tree.Blocked path) ∧
    (tree.Blocked path → tree.writeDown path value = (false, tree) ∧
      ∀ m st, Machine.storage m st = tree →
        Run.write st path value m = .error (.storage (".".intercalate path) .notCompound) m) ∧
    ∀ after, tree.setPath path value = some after →
      tree.writeDown path value = (true, after) ∧ after.getPath path = some value ∧
      (∀ other, ¬ other <+: path → ¬ path <+: other →
        after.getPath other = tree.getPath other) ∧
      ∀ before key rest, path = before ++ key :: rest → ∃ old new : Table Nbt,
        (tree.getPath before).getD .empty = .compound old ∧
        after.getPath before = some (.compound new) ∧
        new.names = if old.has key then old.names else old.names ++ [key] := by
  refine ⟨Nbt.setPath_eq_none_iff, fun hblocked => ?_, fun after hset => ?_⟩
  · have hset : tree.setPath path value = none := Nbt.setPath_eq_none_iff.2 hblocked
    refine ⟨by rw [Nbt.writeDown_eq, hset], fun m st hm => ?_⟩
    rw [Run.write_run, hm, hset]
  · refine ⟨by rw [Nbt.writeDown_eq, hset], Nbt.getPath_setPath hset,
      fun other => Nbt.getPath_setPath_apart hset, fun before key rest hpath => ?_⟩
    obtain ⟨old, child, hold, hnew⟩ := Nbt.names_setPath hpath hset
    exact ⟨old, Table.put old key child, hold, hnew, Table.names_put old key child⟩

/-- A write below a leaf that was there, and one below compounds that are missing. -/
theorem setPath_is_lawful_leaf :
    let tree : Nbt := .compound [("a", .int 1), ("b", .empty)]
    tree.writeDown ["a", "x"] (.int 2) = (false, tree) ∧
    ∃ after, tree.setPath ["b", "x", "y"] (.int 2) = some after ∧
      after.getPath ["b", "x", "y"] = some (.int 2) ∧ after.getPath ["a"] = some (.int 1) := by
  intro tree
  have hblocked : tree.Blocked ["a", "x"] := ⟨["a"], "x", [], .int 1, rfl, rfl, nofun⟩
  refine ⟨((setPath_is_lawful tree (.int 2) ["a", "x"]).2.1 hblocked).1, _, rfl, ?_⟩
  obtain ⟨_, hread, hapart, _⟩ := (setPath_is_lawful tree (.int 2) ["b", "x", "y"]).2.2 _ rfl
  exact ⟨hread, hapart ["a"] (by decide) (by decide)⟩

/-! ### Items added by path -/

namespace Nbt

variable {node found made value : Nbt} {key : String} {path : List String}

/-- Adds an item to the list at a path that is there. -/
def pushDown (node : Nbt) : List String → Nbt → Bool × Nbt
  | [], value => match node with
    | .list items => (true, .list (items ++ [value]))
    | node => (false, node)
  | key :: path, value => match node with
    | .compound entries => match Table.find? entries key with
      | some child =>
        let (done, child) := child.pushDown path value
        (done, .compound (Table.put entries key child))
      | none => (false, .compound entries)
    | node => (false, node)

/-- Adds an item step by step: a list that is missing is created, and then the path is gone down
    again. Answers whether the item was added, and the tree that is left. -/
def appendDown (node : Nbt) (path : List String) (value : Nbt) : Bool × Nbt :=
  match node.getPath path, node.writeDown path (.list []) with
  | some _, _ => node.pushDown path value
  | none, (true, made) => made.pushDown path value
  | none, (false, left) => (false, left)

theorem exists_child_of_getPath (h : node.getPath (key :: path) = some found) :
    ∃ entries child, node = .compound entries ∧ Table.find? entries key = some child ∧
      child.getPath path = some found := by
  rw [getPath_cons] at h
  obtain ⟨child, hchild, hfound⟩ := Option.bind_eq_some_iff.1 h
  cases node with
  | compound entries => exact ⟨entries, child, rfl, hchild, hfound⟩
  | _ => cases hchild

theorem setPath_of_getPath (h : node.getPath path = some found) :
    node.setPath path found = some node := by
  induction path generalizing node with
  | nil => exact h.symm
  | cons key path ih =>
    obtain ⟨entries, child, rfl, hchild, hfound⟩ := exists_child_of_getPath h
    rw [setPath, hchild, Option.getD_some, ih hfound, Option.map_some, Table.put_of_find? hchild]

/-- Of two writes to one place, the second one counts. -/
theorem setPath_setPath (h : node.setPath path value = some made) (other : Nbt) :
    made.setPath path other = node.setPath path other := by
  induction path generalizing node made with
  | nil => rfl
  | cons key path ih =>
    cases node with
    | compound entries =>
      obtain ⟨child, hchild, rfl⟩ := Option.map_eq_some_iff.1 h
      simp [setPath, Table.put_put, ih hchild]
    | _ => cases h

/-- Going down to a node that is there puts back what is made of it. -/
theorem pushDown_eq {done : Bool} (value : Nbt) (h : node.getPath path = some found)
    (hmade : found.pushDown [] value = (done, made)) :
    (node.setPath path made).map (done, ·) = some (node.pushDown path value) := by
  induction path generalizing node with
  | nil =>
    cases h
    rw [hmade]
    rfl
  | cons key path ih =>
    obtain ⟨entries, child, rfl, hchild, hfound⟩ := exists_child_of_getPath h
    obtain ⟨below, hset, hpush⟩ := Option.map_eq_some_iff.1 (ih hfound)
    simp [pushDown, setPath, hchild, hset, ← hpush]

/-- Adding an item step by step leaves the tree as it is, unless the item is added. -/
theorem appendDown_eq (node value : Nbt) (path : List String) :
    node.appendDown path value = match node.appendPath path value with
      | some after => (true, after)
      | none => (false, node) := by
  rw [appendDown, appendPath, writeDown_eq]
  cases hget : node.getPath path with
  | none =>
    cases hmade : node.setPath path (.list []) with
    | none => simp [setPath_eq_none_iff.2 (setPath_eq_none_iff.1 hmade)]
    | some made =>
      have hpush := pushDown_eq value (getPath_setPath hmade) rfl
      obtain ⟨after, hset, heq⟩ := Option.map_eq_some_iff.1 hpush
      rw [setPath_setPath hmade, List.nil_append] at hset
      simp [hset, heq]
  | some found =>
    cases found with
    | list items =>
      obtain ⟨after, hset, heq⟩ := Option.map_eq_some_iff.1 (pushDown_eq value hget rfl)
      simp [hset, heq]
    | _ =>
      have hpush := pushDown_eq value hget rfl
      rw [setPath_of_getPath hget] at hpush
      exact (Option.some.inj hpush).symm

end Nbt

/-- **An item is added by path as a whole or not at all.** It is added exactly if there is a list at
    the path, or nothing is there and a list can be written. Otherwise the tree is left as it was,
    although a list that is missing is created before the item is put into it, and a machine stops
    with all its storages as they were. If the item is added, it is the last one of the list that
    was there or of a new one, and what is read at a path that is neither above nor below is as
    before. -/
theorem appendPath_is_lawful (tree value : Nbt) (path : List String) :
    ((∃ after, tree.appendPath path value = some after) ↔
      (∃ items, tree.getPath path = some (.list items)) ∨
        tree.getPath path = none ∧ ∃ made, tree.setPath path (.list []) = some made) ∧
    (tree.appendPath path value = none → tree.appendDown path value = (false, tree) ∧
      ∀ m st, Machine.storage m st = tree →
        Run.append st path value m = .error (.storage (".".intercalate path) .notList) m) ∧
    ∀ after, tree.appendPath path value = some after →
      tree.appendDown path value = (true, after) ∧
      after.getPath path = some (.list (((tree.getPath path).bind Nbt.items?).getD [] ++ [value])) ∧
      ∀ other, ¬ other <+: path → ¬ path <+: other →
        after.getPath other = tree.getPath other := by
  refine ⟨?_, fun hnone => ⟨by rw [Nbt.appendDown_eq, hnone], fun m st hm => ?_⟩,
    fun after hafter => ⟨by rw [Nbt.appendDown_eq, hafter], ?_⟩⟩
  · -- whether a write comes through does not depend on the value
    have hwritten : ∀ v w, (∃ after, tree.setPath path v = some after) →
        ∃ after, tree.setPath path w = some after := by
      intro v w
      simp only [← Option.isSome_iff_exists, ← Option.ne_none_iff_isSome, ne_eq,
        Nbt.setPath_eq_none_iff, imp_self]
    rw [Nbt.appendPath]
    cases hget : tree.getPath path with
    | none => simpa using ⟨hwritten _ _, hwritten _ _⟩
    | some found =>
      cases found with
      | list items => simpa using hwritten _ _ ⟨_, Nbt.setPath_of_getPath hget⟩
      | _ => simp
  · rw [Run.append_run, hm, hnone]
  · rw [Nbt.appendPath] at hafter
    split at hafter
    · next items hget =>
      rw [hget]
      exact ⟨Nbt.getPath_setPath hafter, fun other => Nbt.getPath_setPath_apart hafter⟩
    · cases hafter
    · next hget =>
      rw [hget]
      exact ⟨Nbt.getPath_setPath hafter, fun other => Nbt.getPath_setPath_apart hafter⟩

/-- An item for a list that is there, one for a list that is missing, and one below a leaf. -/
theorem appendPath_is_lawful_leaf :
    let tree : Nbt := .compound [("a", .list [.int 1]), ("b", .empty)]
    tree.appendDown ["a", "x"] (.int 2) = (false, tree) ∧
    (∃ after, tree.appendPath ["a"] (.int 2) = some after ∧
      after.getPath ["a"] = some (.list [.int 1, .int 2])) ∧
    ∃ after, tree.appendPath ["b", "x"] (.int 2) = some after ∧
      after.getPath ["b", "x"] = some (.list [.int 2]) ∧
      after.getPath ["a"] = some (.list [.int 1]) := by
  intro tree
  obtain ⟨_, hadded, _⟩ := (appendPath_is_lawful tree (.int 2) ["a"]).2.2 _ rfl
  obtain ⟨_, hmade, hapart⟩ := (appendPath_is_lawful tree (.int 2) ["b", "x"]).2.2 _ rfl
  exact ⟨((appendPath_is_lawful tree (.int 2) ["a", "x"]).2.1 rfl).1, ⟨_, rfl, hadded⟩,
    _, rfl, hmade,
    hapart ["a"] (by decide) (by decide)⟩

end PackScript
