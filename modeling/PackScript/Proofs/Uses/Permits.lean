import PackScript.Compile.Function
import PackScript.Proofs.Uses.Basic

namespace PackScript

/-!
# What code is permitted to mention

* `Permits` — the slots that code may mention, whether it may read what its unit was called with,
  the trees that it may write, and the units that it may enter without a channel or in a loop.
* `Chunk`, `Chunks` — pieces of code that are emitted together and keep to what is permitted, and
  lists of them.
* `Permits.guard_when` — the tests that code makes.
-/

/-- The argument of a routine is the key of a slot. -/
def Routine.TakesSlot (r : Routine) (name : String) : Prop :=
  (name, ArgSort.slot) ∈ r.args ∨ (r = .setMember ∧ name = "key")

/-- The entry of a call is the key of a slot. -/
def CallTakesSlot (name : String) : Prop :=
  name = "return"

/-- What code is permitted to do. -/
structure Permits where
  /-- It may read or write the slot, or hand its key to a routine or function -/
  slot : Slot → Prop
  /-- It may read what the unit was called with -/
  params : Prop
  /-- It may enter the unit without a channel -/
  part : String → Prop
  /-- It may write the tree -/
  literal : Nbt → Prop
  /-- It may call the function for each element of an array -/
  round : String → Prop

namespace Permits

variable (P : Permits)

/-- The place may be read and written. -/
def place (p : Place) : Prop :=
  match p.address with
  | .slot a => P.slot a
  | .record _ => True
  | .channel _ => False

/-- The source may be read. -/
def source : Source → Prop
  | .literal v => P.literal v
  | .copy p => P.place p
  | .param _ => P.params

/-- All places that the guard tests may be read. -/
def guard (g : Guard) : Prop :=
  ∀ t ∈ g, P.place t.place

/-- The entry may be written to a channel whose reader takes some entries for keys of slots. -/
structure Entry (takesSlot : String → Prop) (e : String × Source) : Prop where
  source : P.source e.2
  address : ∀ a, takesSlot e.1 → e.2 = .addressOf a → P.slot a
  name : e.1 ≠ "frame"

/-- What is permitted stays permitted. -/
structure Le (P P' : Permits) : Prop where
  slot : ∀ a, P.slot a → P'.slot a
  params : P.params → P'.params
  part : ∀ n, P.part n → P'.part n
  literal : ∀ v, P.literal v → P'.literal v
  round : ∀ id, P.round id → P'.round id

end Permits

/-- Instructions that are emitted together. -/
inductive Chunk (P : Permits) : List Instr → Prop
  | write {guard target source} (hguard : P.guard guard) (htarget : P.place target)
      (hsource : P.source source) : Chunk P [.set guard target source]
  | enter {guard unit store} (hguard : P.guard guard) (hunit : P.part unit)
      (hstore : ∀ p, store = some p → ∃ a, p = .slot a ∧ P.slot a) :
      Chunk P [.invoke guard (.unit unit) none store]
  | returnIf {guard code} (hguard : P.guard guard) : Chunk P [.returnIf guard code]
  | returnWith {code} : Chunk P [.returnWith code]
  | raw {text} : Chunk P [.raw text]
  | library {c r entries} (hr : r ≠ .loopArray ∧ r ≠ .callFunction)
      (hentries : ∀ e ∈ entries, P.Entry r.TakesSlot e) :
      Chunk P (fillCode c entries ++ [.invoke .always (.library r) (some c) none])
  | call {c entries unit} (hentries : ∀ e ∈ entries, P.Entry CallTakesSlot e) :
      Chunk P (fillCode c entries ++ [.invoke .always (.unit unit) (some c) none])
  | through {c d entries callee} (hcallee : P.slot callee)
      (hentries : ∀ e ∈ entries, P.Entry CallTakesSlot e) :
      Chunk P (fillCode c entries ++
        (fillCode d [("function", .addressOf callee), ("channel", .text c.key)] ++
          [.invoke .always (.library .callFunction) (some d) none]))
  | each {c} {array cell : Slot} {function channel : String} (harray : P.slot array)
      (hcell : P.slot cell) (hround : P.round function) :
      Chunk P (fillCode c [("array", .addressOf array), ("function", .text function),
          ("channel", .text channel)] ++
        [.set .always (.slot cell) (.literal (.int Instr.normal)),
          .invoke .always (.library .loopArray) (some c) (some (.slot cell))])

/-- Code that consists of such pieces. -/
inductive Chunks (P : Permits) : List Instr → Prop
  | nil : Chunks P []
  | cons {b is} (hb : Chunk P b) (his : Chunks P is) : Chunks P (b ++ is)

section

variable {P P' : Permits}

theorem Permits.Le.place (h : P.Le P') {p : Place} (hp : P.place p) : P'.place p := by
  unfold Permits.place at hp ⊢
  split
  · next a ha =>
    rw [ha] at hp
    exact h.slot a hp
  · trivial
  · next c hc => rwa [hc] at hp

theorem Permits.Le.source (h : P.Le P') {source : Source} (hs : P.source source) :
    P'.source source := by
  cases source with
  | literal v => exact h.literal v hs
  | copy p => exact h.place hs
  | param name => exact h.params hs

theorem Permits.Le.guard (h : P.Le P') {g : Guard} (hg : P.guard g) : P'.guard g :=
  fun t ht => h.place (hg t ht)

theorem Permits.Entry.mono {takesSlot : String → Prop} {e : String × Source}
    (he : P.Entry takesSlot e) (h : P.Le P') : P'.Entry takesSlot e :=
  ⟨h.source he.source, fun a ha hsource => h.slot a (he.address a ha hsource), he.name⟩

theorem Chunk.mono {is : List Instr} (his : Chunk P is) (h : P.Le P') : Chunk P' is := by
  cases his with
  | write hguard htarget hsource =>
    exact .write (h.guard hguard) (h.place htarget) (h.source hsource)
  | enter hguard hunit hstore =>
    refine .enter (h.guard hguard) (h.part _ hunit) fun p hp => ?_
    obtain ⟨a, hpa, ha⟩ := hstore p hp
    exact ⟨a, hpa, h.slot a ha⟩
  | returnIf hguard => exact .returnIf (h.guard hguard)
  | returnWith => exact .returnWith
  | raw => exact .raw
  | library hr hentries => exact .library hr fun e he => (hentries e he).mono h
  | call hentries => exact .call fun e he => (hentries e he).mono h
  | through hcallee hentries =>
    exact .through (h.slot _ hcallee) fun e he => (hentries e he).mono h
  | each harray hcell hround =>
    exact .each (h.slot _ harray) (h.slot _ hcell) (h.round _ hround)

theorem Chunks.mono {is : List Instr} (his : Chunks P is) (h : P.Le P') : Chunks P' is := by
  induction his with
  | nil => exact .nil
  | cons hb _ ih => exact .cons (hb.mono h) ih

theorem Chunk.chunks {is : List Instr} (h : Chunk P is) : Chunks P is := by
  have hsingle := Chunks.cons h .nil
  rwa [List.append_nil] at hsingle

theorem Chunks.append {is js : List Instr} (his : Chunks P is) (hjs : Chunks P js) :
    Chunks P (is ++ js) := by
  induction his with
  | nil => exact hjs
  | cons hb _ ih =>
    rw [List.append_assoc]
    exact .cons hb ih

end

/-! ### Tests -/

namespace Permits

variable {P : Permits} {a : Slot}

theorem guard_always : P.guard .always :=
  nofun

theorem guard_when {p : Place} (hp : P.place p) (v : Nbt) : P.guard (.when p v) := by
  intro t ht
  rw [List.mem_singleton.1 ht]
  exact hp

theorem guard_kindIs (ha : P.slot a) (kind : Kind) : P.guard (kindIs a kind) :=
  guard_when (p := .field a _) ha _

theorem guard_isTrue (ha : P.slot a) : P.guard (isTrue a) :=
  guard_when (p := .field a _) ha _

theorem guard_isFalse (ha : P.slot a) : P.guard (isFalse a) :=
  guard_when (p := .field a _) ha _

theorem guard_append {g : Guard} {t : Test} (hg : P.guard g) (ht : P.place t.place) :
    P.guard (List.append g [t]) := by
  intro t' ht'
  rcases List.mem_append.1 ht' with ht' | ht'
  · exact hg t' ht'
  · rw [List.mem_singleton.1 ht']
    exact ht

theorem guard_truthGuards (ha : P.slot a) : ∀ g ∈ Compile.truthGuards a, P.guard g := by
  have hkind := guard_kindIs ha
  simp only [Compile.truthGuards, List.forall_mem_cons, List.not_mem_nil, false_implies,
    implies_true,
    and_true]
  exact ⟨guard_append (hkind _) ha, guard_append (guard_append (hkind _) ha) ha,
    guard_append (hkind _) ha, hkind _, hkind _, hkind _⟩

end Permits

end PackScript
