import PackScript.Program.Json
import PackScript.Proofs.Program.Content
import PackScript.Proofs.Table

namespace PackScript

/-!
# Programs in JSON are read back

For every part of a program, the decoder undoes what the part is written as. The JSON library is a
parameter: what is relied on is that its decoders of plain values, lists, objects, structures and
constructors do what they are documented to do, and that it reads back the tree that it has written.

* `JsonLibrary.Lawful` — the laws of the decoders of a library.
* `Json.depth` — how deep lists and objects are inside of each other.
* `Decoder.Restores` — the decoder reads a JSON value as a given value whenever there are levels
  enough for its depth.
* `Nbt.Distinct.restores`, `Instr.restores`, `CodeUnit.restores` — the parts of a program.
* `program_text_is_read_back` — reading the text of a program gives the program.
-/

variable {j : Json} {entries : List (String × Json)} {items : List Json} {levels n : Nat}
  {name : String} {β : Type}

namespace Json

mutual

/-- How deep lists and objects are inside of each other. -/
def depth : Json → Nat
  | .array items => itemsDepth items + 1
  | .object entries => entriesDepth entries + 1
  | .null | .bool _ | .int _ | .float _ | .string _ | .unreadable => 0

/-- The depth of the deepest item. -/
def itemsDepth : List Json → Nat
  | [] => 0
  | j :: rest => max (depth j) (itemsDepth rest)

/-- The depth of the deepest entry. -/
def entriesDepth : List (String × Json) → Nat
  | [] => 0
  | (_, j) :: rest => max (depth j) (entriesDepth rest)

end

theorem itemsDepth_le_iff : itemsDepth items ≤ n ↔ ∀ j ∈ items, j.depth ≤ n := by
  induction items with
  | nil => simp [itemsDepth]
  | cons j items ih => simp [itemsDepth, ih]

theorem entriesDepth_le_iff : entriesDepth entries ≤ n ↔ ∀ e ∈ entries, e.2.depth ≤ n := by
  induction entries with
  | nil => simp [entriesDepth]
  | cons e entries ih => simp [entriesDepth, ih]

/-- Levels enough for a list are one more than enough for its items. -/
theorem exists_levels_of_array (h : (Json.array items).depth ≤ levels) :
    ∃ n, levels = n + 1 ∧ ∀ j ∈ items, j.depth ≤ n := by
  rw [depth] at h
  exact ⟨levels - 1, by omega, itemsDepth_le_iff.1 (by omega)⟩

/-- Levels enough for an object are one more than enough for its entries. -/
theorem exists_levels_of_object (h : (Json.object entries).depth ≤ levels) :
    ∃ n, levels = n + 1 ∧ ∀ e ∈ entries, e.2.depth ≤ n := by
  rw [depth] at h
  exact ⟨levels - 1, by omega, entriesDepth_le_iff.1 (by omega)⟩

end Json

/-- The decoders of a library do what they are documented to do with what is written for a value of
    their type. Entering a list, an object, a structure or a constructor takes one level. -/
structure JsonLibrary.Lawful (L : JsonLibrary) : Prop where
  text : ∀ levels s, L.text levels (.string s) = some s
  flag : ∀ levels b, L.flag levels (.bool b) = some b
  nat32 : ∀ levels (n : Nat), n < 2 ^ 32 → L.nat32 levels (.int n) = some n
  int32 : ∀ levels (i : Int32), L.int32 levels (.int i.toInt) = some i
  double : ∀ levels x, L.double levels (.float x) = some x
  list : ∀ {α : Type} (item : Decoder α) levels items,
    L.list item (levels + 1) (.array items) = items.mapM (item levels)
  /-- The order of the entries of an object is kept -/
  table : ∀ {α : Type} (item : Decoder α) levels (entries : List (String × Json)),
    (entries.map (·.1)).Nodup → L.table item (levels + 1) (.object entries) =
      entries.mapM fun e => (item levels e.2).map (e.1, ·)
  absent : ∀ {α : Type} (item : Decoder α) levels, L.option item levels .null = some none
  present : ∀ {α : Type} (item : Decoder α) levels j, j ≠ .null →
    L.option item levels j = (item levels j).map some
  /-- A structure is an object with all its fields -/
  record : ∀ {α : Type} (build : Nat → Decoder.Fields → Option α) levels
    (entries : List (String × Json)), (entries.map (·.1)).Nodup →
      L.record (entries.map (·.1)) build (levels + 1) (.object entries) =
        build levels (entries.map (some ·.2))
  variant : ∀ {α : Type} (cases : String → Option (Decoder α)) levels name j,
    L.variant cases (levels + 1) (.object [(name, j)]) = (cases name).bind fun item => item levels j
  word : ∀ {α : Type} (cases : String → Option α) levels name,
    L.word cases levels (.string name) = cases name

/-- The library reads the text of a JSON value as the same value. -/
def JsonLibrary.ReadsBack (L : JsonLibrary) (j : Json) : Prop :=
  L.read (L.write j) = some j

namespace Decoder

variable {α : Type}

/-- The decoder reads the JSON value as the given one. -/
def Restores (d : Decoder α) (a : α) (j : Json) : Prop :=
  ∀ levels, j.depth ≤ levels → d levels j = some a

theorem mapM_map_eq_some {γ δ : Type} {f : β → Option γ} {g : δ → β} {k : δ → γ} {cs : List δ}
    (h : ∀ c ∈ cs, f (g c) = some (k c)) : (cs.map g).mapM f = some (cs.map k) := by
  induction cs with
  | nil => rfl
  | cons c cs ih =>
    simp [h c List.mem_cons_self, ih fun c hc => h c (List.mem_cons_of_mem _ hc)]

/-- A field that has to be there. -/
theorem Restores.needed {d : Decoder α} {a : α} (h : d.Restores a j) (hlevels : j.depth ≤ levels) :
    needed d levels (some j) = some a := by
  rw [Decoder.needed, Option.bind_some, h levels hlevels]

/-- A field that may be left out. -/
theorem Restores.optional {d : Decoder (Option α)} {a? : Option α} (h : d.Restores a? j)
    (hlevels : j.depth ≤ levels) : optional d levels (some j) = some a? := by
  rw [Decoder.optional, h levels hlevels]

theorem Restores.map {d : Decoder α} {a : α} (h : d.Restores a j) (f : α → β) :
    Restores (fun levels j => (d levels j).map f) (f a) j := by
  intro levels hlevels
  dsimp only
  rw [h levels hlevels, Option.map_some]

end Decoder

namespace JsonLibrary.Lawful

variable {L : JsonLibrary} (hL : L.Lawful) {α : Type}

include hL

/-! ### Plain values -/

theorem text_restores (s : String) : L.text.Restores s (.string s) :=
  fun levels _ => hL.text levels s

theorem flag_restores (b : Bool) : L.flag.Restores b (.bool b) :=
  fun levels _ => hL.flag levels b

theorem nat32_restores (h : n < 2 ^ 32) : L.nat32.Restores n (.int n) :=
  fun levels _ => hL.nat32 levels n h

theorem int32_restores (i : Int32) : L.int32.Restores i (.int i.toInt) :=
  fun levels _ => hL.int32 levels i

theorem double_restores (x : Float) : L.double.Restores x (.float x) :=
  fun levels _ => hL.double levels x

/-! ### Lists, tables and options -/

/-- A list, whose items are each read back one level below. -/
theorem list_restores {item : Decoder α} {f : α → Json} {as : List α}
    (h : ∀ a ∈ as, item.Restores a (f a)) : (L.list item).Restores as (.array (as.map f)) := by
  intro levels hlevels
  obtain ⟨n, rfl, hitems⟩ := Json.exists_levels_of_array hlevels
  have hmap := Decoder.mapM_map_eq_some (k := id) fun a ha =>
    h a ha n (hitems _ (List.mem_map_of_mem ha))
  rwa [List.map_id, ← hL.list] at hmap

/-- An object, whose entries come back in their order. -/
theorem table_restores {item : Decoder α} {f : α → Json} {t : Table α} (hnames : t.names.Nodup)
    (h : ∀ e ∈ t, item.Restores e.2 (f e.2)) : (L.table item).Restores t (.ofTable f t) := by
  intro levels hlevels
  obtain ⟨n, rfl, hentries⟩ := Json.exists_levels_of_object hlevels
  have hdistinct : ((t.map fun e => (e.1, f e.2)).map (·.1)).Nodup := by
    rw [List.map_map]
    exact hnames
  have hmap : (t.map fun e => (e.1, f e.2)).mapM
      (fun e : String × Json => (item n e.2).map (e.1, ·)) = some t := by
    refine (Decoder.mapM_map_eq_some (k := id) fun e he => ?_).trans (by rw [List.map_id])
    have hdepth := hentries _ (List.mem_map_of_mem (f := fun e => (e.1, f e.2)) he)
    simp [h e he n hdepth]
  exact (hL.table item n _ hdistinct).trans hmap

/-- A value that may be missing, if what is written for values is never `null`. -/
theorem option_restores {item : Decoder α} {f : α → Json} (a? : Option α)
    (h : ∀ a, a? = some a → item.Restores a (f a)) (hnull : ∀ a, f a ≠ .null) :
    (L.option item).Restores a? (.ofOption f a?) := by
  intro levels hlevels
  cases a? with
  | none => exact hL.absent item levels
  | some a =>
    rw [Json.ofOption] at hlevels ⊢
    rw [hL.present item levels _ (hnull a), h a rfl levels hlevels, Option.map_some]

/-! ### Constructors and structures -/

/-- A constructor with its argument. -/
theorem variant_restores {cases : String → Option (Decoder α)} {d : Decoder α} {a : α}
    (hcase : cases name = some d) (h : d.Restores a j) :
    (L.variant cases).Restores a (.object [(name, j)]) := by
  intro levels hlevels
  obtain ⟨n, rfl, hentries⟩ := Json.exists_levels_of_object hlevels
  rw [hL.variant, hcase]
  exact h n (hentries _ List.mem_cons_self)

/-- A constructor without argument. -/
theorem word_restores {cases : String → Option α} {a : α} (h : cases name = some a) :
    (L.word cases).Restores a (.string name) :=
  fun levels _ => (hL.word cases levels name).trans h

/-- A structure with its fields in order. -/
theorem record_restores {names : List String} {build : Nat → Decoder.Fields → Option α} {a : α}
    (hnames : names = entries.map (·.1)) (hdistinct : names.Nodup)
    (hbuild : ∀ n, entries.Forall (·.2.depth ≤ n) → build n (entries.map (some ·.2)) = some a) :
    (L.record names build).Restores a (.object entries) := by
  intro levels hlevels
  obtain ⟨n, rfl, hentries⟩ := Json.exists_levels_of_object hlevels
  subst hnames
  rw [hL.record build n entries hdistinct]
  exact hbuild n (List.forall_iff_forall_mem.2 hentries)

end JsonLibrary.Lawful

/-! ### Trees -/

namespace Nbt

variable {L : JsonLibrary}

theorem itemsJson_eq_map (items : List Nbt) : itemsJson items = items.map toJson := by
  induction items with
  | nil => rfl
  | cons n items ih => rw [itemsJson, ih, List.map_cons]

theorem object_entriesJson (entries : List (String × Nbt)) :
    Json.object (entriesJson entries) = .ofTable toJson entries := by
  have hmap : entriesJson entries = entries.map fun e => (e.1, e.2.toJson) := by
    induction entries with
    | nil => rfl
    | cons e entries ih => rw [entriesJson, ih, List.map_cons]
  rw [hmap, Json.ofTable]

/-- A tree is read back, if its nodes are not too deep. -/
theorem Distinct.restores (hL : L.Lawful) {n : Nbt} (h : n.Distinct) {fuel : Nat}
    (hfuel : n.toJson.depth ≤ fuel) : (reader L fuel).Restores n n.toJson := by
  -- a node takes one from the fuel, and the constructor around it one level at least
  induction h generalizing fuel with
  | bool b =>
    obtain ⟨k, rfl, _⟩ := Json.exists_levels_of_object hfuel
    exact hL.variant_restores rfl ((hL.flag_restores b).map Nbt.bool)
  | int i =>
    obtain ⟨k, rfl, _⟩ := Json.exists_levels_of_object hfuel
    exact hL.variant_restores rfl ((hL.int32_restores i).map Nbt.int)
  | double x =>
    obtain ⟨k, rfl, _⟩ := Json.exists_levels_of_object hfuel
    exact hL.variant_restores rfl ((hL.double_restores x).map Nbt.double)
  | string s =>
    obtain ⟨k, rfl, _⟩ := Json.exists_levels_of_object hfuel
    exact hL.variant_restores rfl ((hL.text_restores s).map Nbt.string)
  | @list items _ ih =>
    rw [toJson, itemsJson_eq_map] at hfuel ⊢
    obtain ⟨k, rfl, hentries⟩ := Json.exists_levels_of_object hfuel
    obtain ⟨k', rfl, hitems⟩ := Json.exists_levels_of_array (hentries _ List.mem_cons_self)
    refine hL.variant_restores rfl ((hL.list_restores fun n hn => ih n hn ?_).map Nbt.list)
    exact Nat.le_succ_of_le (hitems _ (List.mem_map_of_mem hn))
  | @compound entries hnames _ ih =>
    rw [toJson, object_entriesJson] at hfuel ⊢
    obtain ⟨k, rfl, hentry⟩ := Json.exists_levels_of_object hfuel
    obtain ⟨k', rfl, hentries⟩ := Json.exists_levels_of_object (hentry _ List.mem_cons_self)
    refine hL.variant_restores rfl
      ((hL.table_restores hnames fun e he => ih e he ?_).map Nbt.compound)
    exact Nat.le_succ_of_le (hentries _ (List.mem_map_of_mem (f := fun e => (e.1, e.2.toJson)) he))

theorem Distinct.tree (hL : L.Lawful) {n : Nbt} (h : n.Distinct) : L.tree.Restores n n.toJson :=
  fun levels hlevels => h.restores hL hlevels levels hlevels

end Nbt

/-! ### Instructions -/

section

variable {L : JsonLibrary} (hL : L.Lawful)

include hL

theorem Address.restores {a : Address} (h : a.index < 2 ^ 32) : L.address.Restores a a.toJson := by
  cases a with
  | slot s => exact hL.variant_restores rfl (((hL.nat32_restores h).map Slot.mk).map Address.slot)
  | record r =>
    exact hL.variant_restores rfl (((hL.nat32_restores h).map Record.mk).map Address.record)
  | channel c =>
    exact hL.variant_restores rfl (((hL.nat32_restores h).map Channel.mk).map Address.channel)

theorem Place.restores {p : Place} (h : p.address.index < 2 ^ 32) :
    L.place.Restores p p.toJson := by
  have haddress := Address.restores hL h
  have hpath := hL.list_restores fun s (_ : s ∈ p.path) => hL.text_restores s
  refine hL.record_restores rfl (by decide) fun n hn => ?_
  simp [haddress.needed hn.1, hpath.needed hn.2]

theorem Source.restores {s : Source} (hindices : ∀ n ∈ s.indices, n < 2 ^ 32)
    (htrees : ∀ t ∈ s.trees, t.Distinct) : L.source.Restores s s.toJson := by
  cases s with
  | literal value =>
    have hdistinct := htrees value (by simp [Source.trees])
    exact hL.variant_restores rfl ((hdistinct.tree hL).map Source.literal)
  | copy p =>
    exact hL.variant_restores rfl
      ((Place.restores hL (hindices _ (by simp [Source.indices]))).map Source.copy)
  | param entry => exact hL.variant_restores rfl ((hL.text_restores entry).map Source.param)

theorem Test.restores {t : Test} (hindex : t.place.address.index < 2 ^ 32)
    (htree : t.value.Distinct) : L.test.Restores t t.toJson := by
  have hplace := Place.restores hL hindex
  have hvalue := htree.tree hL
  refine hL.record_restores rfl (by decide) fun n hn => ?_
  simp [hplace.needed hn.1, hvalue.needed hn.2.1, (hL.flag_restores t.negated).needed hn.2.2]

theorem Guard.restores {g : Guard} (hindices : ∀ n ∈ g.indices, n < 2 ^ 32)
    (htrees : ∀ t ∈ g.trees, t.Distinct) : L.guard.Restores g g.toJson := by
  have htests := hL.list_restores fun t (ht : t ∈ g) =>
    Test.restores hL (hindices _ (List.mem_map_of_mem ht)) (htrees _ (List.mem_map_of_mem ht))
  exact hL.record_restores rfl (by decide) fun n hn => htests.needed hn

omit hL in
theorem Routine.ofName?_name (r : Routine) : Routine.ofName? r.name = some r := by
  cases r <;> decide

theorem Callee.restores (c : Callee) : L.callee.Restores c c.toJson := by
  cases c with
  | unit name => exact hL.variant_restores rfl ((hL.text_restores name).map Callee.unit)
  | library r =>
    exact hL.variant_restores rfl ((hL.word_restores (Routine.ofName?_name r)).map Callee.library)

theorem Channel.restores {c : Channel} (h : c.index < 2 ^ 32) :
    L.channel.Restores c (.int c.index) :=
  (hL.nat32_restores h).map Channel.mk

theorem Instr.restores {i : Instr} (hindices : ∀ n ∈ i.indices, n < 2 ^ 32)
    (htrees : ∀ t ∈ i.trees, t.Distinct) : L.instr.Restores i i.toJson := by
  cases i with
  | set g target s =>
    simp only [Instr.indices, Instr.trees, List.mem_append, List.mem_cons] at hindices htrees
    have hguard := Guard.restores hL (fun n hn => hindices n (.inl hn)) fun t ht =>
      htrees t (.inl ht)
    have htarget := Place.restores hL (hindices _ (.inr (.inl rfl)))
    have hsource := Source.restores hL (fun n hn => hindices n (.inr (.inr hn))) fun t ht =>
      htrees t (.inr ht)
    refine hL.variant_restores rfl (hL.record_restores rfl (by decide) fun n hn => ?_)
    simp [hguard.needed hn.1, htarget.needed hn.2.1, hsource.needed hn.2.2]
  | append target s =>
    simp only [Instr.indices, Instr.trees, List.mem_cons] at hindices htrees
    have htarget := Place.restores hL (hindices _ (.inl rfl))
    have hsource := Source.restores hL (fun n hn => hindices n (.inr hn)) htrees
    refine hL.variant_restores rfl (hL.record_restores rfl (by decide) fun n hn => ?_)
    simp [htarget.needed hn.1, hsource.needed hn.2]
  | invoke g c ch store =>
    simp only [Instr.indices, Instr.trees, List.mem_append] at hindices htrees
    have hguard := Guard.restores hL (fun n hn => hindices n (.inl (.inl hn))) htrees
    have hcallee := Callee.restores hL c
    have hchannel := hL.option_restores ch (fun c hc => Channel.restores hL (c := c)
      (hindices _ (.inl (.inr (by simp [hc]))))) nofun
    have hstore := hL.option_restores store (fun p hp => Place.restores hL (p := p)
      (hindices _ (.inr (by simp [hp])))) nofun
    refine hL.variant_restores rfl (hL.record_restores rfl (by decide) fun n hn => ?_)
    simp [hguard.needed hn.1, hcallee.needed hn.2.1, hchannel.optional hn.2.2.1,
      hstore.optional hn.2.2.2]
  | returnIf g code =>
    have hguard := Guard.restores hL hindices htrees
    have hcode := hL.int32_restores code
    refine hL.variant_restores rfl (hL.record_restores rfl (by decide) fun n hn => ?_)
    simp [hguard.needed hn.1, hcode.needed hn.2]
  | returnWith code => exact hL.variant_restores rfl ((hL.int32_restores code).map Instr.returnWith)
  | raw command => exact hL.variant_restores rfl ((hL.text_restores command).map Instr.raw)

/-! ### Units and programs -/

omit hL in
theorem UnitKind.find?_name (k : UnitKind) :
    UnitKind.all.find? (·.name == k.name) = some k := by
  cases k <;> decide

theorem UnitInfo.restores {i : UnitInfo} (h : ∀ n ∈ i.scopes, n < 2 ^ 32) :
    L.unitInfo.Restores i i.toJson := by
  have hkind : L.unitKind.Restores i.kind (.string i.kind.name) :=
    hL.word_restores (UnitKind.find?_name i.kind)
  have hthat := hL.option_restores i.that (fun s _ => hL.text_restores s) nofun
  have hparent := hL.option_restores i.parentClass (fun s _ => hL.text_restores s) nofun
  have hscopes := hL.list_restores fun n (hn : n ∈ i.scopes) => hL.nat32_restores (h n hn)
  refine hL.record_restores rfl (by decide) fun n hn => ?_
  simp [hkind.needed hn.1, (hL.flag_restores i.isAsync).needed hn.2.1, hthat.optional hn.2.2.1,
    hparent.optional hn.2.2.2.1, hscopes.needed hn.2.2.2.2]

theorem CodeUnit.restores {u : CodeUnit} (hindices : ∀ n ∈ u.indices, n < 2 ^ 32)
    (htrees : ∀ t ∈ u.trees, t.Distinct) : L.unit.Restores u u.toJson := by
  simp only [CodeUnit.indices, List.mem_append] at hindices
  have hinfo := UnitInfo.restores hL fun n hn => hindices n (.inl hn)
  have hinstrs := hL.list_restores fun i (hi : i ∈ u.instrs) => Instr.restores hL
    (fun n hn => hindices n (.inr (List.mem_flatMap.2 ⟨i, hi, hn⟩)))
    fun t ht => htrees t (List.mem_flatMap.2 ⟨i, hi, ht⟩)
  refine hL.record_restores rfl (by decide) fun n hn => ?_
  simp [(hL.text_restores u.name).needed hn.1, hinfo.needed hn.2.1, hinstrs.needed hn.2.2]

theorem Slot.restores {s : Slot} (h : s.index < 2 ^ 32) : L.slot.Restores s (.int s.index) :=
  (hL.nat32_restores h).map Slot.mk

theorem Signature.restores {f : Signature} (h : f.binding.index < 2 ^ 32) :
    L.signature.Restores f f.toJson := by
  have hparams := hL.list_restores fun s (_ : s ∈ f.params) => hL.text_restores s
  have hbinding := Slot.restores hL h
  refine hL.record_restores rfl (by decide) fun n hn => ?_
  simp [(hL.text_restores f.unit).needed hn.1, hparams.needed hn.2.1,
    (hL.flag_restores f.isAsync).needed hn.2.2.1, hbinding.needed hn.2.2.2]

theorem Program.Proper.restores {p : Program} (h : p.Proper) :
    L.program.Restores p p.toJson := by
  have hindices := h.indices
  simp only [Program.indices, List.mem_append, List.mem_flatMap, List.mem_map,
    List.mem_singleton] at hindices
  have hunits := hL.table_restores h.units fun e he => CodeUnit.restores hL
    (fun n hn => hindices n (.inl (.inl (.inl ⟨e, he, hn⟩))))
    fun t ht => h.trees t (List.mem_flatMap.2 ⟨e, he, ht⟩)
  have hfunctions := hL.table_restores h.functions fun e he =>
    Signature.restores hL (hindices _ (.inl (.inl (.inr ⟨e, he, rfl⟩))))
  have hglobals := hL.table_restores (f := fun s : Slot => .int s.index) h.globals fun e he =>
    Slot.restores hL (hindices _ (.inl (.inr ⟨e, he, rfl⟩)))
  have hbase := hL.nat32_restores (hindices p.heapBase (.inr rfl))
  refine hL.record_restores rfl (by decide) fun n hn => ?_
  simp [(hL.text_restores p.ns).needed hn.1, (hL.text_restores p.entry).needed hn.2.1,
    hunits.needed hn.2.2.1, hfunctions.needed hn.2.2.2.1, hglobals.needed hn.2.2.2.2.1,
    hbase.needed hn.2.2.2.2.2]

end

/-- **The text of a program is read back.** With any lawful JSON library, reading the text of any
    program gives the program itself, with all tables in their order, if its doubles are finite,
    lists and objects are not nested deeper than the library goes, and the library reads back a tree
    with finite doubles that it has written. -/
theorem program_text_is_read_back (L : JsonLibrary) (hL : L.Lawful) (p : Program) (hp : p.Proper)
    (hfinite : ∀ x ∈ p.doubles, x.isFinite = true) (hdepth : p.toJson.depth ≤ L.maxLevels)
    (hreads : (∀ x ∈ p.doubles, x.isFinite = true) → L.ReadsBack p.toJson) :
    Program.readBy? L (p.textBy L) = some p := by
  rw [Program.readBy?, Program.textBy, hreads hfinite, Option.bind_some]
  exact hp.restores hL L.maxLevels hdepth

/-! ### One library -/

/-- Distinct names are written to a table in their order. -/
theorem Table.ofEntries_eq {α : Type} {t : Table α} (h : t.names.Nodup) :
    Table.ofEntries t = t := by
  have hfold : ∀ (more done : Table α), (done ++ more).names.Nodup →
      more.foldl (fun table e => Table.put table e.1 e.2) done = done ++ more := by
    intro more
    induction more with
    | nil => simp
    | cons e more ih =>
      intro done hnodup
      have hnew : Table.has done e.1 = false := by
        rw [← Bool.not_eq_true, has_iff_mem_names]
        simp only [names, List.map_append, List.map_cons] at hnodup ⊢
        exact fun hmem => List.nodup_append.1 hnodup |>.2.2 _ hmem _ List.mem_cons_self rfl
      rw [List.foldl_cons, put_of_not_has _ hnew, ih _ (by simpa using hnodup)]
      simp
  exact hfold t [] h

namespace Decoder

theorem nat32_int (levels n : Nat) (h : n < 2 ^ 32) : nat32 levels (.int n) = some n := by
  rw [nat32, if_pos (by omega)]
  rfl

theorem int32_int (levels : Nat) (i : Int32) : int32 levels (.int i.toInt) = some i := by
  rw [int32, if_pos ⟨i.le_toInt, i.toInt_lt⟩, Int32.ofInt_toInt]

/-- Distinct fields are found in an object that has no others. -/
theorem fields_object (h : (entries.map (·.1)).Nodup) :
    fields (entries.map (·.1)) (.object entries) = some (entries.map (some ·.2)) := by
  have hfield : ∀ e ∈ entries, fieldOf entries e.1 = some (some e.2) := by
    intro e he
    have hfilter : entries.filter (·.1 == e.1) = [e] := by
      obtain ⟨before, after, rfl⟩ := List.append_of_mem he
      simp only [List.map_append, List.map_cons, List.nodup_append, List.nodup_cons,
        List.mem_cons, List.mem_map] at h
      have hbefore : before.filter (·.1 == e.1) = [] := by
        refine List.filter_eq_nil_iff.2 fun e' he' heq => ?_
        exact h.2.2 _ ⟨e', he', rfl⟩ _ (.inl rfl) (by simpa using heq)
      have hafter : after.filter (·.1 == e.1) = [] := by
        refine List.filter_eq_nil_iff.2 fun e' he' heq => ?_
        exact h.2.1.1 ⟨e', he', by simpa using heq⟩
      simp [hbefore, hafter]
    rw [fieldOf, hfilter]
  exact mapM_map_eq_some hfield

/-- Entries that are decoded keep their names. -/
theorem names_of_mapM {α : Type} {item : Json → Option α} {t : Table α}
    (h : entries.mapM (fun e => (item e.2).map (e.1, ·)) = some t) :
    t.names = entries.map (·.1) := by
  induction entries generalizing t with
  | nil =>
    cases h
    rfl
  | cons e entries ih =>
    simp only [List.mapM_cons, Option.bind_eq_bind, Option.bind_eq_some_iff, Option.map_eq_some_iff,
      Option.pure_def, Option.some.injEq] at h
    obtain ⟨_, ⟨a, _, rfl⟩, rest, hrest, rfl⟩ := h
    rw [List.map_cons, ← ih hrest]
    rfl

end Decoder

theorem Json.library_nat32 : Json.library.nat32 = Decoder.nat32 := rfl

/-- The decoders of the command line are lawful, however texts are read. -/
theorem Json.library_lawful (read : String → Option Json) :
    JsonLibrary.Lawful { Json.library with read } where
  text _ _ := rfl
  flag _ _ := rfl
  nat32 levels n hn := by
    rw [Json.library_nat32]
    exact Decoder.nat32_int levels n hn
  int32 := Decoder.int32_int
  double _ _ := rfl
  list _ _ _ := rfl
  table item levels entries hdistinct := by
    show (entries.mapM fun e => (item levels e.2).map (e.1, ·)).map Table.ofEntries = _
    cases hmap : entries.mapM fun e => (item levels e.2).map (e.1, ·) with
    | none => rfl
    | some t =>
      have hnames : Table.names t = entries.map (·.1) := Decoder.names_of_mapM hmap
      rw [Option.map_some, Table.ofEntries_eq (hnames ▸ hdistinct)]
  absent _ _ := rfl
  present item levels j hnull := by
    cases j with
    | null => exact absurd rfl hnull
    | _ => rfl
  record build levels entries hdistinct := by
    show (Decoder.fields (entries.map (·.1)) (.object entries)).bind (build levels) = _
    rw [Decoder.fields_object hdistinct, Option.bind_some]
  variant _ _ _ _ := rfl
  word _ _ _ := rfl

/-- A program with keys out of order, texts that need a backslash, doubles next to integers, and
    the largest index. -/
def inventoryProgram : Program where
  ns := "pack"
  entry := "__gen/init"
  units := [("__gen/init", ⟨"__gen/init", ⟨.script, false, none, some "s1", [0, 2]⟩,
    [.set [⟨.field ⟨0⟩ "a \"b\"\n", .double 1.5, true⟩] (.slot ⟨7⟩)
       (.literal (.compound [("z", .double (-0.25)), ("a", .list [.int (-7), .empty])])),
     .invoke .always (.library .loopArray) (some ⟨3⟩) (some (.slot ⟨8⟩)),
     .returnIf (.when (.slot ⟨8⟩) (.int 1000002)) 0, .raw "say \x01 \\"]⟩)]
  functions := [("f", ⟨"f", ["x", "y"], true, ⟨1⟩⟩)]
  globals := [("b", ⟨1⟩), ("a", ⟨0⟩)]
  heapBase := 4294967295

theorem inventoryProgram_proper : inventoryProgram.Proper where
  units := by decide
  functions := by decide
  globals := by decide
  trees := by
    have htrees : inventoryProgram.trees = [.double 1.5,
        .compound [("z", .double (-0.25)), ("a", .list [.int (-7), .empty])],
        .int 1000002] := rfl
    rw [htrees]
    simp only [List.mem_cons, List.not_mem_nil, or_false, forall_eq_or_imp, forall_eq]
    refine ⟨.double _, .compound (by decide) ?_, .int _⟩
    simp only [List.mem_cons, List.not_mem_nil, or_false, forall_eq_or_imp, forall_eq]
    refine ⟨.double _, .list ?_⟩
    simp only [List.mem_cons, List.not_mem_nil, or_false, forall_eq_or_imp, forall_eq]
    exact ⟨.int _, .compound (by decide) nofun⟩
  indices := by decide

/-- A library that knows the text of one JSON value. -/
def Json.libraryFor (j : Json) : JsonLibrary :=
  { Json.library with read := fun s => if s = Json.pretty j then some j else none }

theorem Json.libraryFor_readsBack (j : Json) : (Json.libraryFor j).ReadsBack j :=
  if_pos rfl

theorem program_text_is_read_back_inventory :
    (∀ x ∈ inventoryProgram.doubles, x.isFinite = true) ∧
      inventoryProgram.toJson.depth ≤ Json.maxLevels ∧
      Program.readBy? (Json.libraryFor inventoryProgram.toJson)
        (inventoryProgram.textBy (Json.libraryFor inventoryProgram.toJson)) =
          some inventoryProgram := by
  have hfinite : ∀ x ∈ inventoryProgram.doubles, x.isFinite = true := by
    decide +kernel
  have hdepth : inventoryProgram.toJson.depth ≤ Json.maxLevels := by
    decide +kernel
  exact ⟨hfinite, hdepth, program_text_is_read_back (Json.libraryFor inventoryProgram.toJson)
    (Json.library_lawful _) inventoryProgram inventoryProgram_proper hfinite hdepth
    fun _ => Json.libraryFor_readsBack _⟩

end PackScript
