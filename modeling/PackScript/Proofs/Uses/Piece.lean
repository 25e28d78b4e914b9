import PackScript.Proofs.Uses.Code
import PackScript.Proofs.Uses.Permits

namespace PackScript

/-!
# Pieces of code

The compiler emits code in pieces: a write, a test, or a call together with the instructions that
fill its channel. All that later proofs need of code is said here once for each kind of piece.

* `Uses.Sees` — a slot of a loop is mentioned in the function of the loop only.
* `Uses.Supplies` — entries that have the arguments of a routine, each of the shape that the routine
  expects.
* `Uses.Piece`, `Uses.Pieces` — pieces that keep to the uses of names, one after the other, from a
  point where the first return address is written to one where the second is.
-/

/-! ### What code may mention -/

namespace Uses

/-- Code inside of so many functions may mention the slot. -/
def Sees (G : Uses) (depth : Nat) (s : Slot) : Prop :=
  ∃ use, G.slot s = some use ∧ ∀ k, use.loop = some k → depth ≤ k

/-- The slot holds script values, and code inside of so many functions may mention it. -/
structure Reads (G : Uses) (depth : Nat) (s : Slot) : Prop where
  isValue : G.IsValue s
  sees : G.Sees depth s

/-- What code of a unit is permitted to mention. -/
def permits (G : Uses) (S : Standing) : Permits where
  slot := G.Sees S.depth
  params := S.fed = true
  part n := ∃ u, G.unit n = some u ∧ u.fed = false ∧ u.depth = S.depth
  literal v := v.Calls (G.MadeAt S.depth)
  round id := ∃ n u, id = functionId G.ns n ∧ G.unit n = some u ∧ u.depth = S.depth

/-- What is written is a script value that code of a unit may mention. -/
structure Offers (G : Uses) (S : Standing) (source : Source) : Prop where
  gives : G.Gives source
  seen : (G.permits S).source source

section

variable {G G' : Uses} {S : Standing} {depth : Nat} {s : Slot}

theorem Sees.mono (h : G.Sees depth s) (hle : G ≤ G') : G'.Sees depth s := by
  obtain ⟨use, hs, hloop⟩ := h
  exact ⟨use, hle.slot _ _ hs, hloop⟩

/-- A slot that belongs to no loop may be mentioned anywhere. -/
theorem sees_of_slot {use : SlotUse} (h : G.slot s = some use) (hloop : use.loop = none)
    (depth : Nat) : G.Sees depth s :=
  ⟨use, h, fun k hk => by simp [hloop] at hk⟩

theorem Reads.mono (h : G.Reads depth s) (hle : G ≤ G') : G'.Reads depth s :=
  ⟨h.isValue.mono hle, h.sees.mono hle⟩

theorem reads_of_slot {use : SlotUse} (h : G.slot s = some use) (hvalue : use.isValue = true)
    (hloop : use.loop = none) (depth : Nat) : G.Reads depth s :=
  ⟨⟨use, h, hvalue⟩, sees_of_slot h hloop depth⟩

theorem permits_mono (hle : G ≤ G') (S : Standing) : (G.permits S).Le (G'.permits S) where
  slot _ h := h.mono hle
  params h := h
  part n := by
    rintro ⟨u, hu, huse⟩
    exact ⟨u, hle.unit _ _ hu, huse⟩
  literal _ h := h.mono fun _ hid => hid.mono hle
  round id := by
    rintro ⟨n, u, hid, hu, hdepth⟩
    exact ⟨n, u, hle.ns ▸ hid, hle.unit _ _ hu, hdepth⟩

theorem Offers.mono {source : Source} (h : G.Offers S source) (hle : G ≤ G') :
    G'.Offers S source :=
  ⟨h.gives.mono hle, (permits_mono hle S).source h.seen⟩

theorem offers_literal {v : Nbt} (h : v.Proper G.IsRecord (G.MadeAt S.depth)) :
    G.Offers S (.literal v) :=
  ⟨h.mono (fun _ h => h) fun _ h => h.isFunction, h.calls⟩

theorem Reads.offers (h : G.Reads S.depth s) : G.Offers S (.valueOf s) :=
  ⟨⟨s, rfl, h.isValue⟩, h.sees⟩

end

end Uses

/-! ### Arguments of routines -/

/-- What is given to a routine as an argument. -/
inductive Shape where
  /-- A slot that holds script values -/
  | value
  /-- A slot that is tested or joined to a text -/
  | slot
  /-- The slot that takes the result -/
  | result
  /-- A slot that holds the rest of a function -/
  | listener
  /-- A text -/
  | text
  /-- The text of a binary operator -/
  | operator
  /-- The tag of a kind of reference -/
  | kind
  /-- The key of a record of the program -/
  | record
  /-- The key of a channel that the routine fills -/
  | channel
  /-- Anything that may be mentioned -/
  | other
deriving DecidableEq

/-- The argument is the key of a slot. -/
def Shape.isSlot : Shape → Bool
  | .value | .slot | .result | .listener => true
  | _ => false

/-- An argument of the shape is one of the sort. -/
def ArgSort.admits : ArgSort → Shape → Bool
  | .slot, shape => shape.isSlot
  | .text, shape => shape ∈ [.text, .operator, .kind, .record, .channel]
  | .operator, shape => shape = .operator
  | .address, _ => false

/-- A routine can use an argument of the shape so. -/
def ArgUse.admits : ArgUse → Shape → Bool
  | .reads, shape => shape = .value
  | .writes, shape => shape = .result
  | .waits, shape => shape ∈ [.value, .listener]
  | .record, shape => shape = .record
  | .calls, shape => shape = .channel
  | .kind, shape => shape = .kind
  | .other, _ => true
  | .foreign, _ => false

instance (r : Routine) (name : String) : Decidable (r.TakesSlot name) :=
  inferInstanceAs (Decidable (_ ∨ _))

/-- The routine can be called with arguments of these names and shapes. -/
structure Routine.Accepts (r : Routine) (layout : List (String × Shape)) : Prop where
  routine : r ≠ .setVariable ∧ r ≠ .loopArray ∧ r ≠ .callFunction
  nodup : (layout.map (·.1)).Nodup
  names : ∀ e ∈ layout, e.1 ≠ "frame"
  uses : ∀ e ∈ layout, (r.argUse e.1).admits e.2 = true
  slots : ∀ e ∈ layout, r.TakesSlot e.1 → e.2.isSlot = true
  args : ∀ a ∈ r.args, ∃ e ∈ layout, e.1 = a.1 ∧ a.2.admits e.2 = true
  member : r = .setMember → ("property", .text) ∈ layout ∨ ("key", .value) ∈ layout

instance (r : Routine) (layout : List (String × Shape)) : Decidable (r.Accepts layout) :=
  decidable_of_iff (_ ∧ _ ∧ _ ∧ _ ∧ _ ∧ _ ∧ _)
    ⟨fun ⟨h1, h2, h3, h4, h5, h6, h7⟩ => ⟨h1, h2, h3, h4, h5, h6, h7⟩,
      fun h => ⟨h.routine, h.nodup, h.names, h.uses, h.slots, h.args, h.member⟩⟩

namespace Uses

/-- The source gives an argument of the shape, where the result goes to the target. -/
def ShapeFits (G : Uses) (S : Standing) (target : Option Slot) : Shape → Source → Prop
  | .value, source => ∃ s, G.Reads S.depth s ∧ source = .addressOf s
  | .slot, source => ∃ s, G.Sees S.depth s ∧ source = .addressOf s
  | .result, source => ∃ s, target = some s ∧ source = .addressOf s
  | .listener, source => ∃ s, G.slot s = some .listener ∧ source = .addressOf s
  | .text, source => ∃ t, source = .text t
  | .operator, source => ∃ op : BinaryOp, source = .text op.text
  | .kind, source => ∃ kind : Kind, kind.isReference = true ∧ source = .text kind.tag
  | .record, source => ∃ r : Record, r.index < G.records ∧ source = .text r.key
  | .channel, source => ∃ c, G.channel c = some .filled ∧ source = .text c.key
  | .other, source => (G.permits S).source source

/-- The entries give arguments of these names and shapes. -/
inductive Supplied (G : Uses) (S : Standing) (target : Option Slot) :
    List (String × Shape) → Compile.Entries → Prop
  | nil : Supplied G S target [] []
  | cons {name shape source layout entries} (h : G.ShapeFits S target shape source)
      (hrest : Supplied G S target layout entries) :
      Supplied G S target ((name, shape) :: layout) ((name, source) :: entries)

/-- The entries are the arguments of a routine. -/
def Supplies (G : Uses) (S : Standing) (r : Routine) (target : Option Slot)
    (entries : Compile.Entries) : Prop :=
  ∃ layout, G.Supplied S target layout entries ∧ r.Accepts layout

namespace Supplied

variable {G G' : Uses} {S : Standing} {target : Option Slot} {name : String}
  {layout : List (String × Shape)} {entries : Compile.Entries}

theorem value {s : Slot} (h : G.Reads S.depth s) (hrest : G.Supplied S target layout entries) :
    G.Supplied S target ((name, .value) :: layout) ((name, .addressOf s) :: entries) :=
  .cons ⟨s, h, rfl⟩ hrest

theorem slot {s : Slot} (h : G.Sees S.depth s) (hrest : G.Supplied S target layout entries) :
    G.Supplied S target ((name, .slot) :: layout) ((name, .addressOf s) :: entries) :=
  .cons ⟨s, h, rfl⟩ hrest

theorem result {s : Slot} (hrest : G.Supplied S (some s) layout entries) :
    G.Supplied S (some s) ((name, .result) :: layout) ((name, .addressOf s) :: entries) :=
  .cons ⟨s, rfl, rfl⟩ hrest

theorem listener {s : Slot} (h : G.slot s = some .listener)
    (hrest : G.Supplied S target layout entries) :
    G.Supplied S target ((name, .listener) :: layout) ((name, .addressOf s) :: entries) :=
  .cons ⟨s, h, rfl⟩ hrest

theorem text {t : String} (hrest : G.Supplied S target layout entries) :
    G.Supplied S target ((name, .text) :: layout) ((name, .text t) :: entries) :=
  .cons ⟨t, rfl⟩ hrest

theorem operator (op : BinaryOp) (hrest : G.Supplied S target layout entries) :
    G.Supplied S target ((name, .operator) :: layout) ((name, .text op.text) :: entries) :=
  .cons ⟨op, rfl⟩ hrest

theorem kind {kind : Kind} (h : kind.isReference = true)
    (hrest : G.Supplied S target layout entries) :
    G.Supplied S target ((name, .kind) :: layout) ((name, .text kind.tag) :: entries) :=
  .cons ⟨kind, h, rfl⟩ hrest

theorem record {r : Record} (h : r.index < G.records)
    (hrest : G.Supplied S target layout entries) :
    G.Supplied S target ((name, .record) :: layout) ((name, .text r.key) :: entries) :=
  .cons ⟨r, h, rfl⟩ hrest

theorem channel {c : Channel} (h : G.channel c = some .filled)
    (hrest : G.Supplied S target layout entries) :
    G.Supplied S target ((name, .channel) :: layout) ((name, .text c.key) :: entries) :=
  .cons ⟨c, h, rfl⟩ hrest

theorem other {source : Source} (h : (G.permits S).source source)
    (hrest : G.Supplied S target layout entries) :
    G.Supplied S target ((name, .other) :: layout) ((name, source) :: entries) :=
  .cons h hrest

theorem names (h : G.Supplied S target layout entries) :
    entries.map (·.1) = layout.map (·.1) := by
  induction h with
  | nil => rfl
  | cons _ _ ih => simp [ih]

/-- Each entry has its shape. -/
theorem shape (h : G.Supplied S target layout entries) {e : String × Source} (he : e ∈ entries) :
    ∃ shape, (e.1, shape) ∈ layout ∧ G.ShapeFits S target shape e.2 := by
  induction h with
  | nil => cases he
  | @cons name shape source layout entries hfits _ ih =>
    rcases List.mem_cons.1 he with rfl | he
    · exact ⟨shape, List.mem_cons_self, hfits⟩
    · obtain ⟨shape, hmem, hshape⟩ := ih he
      exact ⟨shape, List.mem_cons_of_mem _ hmem, hshape⟩

/-- Each shape has its entry. -/
theorem entry (h : G.Supplied S target layout entries) {l : String × Shape} (hl : l ∈ layout) :
    ∃ source, (l.1, source) ∈ entries ∧ G.ShapeFits S target l.2 source := by
  induction h with
  | nil => cases hl
  | @cons name shape source layout entries hfits _ ih =>
    rcases List.mem_cons.1 hl with rfl | hl
    · exact ⟨source, List.mem_cons_self, hfits⟩
    · obtain ⟨source, hmem, hsource⟩ := ih hl
      exact ⟨source, List.mem_cons_of_mem _ hmem, hsource⟩

end Supplied

section

variable {G G' : Uses} {S : Standing} {target : Option Slot}

theorem ShapeFits.mono {shape : Shape} {source : Source} (h : G.ShapeFits S target shape source)
    (hle : G ≤ G') : G'.ShapeFits S target shape source := by
  cases shape with
  | value | slot =>
    obtain ⟨s, hs, hsource⟩ := h
    exact ⟨s, hs.mono hle, hsource⟩
  | listener =>
    obtain ⟨s, hs, hsource⟩ := h
    exact ⟨s, hle.slot _ _ hs, hsource⟩
  | record =>
    obtain ⟨r, hr, hsource⟩ := h
    exact ⟨r, Nat.lt_of_lt_of_le hr hle.records, hsource⟩
  | channel =>
    obtain ⟨c, hc, hsource⟩ := h
    exact ⟨c, hle.channel _ _ hc, hsource⟩
  | other => exact (permits_mono hle S).source h
  | _ => exact h

theorem Supplied.mono {layout : List (String × Shape)} {entries : Compile.Entries}
    (h : G.Supplied S target layout entries) (hle : G ≤ G') :
    G'.Supplied S target layout entries := by
  induction h with
  | nil => exact .nil
  | cons h _ ih => exact .cons (h.mono hle) ih

theorem Supplies.mono {r : Routine} {entries : Compile.Entries}
    (h : G.Supplies S r target entries) (hle : G ≤ G') : G'.Supplies S r target entries := by
  obtain ⟨layout, hsupplied, haccepts⟩ := h
  exact ⟨layout, hsupplied.mono hle, haccepts⟩

end

end Uses

/-! ### Pieces -/

namespace Uses

/-- The entries are what a call expects whose result goes to a slot. -/
structure CallEntries (G : Uses) (S : Standing) (result : Slot)
    (entries : Compile.Entries) : Prop where
  fits : ∀ e ∈ entries, (ValueEntry e.1 ∧ G.Offers S e.2) ∨
    (e.1 = "return" ∧ e.2 = .addressOf result)
  result : ("return", .addressOf result) ∈ entries

/-- The unit is a part of the one whose code is looked at, and can be entered where the return
    address is written to the slot. -/
structure PartOf (G : Uses) (site : Site) (address : Option Slot) (name : String)
    (u : UnitUse) : Prop where
  unit : G.unit name = some u
  part : u.isPart = true
  root : u.root = site.root
  depth : u.depth = site.depth
  owner : u.owner = some site.owner
  breakable : u.breakable = true → u.kind.takesBreak = true ∨ site.breakable = true
  home : u.home = none ∨ u.home = address

variable (G : Uses) (site : Site) (writes : Slot → Prop)

/-- Instructions that are emitted together, keep to the uses of names and write no slots but
    some. -/
inductive Piece (address : Option Slot) : List Instr → Prop
  | value {guard s source} (hguard : (G.permits site.toStanding).guard guard)
      (hs : G.Takes site.root s) (hsees : G.Sees site.depth s) (hwrites : writes s)
      (hsource : G.Offers site.toStanding source) :
      Piece address [.set guard (.slot s) source]
  | flag {s} (hs : G.slot s = some (.flag site.root)) (hwrites : writes s) (a : Scalar) :
      Piece address [.set .always (.slot s) (.literal a.slot)]
  | raised {guard s source} (hguard : (G.permits site.toStanding).guard guard)
      (hs : G.slot s = some (.flag site.root)) (hwrites : writes s)
      (hsource : (G.permits site.toStanding).source source) :
      Piece address [.set guard (.field s "value") source]
  | listener {s id} (hs : G.slot s = some .listener) (hwrites : writes s)
      (hid : G.MadeAt site.depth id) :
      Piece address [.set .always (.slot s) (.literal (.slot .function (.string "") (some id)))]
  | code {s} (hs : G.slot s = some .code) (hwrites : writes s) (code : Int32) :
      Piece address [.set .always (.slot s) (.literal (.int code))]
  | record {r : Record} {p : Option Record} (hr : r.index < G.records)
      (hprototype : ∀ q, p = some q → q.index < G.records) :
      Piece address [.set .always (.record r []) (.literal (emptyRecord (p.map objectSlot)))]
  | property {r : Record} {name source} (hr : r.index < G.records)
      (hsource : G.Offers site.toStanding source) :
      Piece address [.set .always (.record r ["props", name]) source]
  | returnIf {guard code} (hguard : (G.permits site.toStanding).guard guard)
      (hcode : site.role.Allows code) : Piece address [.returnIf guard code]
  | returnWith {code} (hcode : site.role.Allows code) : Piece address [.returnWith code]
  | raw {text} : Piece address [.raw text]
  /-- A value and its payload -/
  | scalar {s} {a : Scalar} {payloads : List (Guard × Source)}
      (hs : G.slot s = some (.scalar site.root a.kind)) (hwrites : writes s)
      (hpayloads : ∀ e ∈ payloads, (G.permits site.toStanding).guard e.1 ∧
        (G.permits site.toStanding).source e.2 ∧ G.Payload a.kind e.2) :
      Piece address (.set .always (.slot s) (.literal a.slot) ::
        payloads.map fun e => .set e.1 (.field s "value") e.2)
  | library {c r target entries} (hc : G.channel c = some (.library r target))
      (htarget : ∀ s, target = some s → G.Target site s ∧ writes s ∧
        ("result", .addressOf s) ∈ entries)
      (hentries : G.Supplies site.toStanding r target entries) :
      Piece address (fillCode c entries ++ [.invoke .always (.library r) (some c) none])
  | call {c result entries unit u} (hc : G.channel c = some (.call result))
      (hresult : G.slot result = some (.result site.root)) (hwrites : writes result)
      (hentries : G.CallEntries site.toStanding result entries) (hunit : G.unit unit = some u)
      (hbody : u.IsBody) (hcall : G.MayCall site.owner unit) :
      Piece address (fillCode c entries ++ [.invoke .always (.unit unit) (some c) none])
  /-- The call of a function that is a value -/
  | through {c d result callee entries} (hc : G.channel c = some (.call result))
      (hd : G.channel d = some (.library .callFunction (some result)))
      (hresult : G.slot result = some (.result site.root)) (hwrites : writes result)
      (hentries : G.CallEntries site.toStanding result entries)
      (hcallee : G.Reads site.depth callee) :
      Piece address (fillCode c entries ++
        (fillCode d [("function", .addressOf callee), ("channel", .text c.key)] ++
          [.invoke .always (.library .callFunction) (some d) none]))
  | part {guard unit u store} (hguard : (G.permits site.toStanding).guard guard)
      (hunit : G.PartOf site address unit u) (hfed : u.fed = false)
      (hstore : ∀ p, store = some p → ∃ s, p = .slot s ∧ G.slot s = some .code ∧ writes s) :
      Piece address [.invoke guard (.unit unit) none store]
  | each {c d : Channel} {array cell : Slot} {unit u} (hc : G.channel c = some (.each unit))
      (hd : G.channel d = some .filled) (harray : G.Reads site.depth array)
      (hunit : G.PartOf site address unit u) (hloop : u.kind = .loop)
      (hcell : G.slot cell = some .code) (hwrites : writes cell) :
      Piece address (fillCode c [("array", .addressOf array),
          ("function", .text (functionId G.ns unit)), ("channel", .text d.key)] ++
        [.set .always (.slot cell) (.literal (.int Instr.normal)),
          .invoke .always (.library .loopArray) (some c) (some (.slot cell))])
  /-- A value is handed to the caller. A function that may wait hands out its promise, in the unit
      that it starts with -/
  | answer {c d s} (hc : G.channel c = some (.answer d s)) (hd : G.slot d = some .address)
      (haddress : address = some d) (hs : G.Reads site.depth s)
      (hasync : site.isAsync = true → G.slot s = some (.promise site.root) ∧
        site.unit = site.root) :
      Piece address (answerCode c d s)

/-- Pieces one after the other, from a point where the first return address is written to one where
    the second is. -/
inductive Pieces : Option Slot → List Instr → Option Slot → Prop
  | nil {a} : Pieces a [] a
  | cons {a b is js} (his : G.Piece site writes a is) (hjs : Pieces a js b) :
      Pieces a (is ++ js) b
  /-- The return address is kept, if there is one -/
  | address {a b d js} (hd : G.slot d = some .address) (hwrites : writes d)
      (hfed : site.fed = true) (hjs : Pieces (some d) js b) :
      Pieces a (.set .always (.slot d) (.literal (.string "")) ::
        .set .always (.slot d) (.param "return") :: js) b

end Uses

section

variable {G G' : Uses} {site : Site} {writes writes' : Slot → Prop} {a b c : Option Slot}
  {is js : List Instr}

namespace Uses

theorem CallEntries.mono {S : Standing} {result : Slot} {entries : Compile.Entries}
    (h : G.CallEntries S result entries) (hle : G ≤ G') : G'.CallEntries S result entries :=
  ⟨fun e he => (h.fits e he).imp_left (And.imp_right (·.mono hle)), h.result⟩

theorem PartOf.mono {name : String} {u : UnitUse} (h : G.PartOf site a name u) (hle : G ≤ G') :
    G'.PartOf site a name u :=
  { h with unit := hle.unit _ _ h.unit }

/-- Uses only grow, and more may be written. -/
theorem Piece.mono (h : G.Piece site writes a is) (hle : G ≤ G')
    (hwrites' : ∀ s, writes s → writes' s) : G'.Piece site writes' a is := by
  have hpermits := permits_mono hle site.toStanding
  cases h with
  | value hguard hs hsees hwrites hsource =>
    exact .value (hpermits.guard hguard) (hs.mono hle) (hsees.mono hle) (hwrites' _ hwrites)
      (hsource.mono hle)
  | flag hs hwrites v => exact .flag (hle.slot _ _ hs) (hwrites' _ hwrites) v
  | raised hguard hs hwrites hsource =>
    exact .raised (hpermits.guard hguard) (hle.slot _ _ hs) (hwrites' _ hwrites)
      (hpermits.source hsource)
  | listener hs hwrites hid => exact .listener (hle.slot _ _ hs) (hwrites' _ hwrites) (hid.mono hle)
  | code hs hwrites code => exact .code (hle.slot _ _ hs) (hwrites' _ hwrites) code
  | record hr hprototype =>
    exact .record (Nat.lt_of_lt_of_le hr hle.records)
      fun q hq => Nat.lt_of_lt_of_le (hprototype q hq) hle.records
  | property hr hsource => exact .property (Nat.lt_of_lt_of_le hr hle.records) (hsource.mono hle)
  | returnIf hguard hcode => exact .returnIf (hpermits.guard hguard) hcode
  | returnWith hcode => exact .returnWith hcode
  | raw => exact .raw
  | scalar hs hwrites hpayloads =>
    refine .scalar (hle.slot _ _ hs) (hwrites' _ hwrites) fun e he => ?_
    obtain ⟨hguard, hsource, hpayload⟩ := hpayloads e he
    exact ⟨hpermits.guard hguard, hpermits.source hsource, hpayload.mono hle⟩
  | library hc htarget hentries =>
    refine .library (hle.channel _ _ hc) (fun s hs => ?_) (hentries.mono hle)
    obtain ⟨hs, hwrites, hresult⟩ := htarget s hs
    exact ⟨hs.mono hle, hwrites' _ hwrites, hresult⟩
  | call hc hresult hwrites hentries hunit hbody hcall =>
    exact .call (hle.channel _ _ hc) (hle.slot _ _ hresult) (hwrites' _ hwrites)
      (hentries.mono hle) (hle.unit _ _ hunit) hbody (hcall.mono hle)
  | through hc hd hresult hwrites hentries hcallee =>
    exact .through (hle.channel _ _ hc) (hle.channel _ _ hd) (hle.slot _ _ hresult)
      (hwrites' _ hwrites) (hentries.mono hle) (hcallee.mono hle)
  | part hguard hunit hfed hstore =>
    refine .part (hpermits.guard hguard) (hunit.mono hle) hfed fun p hp => ?_
    obtain ⟨s, hs, huse, hwrites⟩ := hstore p hp
    exact ⟨s, hs, hle.slot _ _ huse, hwrites' _ hwrites⟩
  | each hc hd harray hunit hloop hcell hwrites =>
    rw [← hle.ns]
    exact .each (hle.channel _ _ hc) (hle.channel _ _ hd) (harray.mono hle) (hunit.mono hle) hloop
      (hle.slot _ _ hcell) (hwrites' _ hwrites)
  | answer hc hd haddress hs hasync =>
    exact .answer (hle.channel _ _ hc) (hle.slot _ _ hd) haddress (hs.mono hle)
      fun h => (hasync h).imp_left (hle.slot _ _)

theorem Pieces.mono (h : G.Pieces site writes a is b) (hle : G ≤ G')
    (hwrites' : ∀ s, writes s → writes' s) : G'.Pieces site writes' a is b := by
  induction h with
  | nil => exact .nil
  | cons his _ ih => exact .cons (his.mono hle hwrites') ih
  | address hd hwrites hfed _ ih =>
    exact .address (hle.slot _ _ hd) (hwrites' _ hwrites) hfed ih

theorem Pieces.append (h : G.Pieces site writes a is b) (h' : G.Pieces site writes b js c) :
    G.Pieces site writes a (is ++ js) c := by
  induction h with
  | nil => exact h'
  | cons his _ ih =>
    rw [List.append_assoc]
    exact .cons his (ih h')
  | address hd hwrites hfed _ ih => exact .address hd hwrites hfed (ih h')

theorem Piece.pieces (h : G.Piece site writes a is) : G.Pieces site writes a is a := by
  have hsingle := Pieces.cons h .nil
  rwa [List.append_nil] at hsingle

end Uses

end

end PackScript
