import PackScript.Proofs.Machine.Arguments
import PackScript.Proofs.Steps

namespace PackScript

/-!
# Code that runs straight on

Most of the code of an expression writes slots that nothing else uses and calls routines that
answer at once. What such code does is a function of the machine, whatever comes behind it.

* `Machine.putSlot`, `Machine.putChannel` — the machine with one slot or channel written.
* `Run.Straight is m m'` — the instructions take `m` to `m'` and go on.
* `Run.straight_set`, `Run.straight_raise` — writes to slots.
* `Run.straight_fill`, `Run.straight_library` — calls of library routines.
* `Run.straight_operator` — the code of a binary operator writes what the operator is worth.
-/

variable {op : BinaryOp} {c : Channel} {guard : Guard} {entries : List (String × Nbt)} {v : Nbt}
  {operation : Option String} {target : Place} {name : Routine} {s : Slot} {source : Source}

/-! ### Written trees -/

namespace Nbt

/-- The tree is one that has entries. -/
def IsCompound (v : Nbt) : Prop :=
  ∃ entries, v = .compound entries

/-- The tree with an entry written. -/
def put (v : Nbt) (key : String) (value : Nbt) : Nbt :=
  match v with
  | .compound entries => .compound (Table.put entries key value)
  | _ => .compound [(key, value)]

variable {v value : Nbt} {key name : String}

theorem isCompound_put (v : Nbt) (key : String) (value : Nbt) : (v.put key value).IsCompound := by
  cases v <;> exact ⟨_, rfl⟩

@[simp] theorem get?_put (v : Nbt) (key name : String) (value : Nbt) :
    (v.put key value).get? name = if key = name then some value else v.get? name := by
  cases v with
  | compound entries => exact Table.find?_put entries key name value
  | _ => by_cases h : key = name <;> simp [put, get?, Table.find?, h]

/-- Of two writes to one entry the second counts. -/
theorem put_put (v : Nbt) (key : String) (value value' : Nbt) :
    (v.put key value).put key value' = v.put key value' := by
  cases v with
  | compound entries =>
    have htable : Table.put (Table.put entries key value) key value' =
        Table.put entries key value' := by
      induction entries with
      | nil => simp [Table.put]
      | cons e rest ih =>
        obtain ⟨name, w⟩ := e
        by_cases hname : name = key <;> simp [Table.put, hname, ih]
    exact congrArg Nbt.compound htable
  | _ => simp [put, Table.put]

theorem IsCompound.of_get? (h : v.get? key = some value) : v.IsCompound := by
  cases v with
  | compound entries => exact ⟨entries, rfl⟩
  | _ => cases h

/-- A write below an entry writes what becomes of the entry. -/
theorem setPath_put {child : Nbt} {path : List String} (h : v.IsCompound)
    (hset : ((v.get? key).getD empty).setPath path value = some child) :
    v.setPath (key :: path) value = some (v.put key child) := by
  obtain ⟨entries, rfl⟩ := h
  have hset' : ((Table.find? entries key).getD empty).setPath path value = some child := hset
  rw [setPath, hset']
  rfl

theorem setPath_single (h : v.IsCompound) : v.setPath [key] value = some (v.put key value) :=
  setPath_put h rfl

theorem setPath_pair (h : v.IsCompound) (hkey : ((v.get? key).getD empty).IsCompound) :
    v.setPath [key, name] value =
      some (v.put key (((v.get? key).getD empty).put name value)) :=
  setPath_put h (setPath_single hkey)

end Nbt

/-! ### Written machines -/

namespace Machine

/-- Slots and channels are kept in compounds. -/
structure Stored (m : Machine) : Prop where
  slots : m.slots.IsCompound
  channels : m.channels.IsCompound

/-- The machine with a slot written. -/
def putSlot (m : Machine) (s : Slot) (v : Nbt) : Machine :=
  { m with slots := m.slots.put s.key v }

/-- The machine with a channel written. -/
def putChannel (m : Machine) (c : Channel) (v : Nbt) : Machine :=
  { m with channels := m.channels.put c.key v }

/-- The machine with another bound on the depth of calls. -/
def cap (m : Machine) (k : Nat) : Machine :=
  { m with maxDepth := k }

variable {m : Machine}

theorem Stored.cap (h : m.Stored) (k : Nat) : (m.cap k).Stored :=
  ⟨h.slots, h.channels⟩

theorem Stored.putSlot (h : m.Stored) (s : Slot) (v : Nbt) : (m.putSlot s v).Stored :=
  ⟨Nbt.isCompound_put _ _ _, h.channels⟩

theorem Stored.putChannel (h : m.Stored) (c : Channel) (v : Nbt) : (m.putChannel c v).Stored :=
  ⟨h.slots, Nbt.isCompound_put _ _ _⟩

@[simp] theorem slots_cap (m : Machine) (k : Nat) : (m.cap k).slots = m.slots := rfl

@[simp] theorem slots_putChannel (m : Machine) (c : Channel) (v : Nbt) :
    (m.putChannel c v).slots = m.slots := rfl

@[simp] theorem get?_putSlot (m : Machine) (s : Slot) (v : Nbt) (key : String) :
    (m.putSlot s v).slots.get? key = if s.key = key then some v else m.slots.get? key :=
  Nbt.get?_put _ _ _ _

/-- The guard that always holds. -/
@[simp] theorem holds_always (m : Machine) : m.holds .always = true := rfl

end Machine

namespace Run

/-! ### Going on -/

/-- The instructions take the machine from one state to another and go on, whatever comes behind
    them, whatever calls do and however deep they may be. -/
def Straight (is : List Instr) (m m' : Machine) : Prop :=
  ∀ k call channel rest, steps call channel (is ++ rest) (m.cap k) =
    steps call channel rest (m'.cap k)

variable {m m1 m2 : Machine} {is js : List Instr}

theorem Straight.nil (m : Machine) : Straight [] m m :=
  fun _ _ _ _ => rfl

theorem Straight.append (h : Straight is m m1) (h' : Straight js m1 m2) :
    Straight (is ++ js) m m2 := by
  intro k call channel rest
  rw [List.append_assoc, h, h']

/-- An instruction that does not end its unit. -/
theorem Straight.single {i : Instr}
    (h : ∀ k call channel, step call channel i (m.cap k) = .ok none (m1.cap k)) :
    Straight [i] m m1 := by
  intro k call channel rest
  rw [List.singleton_append, steps_cons, h]

/-- Code that goes straight on to its end answers the normal code. -/
theorem Straight.steps_eq (h : Straight is m m1) (call : Executor) (channel : Option String) :
    steps call channel is m = .ok Instr.normal (m1.cap m.maxDepth) := by
  have hrun := h m.maxDepth call channel []
  rw [List.append_nil] at hrun
  exact hrun

/-! ### Writes -/

/-- A write of something that is there. -/
theorem straight_set (hguard : m.holds guard = true)
    (hsource : ∀ channel, m.take channel source = some v)
    (hwrite : ∀ k, write target.address.storage target.fullPath v (m.cap k) = .ok () (m1.cap k)) :
    Straight [.set guard target source] m m1 := by
  refine .single fun k call channel => ?_
  have hguard' : (m.cap k).holds guard = true := hguard
  have hsource' : (m.cap k).take channel source = some v := hsource channel
  rw [step_set, hguard', if_pos rfl, hsource']
  exact bind_of_ok (hwrite k)

/-- A write whose guard does not hold. -/
theorem straight_skip (hguard : m.holds guard = false) :
    Straight [.set guard target source] m m := by
  refine .single fun k call channel => ?_
  have hguard' : (m.cap k).holds guard = false := hguard
  rw [step_set, hguard']
  rfl

theorem write_slot (hm : m.Stored) (s : Slot) (v : Nbt) :
    write .slots [s.key] v m = .ok () (m.putSlot s v) := by
  refine (bind_of_ok rfl).trans ?_
  simp only [Machine.storage, Nbt.setPath_single hm.slots]
  rfl

/-- A slot is written. -/
theorem straight_set_slot (hm : m.Stored) (hguard : m.holds guard = true)
    (hsource : ∀ channel, m.take channel source = some v) :
    Straight [.set guard (.slot s) source] m (m.putSlot s v) :=
  straight_set hguard hsource fun k => write_slot (hm.cap k) s v

/-- The payload of a slot that holds a scalar is written. -/
theorem write_payload {kind : Kind} {old : Nbt} (hm : m.Stored)
    (hs : m.slots.get? s.key = some (.slot kind old none)) (v : Nbt) :
    write .slots [s.key, "value"] v m = .ok () (m.putSlot s (.slot kind v none)) := by
  have hset : m.slots.setPath [s.key, "value"] v =
      some (m.slots.put s.key (.slot kind v none)) := by
    rw [Nbt.setPath_pair hm.slots (by rw [hs]; exact ⟨_, rfl⟩), hs]
    rfl
  refine (bind_of_ok rfl).trans ?_
  simp only [Machine.storage, hset]
  rfl

/-! ### Calls of library routines -/

/-- The instructions of a call of a library routine. -/
def libraryCode (c : Channel) (routine : Routine) (entries : Compile.Entries) : List Instr :=
  fillCode c entries ++ [.invoke .always (.library routine) (some c) none]

/-- The tree of a channel that was emptied and then written entry by entry. -/
def filledTree (c : Channel) (entries : List (String × Nbt)) : Nbt :=
  entries.foldl (fun tree e => tree.put e.1 e.2) (.compound [("frame", .string c.key)])

/-- The writes of entries that are known. -/
def literalEntries (entries : List (String × Nbt)) : Compile.Entries :=
  entries.map fun e => (e.1, .literal e.2)

/-- An entry of a channel that was written is there. -/
theorem get?_filledTree {name : String} (hnodup : (entries.map (·.1)).Nodup)
    (h : (name, v) ∈ entries) : (filledTree c entries).get? name = some v := by
  -- what is written later has another name
  have hkeep : ∀ (es : List (String × Nbt)) (tree : Nbt), name ∉ es.map (·.1) →
      (es.foldl (fun tree e => tree.put e.1 e.2) tree).get? name = tree.get? name := by
    intro es
    induction es with
    | nil => exact fun _ _ => rfl
    | cons e es ih =>
      intro tree hname
      simp only [List.map_cons, List.mem_cons, not_or] at hname
      rw [List.foldl_cons, ih _ hname.2, Nbt.get?_put, if_neg (Ne.symm hname.1)]
  unfold filledTree
  generalize Nbt.compound [("frame", .string c.key)] = tree
  induction entries generalizing tree with
  | nil => cases h
  | cons e es ih =>
    simp only [List.map_cons, List.nodup_cons] at hnodup
    rw [List.foldl_cons]
    rcases List.mem_cons.1 h with rfl | hmem
    · rw [hkeep es _ hnodup.1, Nbt.get?_put, if_pos rfl]
    · exact ih hnodup.2 hmem _

/-- A text that was written to a channel is an argument of the routine. -/
theorem text?_filledTree {name text : String} (hnodup : (entries.map (·.1)).Nodup)
    (h : (name, .string text) ∈ entries) :
    (Args.mk c.key (filledTree c entries)).text? name = some text := by
  simp [Args.text?, get?_filledTree hnodup h, Nbt.text?]

/-- Instructions that fill a channel. -/
theorem straight_fill (hm : m.Stored) (c : Channel) (entries : List (String × Nbt)) :
    Straight (fillCode c (literalEntries entries)) m (m.putChannel c (filledTree c entries)) := by
  have hempty : Straight [.set .always (.channel c)
      (.literal (.compound [("frame", .string c.key)]))] m
      (m.putChannel c (.compound [("frame", .string c.key)])) := by
    refine straight_set rfl (fun _ => rfl) fun k => (bind_of_ok rfl).trans ?_
    have hset : m.channels.setPath [c.key] (.compound [("frame", .string c.key)]) =
        some (m.channels.put c.key (.compound [("frame", .string c.key)])) :=
      Nbt.setPath_single hm.channels
    simp only [Place.fullPath, Place.channel, Address.storage, Address.key, Machine.storage,
      Machine.cap, hset]
    rfl
  -- the entries are written one after the other into the same compound
  have hentries : ∀ (es : List (String × Nbt)) (tree : Nbt), tree.IsCompound →
      Straight ((literalEntries es).map fun e => .set .always (.entry c e.1) e.2)
        (m.putChannel c tree)
        (m.putChannel c (es.foldl (fun tree e => tree.put e.1 e.2) tree)) := by
    intro es
    induction es with
    | nil => exact fun tree _ => .nil _
    | cons e es ih =>
      intro tree htree
      have hentry : Straight [.set .always (.entry c e.1) (.literal e.2)] (m.putChannel c tree)
          (m.putChannel c (tree.put e.1 e.2)) := by
        refine straight_set rfl (fun _ => rfl) fun k => (bind_of_ok rfl).trans ?_
        have hget : ((m.channels.put c.key tree).get? c.key).getD .empty = tree := by
          rw [Nbt.get?_put, if_pos rfl]
          rfl
        have hset : (m.channels.put c.key tree).setPath [c.key, e.1] e.2 =
            some (m.channels.put c.key (tree.put e.1 e.2)) := by
          rw [Nbt.setPath_pair (Nbt.isCompound_put _ _ _) (by rw [hget]; exact htree), hget,
            Nbt.put_put]
        simp only [Place.fullPath, Place.entry, Address.storage, Address.key, Machine.storage,
          Machine.cap, Machine.putChannel, hset]
        rfl
      exact hentry.append (ih _ (Nbt.isCompound_put _ _ _))
  exact hempty.append (hentries entries _ ⟨_, rfl⟩)

/-- A call of a routine that answers the normal code and calls nothing itself. -/
theorem straight_library {r : Routine} (hm : m.Stored)
    (hroutine : ∀ k call, routine call ⟨c.key, filledTree c entries⟩ r
      ((m.putChannel c (filledTree c entries)).cap k) = .ok Instr.normal (m1.cap k)) :
    Straight (libraryCode c r (literalEntries entries)) m m1 := by
  refine (straight_fill hm c entries).append (.single fun k call channel => ?_)
  have hfound : ((m.putChannel c (filledTree c entries)).channels.get? c.key).getD .empty =
      filledTree c entries := by
    simp [Machine.putChannel]
  have hcall : callRoutine call r (some c.key) ((m.putChannel c (filledTree c entries)).cap k) =
      .ok Instr.normal (m1.cap k) := by
    refine (bind_of_ok rfl).trans ?_
    simp only [Machine.cap, Option.getD_some, hfound]
    exact hroutine k call
  rw [step_invoke, Machine.holds_always, if_pos rfl]
  exact (bind_of_ok hcall).trans rfl

end Run

/-! ### Operators on slots -/

/-- A slot that holds a scalar is read as that scalar. -/
@[simp] theorem Value.ofSlot_slot (a : Scalar) : Value.ofSlot a.slot = .scalar a := by
  cases a <;> rfl

namespace Run

variable {m : Machine} {a : Args} {key : String} {s : Slot} {v : Scalar}

theorem ofSlot_scalar (hs : m.slots.get? s.key = some v.slot) :
    Value.ofSlot (m.slot s.key) = .scalar v := by
  rw [Machine.slot, hs]
  exact Value.ofSlot_slot v

theorem valueArgument_slot (hkey : a.text? key = some s.key)
    (hs : m.slots.get? s.key = some v.slot) : valueArgument a key m = .ok (.scalar v) m := by
  rw [valueArgument_run hkey, ofSlot_scalar hs]

theorem answer_slot (hm : m.Stored) (hresult : a.text? "result" = some s.key) (w : Nbt) :
    answer a w m = .ok () (m.putSlot s w) :=
  (bind_of_ok (argument_run hresult)).trans (write_slot hm s w)

variable {left right result : Slot} {l r : Scalar} (hm : m.Stored)
  (hleft : a.text? "left" = some left.key) (hright : a.text? "right" = some right.key)
  (hresult : a.text? "result" = some result.key)

section

include hm hleft hright hresult

/-- A routine on two scalars writes the scalar that its function gives. -/
theorem binaryRoutine_slot (f : Scalar → Scalar → Scalar)
    (hl : m.slots.get? left.key = some l.slot) (hr : m.slots.get? right.key = some r.slot) :
    binaryRoutine a f m = .ok () (m.putSlot result (f l r).slot) := by
  refine (bind_of_ok (valueArgument_slot hleft hl)).trans ?_
  refine (bind_of_ok (valueArgument_slot hright hr)).trans ?_
  exact (bind_of_ok rfl).trans (answer_slot hm hresult _)

/-- A comparison for equality, of any values. -/
theorem equalsRoutine_run (hop : a.text? "operation" = some op.text) :
    equalsRoutine a m = .ok () (m.putSlot result
      (Scalar.boolean (m.equalValues (op = .strictEq || op = .strictNotEq)
        (.ofSlot (m.slot left.key)) (.ofSlot (m.slot right.key))
        != (op = .notEq || op = .strictNotEq))).slot) := by
  refine (bind_of_ok (operatorArgument_run hop)).trans ?_
  refine (bind_of_ok (valueArgument_run hleft)).trans ?_
  refine (bind_of_ok (valueArgument_run hright)).trans ?_
  exact (bind_of_ok rfl).trans (answer_slot hm hresult _)

/-- A comparison for equality writes what the operator is worth. -/
theorem equalsRoutine_slot (hequality : op = .eq ∨ op = .notEq ∨ op = .strictEq ∨ op = .strictNotEq)
    (hop : a.text? "operation" = some op.text) (hl : m.slots.get? left.key = some l.slot)
    (hr : m.slots.get? right.key = some r.slot) :
    ∃ v, Scalar.binary op l r = some v ∧
      equalsRoutine a m = .ok () (m.putSlot result v.slot) := by
  rw [equalsRoutine_run hm hleft hright hresult hop, ofSlot_scalar hl, ofSlot_scalar hr]
  rcases hequality with rfl | rfl | rfl | rfl <;>
    simp [Scalar.binary, Machine.equalValues]

/-- The routine of an operator writes what the operator is worth. -/
theorem routine_operator (hroutine : op.routine? = some (name, operation)) (call : Executor)
    (hop : ∀ text, operation = some text → a.text? "operation" = some text)
    (hl : m.slots.get? left.key = some l.slot) (hr : m.slots.get? right.key = some r.slot) :
    ∃ v, Scalar.binary op l r = some v ∧
      routine call a name m = .ok Instr.normal (m.putSlot result v.slot) := by
  -- the operators that share a routine tell it which one is meant
  have hnamed : operation = some op.text → ∀ v, Scalar.binary op l r = some v →
      normally (operatorRoutine a) m = .ok Instr.normal (m.putSlot result v.slot) := by
    intro hoperation v hv
    have hrun := binaryRoutine_slot hm hleft hright hresult
      (fun l r => (Scalar.binary op l r).getD .undefined) hl hr
    rw [hv] at hrun
    exact (bind_of_ok ((bind_of_ok (operatorArgument_run (hop _ hoperation))).trans hrun)).trans rfl
  have hequals : ∀ {op' : BinaryOp}, op' = op → operation = some op'.text →
      (op' = .eq ∨ op' = .notEq ∨ op' = .strictEq ∨ op' = .strictNotEq) →
      ∃ v, Scalar.binary op l r = some v ∧
        normally (equalsRoutine a) m = .ok Instr.normal (m.putSlot result v.slot) := by
    rintro op' rfl hoperation hequality
    obtain ⟨v, hv, hrun⟩ := equalsRoutine_slot hm hleft hright hresult hequality
      (hop _ hoperation) hl hr
    exact ⟨v, hv, (bind_of_ok hrun).trans rfl⟩
  cases op <;> cases hroutine
  case add | sub =>
    exact ⟨_, rfl, (bind_of_ok (binaryRoutine_slot hm hleft hright hresult _ hl hr)).trans rfl⟩
  case mul | div | mod | exp | lt | ltEq | gt | gtEq => exact ⟨_, rfl, hnamed rfl _ rfl⟩
  case eq | notEq | strictEq | strictNotEq => exact hequals rfl rfl (by simp)

end

/-- The entries of the channel for an operator. -/
def operatorEntries (left right result : Slot) (operation : Option String) :
    List (String × Nbt) :=
  [("left", .string left.key), ("right", .string right.key), ("result", .string result.key)] ++
    operation.toList.map fun text => ("operation", .string text)

/-- The entries are those that the compiler writes. -/
theorem literalEntries_operator (left right result : Slot) (operation : Option String) :
    literalEntries (operatorEntries left right result operation) =
      [("left", .addressOf left), ("right", .addressOf right), ("result", .addressOf result)] ++
        operation.toList.map fun text => ("operation", .text text) := by
  cases operation <;> rfl

/-- The arguments that the routine of an operator finds. -/
def operatorArgs (c : Channel) (left right result : Slot) (operation : Option String) : Args :=
  ⟨c.key, filledTree c (operatorEntries left right result operation)⟩

theorem text?_operatorArgs (c : Channel) (left right result : Slot) (operation : Option String) :
    (operatorArgs c left right result operation).text? "left" = some left.key ∧
    (operatorArgs c left right result operation).text? "right" = some right.key ∧
    (operatorArgs c left right result operation).text? "result" = some result.key ∧
    ∀ text, operation = some text →
      (operatorArgs c left right result operation).text? "operation" = some text := by
  have hnodup : ((operatorEntries left right result operation).map (·.1)).Nodup := by
    cases operation <;> simp [operatorEntries]
  have htext : ∀ name text, (name, Nbt.string text) ∈ operatorEntries left right result operation →
      (operatorArgs c left right result operation).text? name = some text :=
    fun _ _ hmem => text?_filledTree hnodup hmem
  refine ⟨htext _ _ ?_, htext _ _ ?_, htext _ _ ?_, fun text hoperation => htext _ _ ?_⟩
  · simp [operatorEntries]
  · simp [operatorEntries]
  · simp [operatorEntries]
  · simp [operatorEntries, hoperation]

/-- The code of an operator writes what the operator is worth. -/
theorem straight_operator (hroutine : op.routine? = some (name, operation)) (c : Channel)
    (result : Slot) (hm : m.Stored) (hl : m.slots.get? left.key = some l.slot)
    (hr : m.slots.get? right.key = some r.slot) :
    ∃ v, Scalar.binary op l r = some v ∧
      Straight (libraryCode c name (literalEntries (operatorEntries left right result operation)))
        m ((m.putChannel c (filledTree c (operatorEntries left right result operation))).putSlot
          result v.slot) := by
  obtain ⟨hleft, hright, hresult, hop⟩ := text?_operatorArgs c left right result operation
  have hrun := fun k call => routine_operator
    ((hm.putChannel c (filledTree c (operatorEntries left right result operation))).cap k)
    hleft hright hresult hroutine call hop hl hr
  obtain ⟨v, hv, _⟩ := hrun 0 fun _ _ => pure Instr.normal
  refine ⟨v, hv, straight_library hm fun k call => ?_⟩
  obtain ⟨v', hv', hrun'⟩ := hrun k call
  obtain rfl : v = v' := Option.some.inj (hv.symm.trans hv')
  exact hrun'

end Run

end PackScript
