import PackScript.Tree.Target
import PackScript.Proofs.Token.Stream

namespace PackScript

/-!
# Extents of trees

* `Node`, `Node.span`, `Node.children` — the nodes of the tree of a script, with their extents and
  the nodes that they are made of.
* `Nodes` — what a parser gives has some outermost nodes.
* `Node.Sound` — a node and all below it begin at tokens of a text and, if places are known, lie in
  the text and each in the one above it.
* `Fits` — the nodes of a value are so, and lie between two places.
* `Expr.toPattern_fits`, `Expr.toTarget_fits` — an expression that turns out to be a target keeps
  this, or is at fault at a token of the text.
-/

/-! ### Places of tokens -/

/-- The extent begins where a token of the text does. -/
def Span.IsPlaceOf (s : String) (span : Span) : Prop :=
  ∃ token, IsTokenOf s token ∧ Location.ofSpan span = .ofSpan token.span

/-- The diagnostic says that the text is no script, and is at one of its tokens or its end. -/
def Diagnostic.IsFaultOf (s : String) (d : Diagnostic) : Prop :=
  d.kind = .malformed ∧ ∃ token, IsTokenOf s token ∧ d.location = .ofSpan token.span

theorem Span.IsPlaceOf.malformed {s : String} {span : Span} (h : span.IsPlaceOf s)
    (message : String) : (Diagnostic.malformed message span).IsFaultOf s := by
  obtain ⟨token, htoken, hplace⟩ := h
  exact ⟨rfl, token, htoken, hplace⟩

/-! ### Nodes -/

/-- A node of the tree of a script. -/
inductive Node where
  | ident (id : Ident)
  | expr (e : Expr)
  | key (k : PropertyKey)
  | property (p : Property)
  | function (fn : Function)
  | block (b : Block)
  | param (p : Param)
  | class_ (c : ClassNode)
  | classBody (members : List ClassMember) (span : Span)
  | classMember (m : ClassMember)
  | pattern (p : Pattern)
  | patternProperty (p : PatternProperty)
  | stmt (s : Stmt)
  | declaration (d : Declaration)
  | declarator (d : Declarator)
  | switchCase (c : SwitchCase)

/-- The extent of a node. -/
def Node.span : Node → Span
  | .ident id => id.span
  | .expr e => e.span
  | .key k => k.span
  | .property (.entry _ _ _ _ _ span) | .property (.spread _ span) => span
  | .function fn => fn.span
  | .block b => b.span
  | .param p => p.span
  | .class_ c => c.span
  | .classBody _ span => span
  | .classMember (.method _ _ _ _ span) | .classMember (.ctor _ _ span) => span
  | .classMember (.field f) => f.span
  | .pattern p => p.span
  | .patternProperty (.entry _ _ span) | .patternProperty (.rest _ span) => span
  | .stmt (.declare d) => d.span
  | .stmt (.function _ fn) => fn.span
  | .stmt (.classDecl _ c) => c.span
  | .stmt (.block b) => b.span
  | .stmt (.branch _ _ _ span) | .stmt (.switch _ _ span) | .stmt (.forLoop _ _ _ _ span)
  | .stmt (.forOf _ _ _ span) | .stmt (.whileLoop _ _ span) | .stmt (.doWhile _ _ span)
  | .stmt (.returning _ span) | .stmt (.breaking _ span) | .stmt (.expr _ span)
  | .stmt (.unsupported _ span) | .stmt (.empty span) => span
  | .declaration d => d.span
  | .declarator d => d.span
  | .switchCase c => c.span

/-- Values of the type are nodes. -/
class IsNode (α : Type) where
  node : α → Node

/-- Values of the type have outermost nodes. -/
class Nodes (α : Type) where
  nodes : α → List Node

export IsNode (node)
export Nodes (nodes)

instance : IsNode Ident := ⟨.ident⟩
instance : IsNode Expr := ⟨.expr⟩
instance : IsNode PropertyKey := ⟨.key⟩
instance : IsNode Property := ⟨.property⟩
instance : IsNode Function := ⟨.function⟩
instance : IsNode Block := ⟨.block⟩
instance : IsNode Param := ⟨.param⟩
instance : IsNode ClassNode := ⟨.class_⟩
instance : IsNode (List ClassMember × Span) := ⟨fun r => .classBody r.1 r.2⟩
instance : IsNode ClassMember := ⟨.classMember⟩
instance : IsNode Pattern := ⟨.pattern⟩
instance : IsNode (Pattern × Span) := ⟨fun r => .pattern (.rest r.1 r.2)⟩
instance : IsNode PatternProperty := ⟨.patternProperty⟩
instance : IsNode Stmt := ⟨.stmt⟩
instance : IsNode Declaration := ⟨.declaration⟩
instance : IsNode Declarator := ⟨.declarator⟩
instance : IsNode SwitchCase := ⟨.switchCase⟩

section

variable {α β : Type}

instance [IsNode α] : Nodes α := ⟨fun a => [node a]⟩

instance [Nodes α] : Nodes (Option α) where
  nodes
    | none => []
    | some a => nodes a

instance [Nodes α] : Nodes (List α) := ⟨List.flatMap nodes⟩
instance [Nodes α] [Nodes β] : Nodes (α × β) := ⟨fun r => nodes r.1 ++ nodes r.2⟩
instance [Nodes α] [Nodes β] : Nodes (α ⊕ β) := ⟨Sum.elim nodes nodes⟩
instance : Nodes Unit := ⟨fun _ => []⟩
instance : Nodes Bool := ⟨fun _ => []⟩
instance : Nodes Nat := ⟨fun _ => []⟩
instance : Nodes String := ⟨fun _ => []⟩
instance : Nodes MethodKind := ⟨fun _ => []⟩

instance : Nodes MemberKey where
  nodes
    | .name id => nodes id
    | .index e => nodes e

instance : Nodes ArrowBody where
  nodes
    | .expr e => nodes e
    | .block b => nodes b

instance : Nodes AssignTarget where
  nodes
    | .ident id => nodes id
    | .member m => nodes (Expr.member m)
    | .pattern p => nodes p

instance : Nodes ForInit where
  nodes
    | .declare d => nodes d
    | .expr e => nodes e

instance : Nodes ForTarget where
  nodes
    | .declared _ p | .existing p => nodes p

instance : Nodes Script := ⟨fun script => nodes script.body⟩

end

/-- The nodes that a node is made of. -/
def Node.children : Node → List Node
  | .expr (.array elements _) => nodes elements
  | .expr (.object properties _) => nodes properties
  | .expr (.function fn) => nodes fn
  | .expr (.arrow params body _ _) => nodes (params, body)
  | .expr (.classExpr c) => nodes c
  | .expr (.template _ parts _) | .expr (.sequence parts _) => nodes parts
  | .expr (.unary _ e _) | .expr (.update _ e _ _) | .expr (.spread e _)
  | .expr (.await e _) => nodes e
  | .expr (.binary _ left right _) | .expr (.logical _ left right _) => nodes (left, right)
  | .expr (.conditional test yes no _) => nodes (test, yes, no)
  | .expr (.assign _ target value _) => nodes (target, value)
  | .expr (.member m) => nodes (m.object, m.key)
  | .expr (.call callee arguments _ _) | .expr (.new callee arguments _) =>
    nodes (callee, arguments)
  | .expr (.yield e _) => nodes e
  | .key (.computed e) => nodes e
  | .property (.entry k value _ _ _ _) => nodes (k, value)
  | .property (.spread e _) => nodes e
  | .function fn => nodes (fn.id, fn.params, fn.body)
  | .block b => nodes b.body
  | .param p => nodes p.pattern
  | .class_ c => nodes (c.id, c.parent, (c.members, c.bodySpan))
  | .classBody members _ => nodes members
  | .classMember (.method k fn _ _ _) => nodes (k, fn)
  | .classMember (.field f) => nodes (f.key, f.value)
  | .classMember (.ctor params body _) => nodes (params, body)
  | .pattern (.object properties _) => nodes properties
  | .pattern (.array elements _) => nodes elements
  | .pattern (.rest p _) => nodes p
  | .pattern (.withDefault p e _) => nodes (p, e)
  | .patternProperty (.entry k p _) => nodes (k, p)
  | .patternProperty (.rest p _) => nodes p
  | .stmt (.declare d) => nodes d
  | .stmt (.function id fn) => nodes (id, fn)
  | .stmt (.classDecl id c) => nodes (id, c)
  | .stmt (.block b) => nodes b
  | .stmt (.branch test yes no _) => nodes (test, yes, no)
  | .stmt (.switch subject cases _) => nodes (subject, cases)
  | .stmt (.forLoop init test update body _) => nodes (init, test, update, body)
  | .stmt (.forOf target subject body _) => nodes (target, subject, body)
  | .stmt (.whileLoop test body _) => nodes (test, body)
  | .stmt (.doWhile body test _) => nodes (body, test)
  | .stmt (.returning e _) => nodes e
  | .stmt (.breaking label _) => nodes label
  | .stmt (.expr e _) => nodes e
  | .declaration d => nodes d.declarators
  | .declarator d => nodes (d.pattern, d.init)
  | .switchCase c => nodes (c.test, c.body)
  | _ => []

/-! ### Nodes in a text -/

/-- The node and all below it begin at tokens of the text. If places are known, they lie in the
    text, each in the one that it is a child of. -/
inductive Node.Sound (s : String) (known : Prop) : Node → Prop
  | intro {x} (place : x.span.IsPlaceOf s)
      (bounds : known → x.span.start ≤ x.span.stop ∧ x.span.stop ≤ s.utf8ByteSize)
      (inside : ∀ y ∈ x.children, known → x.span.start ≤ y.span.start ∧ y.span.stop ≤ x.span.stop)
      (below : ∀ y ∈ x.children, Sound s known y) : Sound s known x

/-- The node is sound and lies between two places. -/
structure Node.Lies (s : String) (known : Prop) (low high : Nat) (x : Node) : Prop where
  sound : x.Sound s known
  within : known → low ≤ x.span.start ∧ x.span.stop ≤ high

/-- The nodes of the value are sound and lie between two places. -/
def Fits {α : Type} [Nodes α] (s : String) (known : Prop) (low high : Nat) (a : α) : Prop :=
  ∀ x ∈ nodes a, x.Lies s known low high

variable {s : String} {known : Prop} {low low' high high' : Nat}

namespace Node

variable {x y : Node}

theorem Sound.place (h : x.Sound s known) : x.span.IsPlaceOf s := by
  cases h with
  | intro place _ _ _ => exact place

theorem Sound.bounds (h : x.Sound s known) (hknown : known) :
    x.span.start ≤ x.span.stop ∧ x.span.stop ≤ s.utf8ByteSize := by
  cases h with
  | intro _ bounds _ _ => exact bounds hknown

/-- The children lie in the node. -/
theorem Sound.children (h : x.Sound s known) :
    ∀ y ∈ x.children, y.Lies s known x.span.start x.span.stop := by
  cases h with
  | intro _ _ inside below => exact fun y hy => ⟨below y hy, inside y hy⟩

theorem Lies.mono (h : x.Lies s known low high) (hlow : known → low' ≤ low)
    (hhigh : known → high ≤ high') : x.Lies s known low' high' :=
  ⟨h.sound, fun hknown => ⟨Nat.le_trans (hlow hknown) (h.within hknown).1,
    Nat.le_trans (h.within hknown).2 (hhigh hknown)⟩⟩

theorem Lies.inner (h : x.Lies s known low high) (hy : y ∈ x.children) : y.Lies s known low high :=
  (h.sound.children y hy).mono (fun hk => (h.within hk).1) fun hk => (h.within hk).2

end Node

section

variable {α β : Type} [Nodes α] [Nodes β] {a : α} {b : β} {l : List α}

theorem Fits.mono (h : Fits s known low high a) (hlow : known → low' ≤ low)
    (hhigh : known → high ≤ high') : Fits s known low' high' a :=
  fun x hx => (h x hx).mono hlow hhigh

theorem Fits.and (ha : Fits s known low high a) (hb : Fits s known low high b) :
    Fits s known low high (a, b) :=
  List.forall_mem_append.2 ⟨ha, hb⟩

theorem Fits.fst (h : Fits s known low high (a, b)) : Fits s known low high a :=
  (List.forall_mem_append.1 h).1

theorem Fits.snd (h : Fits s known low high (a, b)) : Fits s known low high b :=
  (List.forall_mem_append.1 h).2

theorem fits_list : Fits s known low high l ↔ ∀ a ∈ l, Fits s known low high a :=
  List.forall_mem_flatMap

theorem Fits.of_nodes (h : Fits s known low high a) (hb : nodes b = nodes a) :
    Fits s known low high b := by
  rwa [Fits, hb]

/-- A value without nodes. -/
theorem fits_of_nodes (h : nodes a = []) : Fits s known low high a := by
  simp [Fits, h]

theorem fits_nil : Fits s known low high ([] : List α) :=
  nofun

theorem Fits.cons (ha : Fits s known low high a) (hl : Fits s known low high l) :
    Fits s known low high (a :: l) :=
  fits_list.2 (List.forall_mem_cons.2 ⟨ha, fits_list.1 hl⟩)

theorem Fits.reverse (h : Fits s known low high l) : Fits s known low high l.reverse :=
  fits_list.2 fun a ha => fits_list.1 h a (List.mem_reverse.1 ha)

theorem Node.Lies.fits {α : Type} [IsNode α] {a : α} (h : (node a).Lies s known low high) :
    Fits s known low high a :=
  List.forall_mem_singleton.2 h

theorem Fits.lies {α : Type} [IsNode α] {a : α} (h : Fits s known low high a) :
    (node a).Lies s known low high :=
  List.forall_mem_singleton.1 h

end

/-- A node lies in its own extent. -/
theorem Fits.self {α : Type} [IsNode α] {a : α} (h : Fits s known low high a) :
    Fits s known (node a).span.start (node a).span.stop a :=
  Node.Lies.fits ⟨h.lies.sound, fun _ => ⟨Nat.le_refl _, Nat.le_refl _⟩⟩

section

variable {α β : Type} [IsNode α] [IsNode β] {a : α} {b : β} (h : Fits s known low high a)

include h

/-- Another node with the same extent. -/
theorem Fits.rebuild (hspan : (node b).span = (node a).span)
    (hchildren : ∀ y ∈ (node b).children, y.Lies s known (node a).span.start (node a).span.stop) :
    Fits s known low high b := by
  refine Node.Lies.fits ⟨⟨hspan ▸ h.lies.sound.place, hspan ▸ h.lies.sound.bounds, ?_,
    fun y hy => (hchildren y hy).sound⟩, hspan ▸ h.lies.within⟩
  rw [hspan]
  exact fun y hy => (hchildren y hy).within

/-- A node without children. -/
theorem Fits.leaf (hspan : (node b).span = (node a).span) (hchildren : (node b).children = []) :
    Fits s known low high b :=
  h.rebuild hspan (by simp [hchildren])

/-- A node that has only another one as child. -/
theorem Fits.wrap (hspan : (node b).span = (node a).span)
    (hchildren : (node b).children = [node a]) : Fits s known low high b := by
  refine h.rebuild hspan ?_
  rw [hchildren]
  exact h.self

end

/-! ### Expressions that turn out to be targets -/

/-- The conversion gives what fits, or fails with a fault of the text. -/
def Converts {α : Type} [Nodes α] (s : String) (known : Prop) (low high : Nat) :
    Except Diagnostic α → Prop
  | .ok a => Fits s known low high a
  | .error d => d.IsFaultOf s

section

variable {α : Type} [Nodes α] {x : Except Diagnostic α} (h : Converts s known low high x)

include h

theorem Converts.fits {a : α} (hx : x = .ok a) : Fits s known low high a := by
  rwa [hx] at h

theorem Converts.fault {d : Diagnostic} (hx : x = .error d) : d.IsFaultOf s := by
  rwa [hx] at h

end

theorem Converts.bind {α β : Type} [Nodes α] [Nodes β] {x : Except Diagnostic α}
    {f : α → Except Diagnostic β} (hx : Converts s known low high x)
    (hf : ∀ a, Fits s known low high a → Converts s known low' high' (f a)) :
    Converts s known low' high' (x >>= f) := by
  cases x with
  | ok a => exact hf a hx
  | error d => exact hx

mutual

theorem Expr.toPattern_fits (e : Expr) {low high : Nat} (h : Fits s known low high e) :
    Converts s known low high e.toPattern := by
  have hchildren := h.lies.sound.children
  unfold Expr.toPattern
  split
  · next id => exact h.leaf rfl rfl
  · next properties span =>
    exact Converts.bind (patternProperties_fits properties hchildren) fun ps hps =>
      h.rebuild rfl hps
  · next elements span =>
    exact Converts.bind (patternElements_fits elements hchildren) fun ps hps =>
      h.rebuild rfl hps
  · next e span =>
    exact Converts.bind (e.toPattern_fits hchildren) fun p hp =>
      h.rebuild rfl hp
  · next id value span =>
    have hparts : Fits s known _ _ (AssignTarget.ident id, value) := hchildren
    have hpattern := Fits.leaf (a := id) (b := Pattern.ident id) hparts.fst rfl rfl
    exact h.rebuild rfl (hpattern.and hparts.snd)
  · next p value span =>
    exact h.rebuild rfl hchildren
  · exact h.lies.sound.place.malformed _

theorem patternProperties_fits : ∀ (properties : List Property) {low high : Nat},
    Fits s known low high properties → Converts s known low high (patternProperties properties)
  | [], _, _, _ => fits_nil
  | .entry k value kind shorthand method span :: rest, _, _, h => by
    obtain ⟨hp, hrest⟩ := List.forall_mem_cons.1 (fits_list.1 h)
    have hparts : Fits s known _ _ (k, value) := hp.lies.sound.children
    rw [patternProperties]
    refine Converts.bind (value.toPattern_fits hparts.snd) fun p hp' => ?_
    refine Converts.bind (patternProperties_fits rest (fits_list.2 hrest)) fun ps hps => ?_
    exact Fits.cons (a := PatternProperty.entry k p span) (hp.rebuild rfl (hparts.fst.and hp')) hps
  | .spread e span :: rest, _, _, h => by
    obtain ⟨hp, hrest⟩ := List.forall_mem_cons.1 (fits_list.1 h)
    rw [patternProperties]
    refine Converts.bind (e.toPattern_fits hp.lies.sound.children) fun p hp' => ?_
    refine Converts.bind (patternProperties_fits rest (fits_list.2 hrest)) fun ps hps => ?_
    exact Fits.cons (a := PatternProperty.rest p span) (hp.rebuild rfl hp') hps

theorem patternElements_fits : ∀ (elements : List (Option Expr)) {low high : Nat},
    Fits s known low high elements → Converts s known low high (patternElements elements)
  | [], _, _, _ => fits_nil
  | none :: rest, _, _, h => by
    rw [patternElements]
    exact Converts.bind (patternElements_fits rest h) fun ps hps => Fits.cons (a := none) nofun hps
  | some e :: rest, _, _, h => by
    obtain ⟨he, hrest⟩ := List.forall_mem_cons.1 (fits_list.1 h)
    rw [patternElements]
    refine Converts.bind (e.toPattern_fits he) fun p hp => ?_
    exact Converts.bind (patternElements_fits rest (fits_list.2 hrest)) fun ps hps =>
      Fits.cons (a := some p) hp hps

end

theorem Expr.toTarget_fits {e : Expr} (h : Fits s known low high e) :
    Converts s known low high e.toTarget := by
  unfold Expr.toTarget
  split
  · next id => exact h.leaf (b := id) rfl rfl
  · exact h
  · exact Converts.bind (Expr.toPattern_fits _ h) fun _ hp => hp
  · exact Converts.bind (Expr.toPattern_fits _ h) fun _ hp => hp
  · exact h.lies.sound.place.malformed _

end PackScript
