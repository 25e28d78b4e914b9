import PackScript.Proofs.Parse.Halting

namespace PackScript

/-!
# Extents nest

Every node of the tree of a script lies in the text, and in it lie the nodes that it is made of: its
expressions, statements, patterns, names, parameters, members, cases and declared variables. The
expression in parentheses has the extent without the parentheses, and a node whose types were passed
over may go on up to their end, but never past the token that was read last.

* `Script.HasNode` — the nodes of a script.
* `extents_nest` — their extents.
-/

/-- The nodes of a script: its statements, and what the nodes are made of. -/
inductive Script.HasNode (script : Script) : Node → Prop
  | stmt {stmt} (h : stmt ∈ script.body) : HasNode script (.stmt stmt)
  | child {x y} (hx : HasNode script x) (hy : y ∈ x.children) : HasNode script y

/-- Nodes below sound ones are sound. -/
theorem Script.HasNode.sound {s : String} {known : Prop} {low high : Nat} {script : Script}
    (h : Fits s known low high script) {x : Node} (hx : script.HasNode x) : x.Sound s known := by
  induction hx with
  | stmt hstmt => exact (fits_list.1 h _ hstmt).lies.sound
  | child _ hy ih => exact (ih.children _ hy).sound

/-- The nodes of a parsed script lie in the text, each around those that it is made of. -/
theorem extents_nest {source : String} {script : Script} (h : parseScript source = .ok script)
    {x : Node} (hx : script.HasNode x) :
    x.span.start ≤ x.span.stop ∧ x.span.stop ≤ source.utf8ByteSize ∧
      ∀ y ∈ x.children, x.span.start ≤ y.span.start ∧ y.span.stop ≤ x.span.stop := by
  have hends := Parse.script_ends source
  unfold Parse.ReadsAt at hends
  unfold parseScript at h
  cases hrun : Parse.script (source.utf8ByteSize + 1) (Cursor.ofText source) with
  | error d =>
    rw [hrun] at h
    cases h
  | ok r =>
    rw [hrun] at h hends
    cases h
    have hsound := hx.sound hends.2.2
    have hbounds := hsound.bounds trivial
    exact ⟨hbounds.1, hbounds.2, fun y hy => (hsound.children y hy).within trivial⟩

/-- A statement around the member of a name. -/
theorem extents_nest_member :
    ∃ script x, parseScript "a.b;" = .ok script ∧ script.HasNode x ∧ x.children ≠ [] ∧
      x.span.stop ≤ 4 ∧ ∀ y ∈ x.children, x.span.start ≤ y.span.start ∧
        y.span.stop ≤ x.span.stop := by
  have hparse : parseScript "a.b;" =
      .ok ⟨[.expr (.member ⟨.ident ⟨"a", ⟨0, 1, 1, 1⟩⟩, .name ⟨"b", ⟨2, 3, 1, 3⟩⟩, false,
        ⟨0, 3, 1, 1⟩⟩) ⟨0, 4, 1, 1⟩]⟩ :=
    rfl
  have hnest := extents_nest hparse (.stmt (List.mem_singleton_self _))
  exact ⟨_, _, hparse, .stmt (List.mem_singleton_self _), nofun, hnest.2.1, hnest.2.2⟩

end PackScript
