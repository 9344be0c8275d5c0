import RubyLint.Proofs.TreeWalk
import Mathlib.Tactic

/-!
# Trees whose spans are nested

In a tree from a parser the children of a node lie inside it, one after the other.  So of two nodes
of the tree one stands in the other or their spans lie apart, and a fact about all pairs of nodes
in document order needs two arguments only: one for a node and what stands below it, and one for
two nodes of which the first ends before the second starts.
-/

namespace RubyLint.Node

/-- In every node of the tree, the spans of the children lie inside the span of the node, one
after the other. -/
def Nested (tree : Node) : Prop :=
  ∀ node : Node, node.Within tree →
    (∀ child ∈ node.children,
      node.start ≤ child.start ∧ child.start ≤ child.stop ∧ child.stop ≤ node.stop) ∧
    node.children.Pairwise fun a b => a.stop ≤ b.start

instance (tree : Node) : Decidable tree.Nested :=
  inferInstanceAs (Decidable (∀ node : Node, node.Within tree → _))

variable {tree node inner : Node}

theorem Nested.of_within (hnested : tree.Nested) (hnode : node.Within tree) : node.Nested :=
  fun _ hinner => hnested _ (hinner.trans hnode)

theorem Nested.span_within (hnested : tree.Nested) (hinner : inner.Within tree) :
    tree.start ≤ inner.start ∧ inner.stop ≤ tree.stop := by
  induction tree using childInduction with
  | step tree ih =>
      rcases within_iff.mp hinner with rfl | ⟨child, hchild, hinner⟩
      · exact ⟨le_rfl, le_rfl⟩
      · have hspan := ih child hchild (hnested.of_within (within_of_mem_children hchild)) hinner
        have hinside := (hnested tree (.refl tree)).1 child hchild
        omega

/-- Of two members of a list that a relation orders, one is related to the other. -/
theorem related_of_pairwise {R : Node → Node → Prop} {nodes : List Node}
    (hpairwise : nodes.Pairwise R) {a b : Node} (ha : a ∈ nodes) (hb : b ∈ nodes) (hne : a ≠ b) :
    R a b ∨ R b a := by
  have hsymm : Std.Symm fun a b => R a b ∨ R b a := ⟨fun _ _ => Or.symm⟩
  have heither : nodes.Pairwise fun a b => R a b ∨ R b a := hpairwise.imp Or.inl
  exact heither.forall ha hb hne

theorem Nested.children_apart (hnested : tree.Nested) {a b : Node} (ha : a ∈ tree.children)
    (hb : b ∈ tree.children) (hne : a ≠ b) : a.stop ≤ b.start ∨ b.stop ≤ a.start :=
  related_of_pairwise (hnested tree (.refl tree)).2 ha hb hne

/-- Of two nodes of a tree, one stands in the other or they lie apart. -/
theorem Nested.within_or_apart (hnested : tree.Nested) {a b : Node} (ha : a.Within tree)
    (hb : b.Within tree) : a.Within b ∨ b.Within a ∨ a.stop ≤ b.start ∨ b.stop ≤ a.start := by
  induction tree using childInduction with
  | step tree ih =>
      rcases within_iff.mp ha with rfl | ⟨child, hchild, ha'⟩
      · exact .inr (.inl hb)
      · rcases within_iff.mp hb with rfl | ⟨child', hchild', hb'⟩
        · exact .inl ha
        · have hnested' := hnested.of_within (within_of_mem_children hchild)
          by_cases hsame : child = child'
          · subst hsame
            exact ih child hchild hnested' ha' hb'
          · have hspan := hnested'.span_within ha'
            have hspan' :=
              (hnested.of_within (within_of_mem_children hchild')).span_within hb'
            rcases hnested.children_apart hchild hchild' hsame with happart | happart
            · exact .inr (.inr (.inl (by omega)))
            · exact .inr (.inr (.inr (by omega)))

/-- A relation holds between any two nodes in document order if it holds between a node and the
nodes below it, and between two nodes of which the first ends before the second starts. -/
theorem Nested.pairwise_preorder {R : Node → Node → Prop} (hnested : tree.Nested)
    (hbelow : ∀ outer inner, outer.Within tree → inner.Below outer → R outer inner)
    (hbeside : ∀ a b, a.Within tree → b.Within tree → a.stop ≤ b.start → R a b) :
    tree.preorder.Pairwise R := by
  induction tree using childInduction with
  | step tree ih =>
      rw [preorder_eq, List.pairwise_cons, List.pairwise_flatMap]
      refine ⟨?_, ?_, ?_⟩
      · intro inner hinner
        obtain ⟨child, hchild, hinner⟩ := List.mem_flatMap.mp hinner
        exact hbelow tree inner (.refl tree) ⟨child, hchild, mem_preorder_iff.mp hinner⟩
      · intro child hchild
        have hwithin := within_of_mem_children hchild
        exact ih child hchild (hnested.of_within hwithin)
          (fun outer inner houter => hbelow outer inner (houter.trans hwithin))
          (fun a b ha hb => hbeside a b (ha.trans hwithin) (hb.trans hwithin))
      · refine (hnested tree (.refl tree)).2.imp_of_mem ?_
        intro child child' hchild hchild' happart a ha b hb
        have hwithin := within_of_mem_children hchild
        have hwithin' := within_of_mem_children hchild'
        rw [mem_preorder_iff] at ha hb
        have hspan := (hnested.of_within hwithin).span_within ha
        have hspan' := (hnested.of_within hwithin').span_within hb
        exact hbeside a b (ha.trans hwithin) (hb.trans hwithin') (by omega)

end RubyLint.Node
