import RubyLint.Tree.Walk
import Mathlib.Logic.Relation
import Mathlib.Tactic

/-!
# What a walk visits

A stack of places stands for the trees on it, one after the other.  Visiting the top place and
pushing its children keeps what the stack stands for, so the walk through a tree is the recursive
preorder of the tree.  Its members are the nodes that chains of children lead to, and the questions
asked by walking (for an interpolation, for a comment) become questions about such chains.
-/

namespace RubyLint

namespace Node

/-- `inner` is `outer` itself or is reached from it through children. -/
def Within (inner outer : Node) : Prop :=
  Relation.ReflTransGen (fun child parent => child ∈ parent.children) inner outer

/-- `inner` is reached from `outer` through one or more children. -/
def Below (inner outer : Node) : Prop :=
  ∃ child ∈ outer.children, inner.Within child

theorem Within.refl (node : Node) : node.Within node :=
  Relation.ReflTransGen.refl

theorem Within.trans {inner middle outer : Node} (hinner : inner.Within middle)
    (houter : middle.Within outer) : inner.Within outer :=
  Relation.ReflTransGen.trans hinner houter

theorem within_iff {inner outer : Node} :
    inner.Within outer ↔ inner = outer ∨ inner.Below outer := by
  unfold Within Below
  rw [Relation.ReflTransGen.cases_tail_iff]
  constructor
  · rintro (rfl | ⟨child, hinner, hchild⟩)
    · exact .inl rfl
    · exact .inr ⟨child, hchild, hinner⟩
  · rintro (rfl | ⟨child, hchild, hinner⟩)
    · exact .inl rfl
    · exact .inr ⟨child, hinner, hchild⟩

theorem Below.within {inner outer : Node} (hbelow : inner.Below outer) :
    inner.Within outer :=
  within_iff.mpr (.inr hbelow)

theorem within_of_mem_children {child node : Node} (hchild : child ∈ node.children) :
    child.Within node :=
  Below.within ⟨child, hchild, .refl child⟩

theorem Within.size_le {inner outer : Node} (hinner : inner.Within outer) :
    inner.size ≤ outer.size := by
  induction hinner with
  | refl => exact le_rfl
  | tail _ hchild ih => exact ih.trans (size_lt_of_mem_children hchild).le

/-- A node without children that the parser takes for sound. -/
def leaf (kind : String) (start stop : Nat) (named : Bool) (field : Option String) : Node :=
  ⟨0, kind, start, stop, named, false, false, field, []⟩

/-- What holds of a node as soon as it holds of its children holds of every node. -/
theorem childInduction {motive : Node → Prop}
    (step : ∀ node, (∀ child ∈ node.children, motive child) → motive node)
    (node : Node) : motive node :=
  step node fun child hchild =>
    have := size_lt_of_mem_children hchild
    childInduction step child
termination_by node.size

/-! ## Preorder -/

theorem forest_eq_flatMap (nodes : List Node) : forest nodes = nodes.flatMap preorder := by
  induction nodes with
  | nil => rfl
  | cons node rest ih => rw [forest, ih, List.flatMap_cons]

theorem preorder_eq (node : Node) :
    node.preorder = node :: node.children.flatMap preorder := by
  cases node
  rw [preorder, forest_eq_flatMap]

theorem mem_preorder_iff {inner outer : Node} :
    inner ∈ outer.preorder ↔ inner.Within outer := by
  induction outer using childInduction with
  | step outer ih =>
      rw [preorder_eq, List.mem_cons, List.mem_flatMap, within_iff]
      constructor
      · rintro (rfl | ⟨child, hchild, hinner⟩)
        · exact .inl rfl
        · exact .inr ⟨child, hchild, (ih child hchild).mp hinner⟩
      · rintro (rfl | ⟨child, hchild, hinner⟩)
        · exact .inl rfl
        · exact .inr ⟨child, hchild, (ih child hchild).mpr hinner⟩

theorem forall_within_iff {outer : Node} {P : Node → Prop} :
    (∀ inner : Node, inner.Within outer → P inner) ↔ ∀ inner ∈ outer.preorder, P inner := by
  simp only [mem_preorder_iff]

instance (outer : Node) (P : Node → Prop) [DecidablePred P] :
    Decidable (∀ inner : Node, inner.Within outer → P inner) :=
  decidable_of_iff _ forall_within_iff.symm

theorem forall_below_iff {outer : Node} {P : Node → Prop} :
    (∀ inner : Node, inner.Below outer → P inner) ↔
      ∀ child ∈ outer.children, ∀ inner : Node, inner.Within child → P inner := by
  constructor
  · intro hall child hchild inner hinner
    exact hall inner ⟨child, hchild, hinner⟩
  · rintro hall inner ⟨child, hchild, hinner⟩
    exact hall child hchild inner hinner

instance (outer : Node) (P : Node → Prop) [DecidablePred P] :
    Decidable (∀ inner : Node, inner.Below outer → P inner) :=
  decidable_of_iff _ forall_below_iff.symm

end Node

/-! ## The stack -/

theorem Place.map_node_below (place : Place) :
    place.below.map (·.node) = place.node.children := by
  simp [Place.below, Function.comp_def]

theorem Place.map_node_walkStack (stack : List Place) :
    (Place.walkStack stack).map (·.node) = (stack.map (·.node)).flatMap Node.preorder := by
  induction stack using Place.walkStack.induct with
  | case1 => simp [Place.walkStack]
  | case2 place rest ih =>
      rw [Place.walkStack, List.map_cons, ih, List.map_append, Place.map_node_below,
        List.flatMap_append, List.map_cons, List.flatMap_cons, Node.preorder_eq place.node,
        List.cons_append]

theorem Place.map_node_walk (root : Node) :
    (Place.ofRoot root).walk.map (·.node) = root.preorder := by
  simp [Place.walk, Place.map_node_walkStack, Place.ofRoot]

namespace Node

theorem nodes_eq_preorder (node : Node) : node.nodes = node.preorder :=
  Place.map_node_walk node

@[simp] theorem mem_nodes_iff {inner outer : Node} :
    inner ∈ outer.nodes ↔ inner.Within outer := by
  rw [nodes_eq_preorder, mem_preorder_iff]

theorem hasInterpolation_eq_false_iff {node : Node} :
    node.hasInterpolation = false ↔
      ∀ inner : Node, inner.Below node → inner.kind ≠ "interpolation" := by
  simp only [hasInterpolation, List.any_eq_false, List.any_eq_true, mem_nodes_iff, beq_iff_eq]
  constructor
  · rintro hnone inner ⟨child, hchild, hinner⟩ hkind
    exact hnone child hchild ⟨inner, hinner, hkind⟩
  · rintro hnone child hchild ⟨inner, hinner, hkind⟩
    exact hnone inner ⟨child, hchild, hinner⟩ hkind

theorem hasComment_eq_false_iff {node : Node} {start : Int} :
    node.hasComment start = false ↔
      ∀ inner : Node, inner.Within node → inner.kind = "comment" → (inner.start : Int) < start := by
  simp only [hasComment, List.any_eq_false, mem_nodes_iff, Bool.and_eq_true, beq_iff_eq,
    decide_eq_true_eq, not_and, not_le]

end Node

end RubyLint
