import RubyLint.Tree.Node

/-!
# Walks through a tree

A place is a node of a tree together with its ancestors.  The walk visits a node before its
children and keeps the places still to be visited on a stack, so it goes through a tree of any
depth in document order.  `preorder` is the same order by recursion on the tree.
-/

namespace RubyLint

/-- A node and the nodes above it, the parent first. -/
structure Place where
  node : Node
  above : List Node

namespace Place

def ofRoot (root : Node) : Place := ⟨root, []⟩

def below (place : Place) : List Place :=
  place.node.children.map (⟨·, place.node :: place.above⟩)

def pendingSize (stack : List Place) : Nat :=
  Node.totalSize (stack.map (·.node))

theorem pendingSize_push (place : Place) (stack : List Place) :
    pendingSize (place.below ++ stack) < pendingSize (place :: stack) := by
  have nodes_below : place.below.map (·.node) = place.node.children := by
    simp [below, Function.comp_def]
  simp only [pendingSize, List.map_append, nodes_below, List.map_cons, Node.totalSize_append,
    Node.totalSize]
  rw [Node.size_eq place.node]
  omega

/-- Visits the places on the stack and all that lie below them, in document order. -/
def walkStack (stack : List Place) : List Place :=
  match stack with
  | [] => []
  | place :: rest => place :: walkStack (place.below ++ rest)
termination_by pendingSize stack
decreasing_by exact pendingSize_push place rest

def walk (place : Place) : List Place := walkStack [place]

/-- The nearest ancestor of a kind. -/
def ancestor? (place : Place) (kind : String) : Option Node :=
  place.above.find? (·.kind == kind)

/-- Whether the node is an error node or lies below one. -/
def insideError (place : Place) : Bool :=
  place.node.isError || (place.ancestor? "ERROR").isSome

end Place

namespace Node

/-- The node and all nodes below it, in document order. -/
def nodes (node : Node) : List Node :=
  (Place.ofRoot node).walk.map (·.node)

/-- All nodes of a kind in the tree, in document order. -/
def ofKind (node : Node) (kind : String) : List Node :=
  node.nodes.filter (·.kind == kind)

mutual

/-- The node and all nodes below it, by recursion on the tree. -/
def preorder : Node → List Node
  | ⟨index, kind, start, stop, named, isError, isMissing, field, children⟩ =>
    ⟨index, kind, start, stop, named, isError, isMissing, field, children⟩ :: forest children

def forest : List Node → List Node
  | [] => []
  | node :: rest => node.preorder ++ forest rest

end

/-- Whether the tree holds an error node or a missing node. -/
def hasError (node : Node) : Bool :=
  node.nodes.any fun n => n.isError || n.isMissing

def hasInterpolation (node : Node) : Bool :=
  node.children.any fun child => child.nodes.any (·.kind == "interpolation")

/-- Whether a comment that starts at `start` or later stands in the tree. -/
def hasComment (node : Node) (start : Int) : Bool :=
  node.nodes.any fun n => n.kind == "comment" && start ≤ (n.start : Int)

end Node

end RubyLint
