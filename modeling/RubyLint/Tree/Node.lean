/-!
# Syntax trees

A node has a kind, covers a span of bytes of the source, may be reached from its parent under a
field name and has children in document order.  Nodes are numbered in document order from the
root, which has number zero.  The parser marks the places where the source does not follow the
grammar: an error node covers text that fits nowhere, and a missing node stands for text that the
grammar requires.

A tree is given by its rows in document order, each with its depth.  Reading the rows from the
last to the first, a row takes as children the pending nodes that are deeper than itself.
-/

namespace RubyLint

structure Node where
  /-- The number of the node in document order. -/
  index : Nat
  kind : String
  /-- The offset of the first byte. -/
  start : Nat
  /-- The offset after the last byte. -/
  stop : Nat
  /-- Whether the grammar gives the node a name, as opposed to punctuation. -/
  named : Bool
  isError : Bool
  isMissing : Bool
  /-- The field of the parent that the node fills. -/
  field : Option String
  children : List Node
  deriving Inhabited

namespace Node

mutual

def size : Node → Nat
  | ⟨_, _, _, _, _, _, _, _, children⟩ => 1 + totalSize children

def totalSize : List Node → Nat
  | [] => 0
  | node :: rest => node.size + totalSize rest

end

theorem size_eq (node : Node) : node.size = 1 + totalSize node.children := by
  cases node
  rfl

theorem size_pos (node : Node) : 0 < node.size := by
  rw [size_eq]
  omega

theorem totalSize_append (left right : List Node) :
    totalSize (left ++ right) = totalSize left + totalSize right := by
  induction left with
  | nil => simp [totalSize]
  | cons node rest ih => simp [totalSize, ih]; omega

theorem size_le_totalSize {node : Node} {nodes : List Node} (h : node ∈ nodes) :
    node.size ≤ totalSize nodes := by
  induction nodes with
  | nil => simp at h
  | cons first rest ih =>
    rcases List.mem_cons.mp h with rfl | h
    · simp [totalSize]
    · have := ih h
      simp only [totalSize]
      omega

theorem size_lt_of_mem_children {child node : Node} (h : child ∈ node.children) :
    child.size < node.size := by
  have := size_le_totalSize h
  rw [size_eq node]
  omega

/-- The first child that fills `field`. -/
def child? (node : Node) (field : String) : Option Node :=
  node.children.find? fun child => child.field == some field

theorem mem_children_of_child? {node child : Node} {field : String}
    (h : node.child? field = some child) : child ∈ node.children :=
  List.mem_of_find?_eq_some h

/-- One node of a tree, given by its depth below the root and without its children. -/
structure Row where
  depth : Nat
  kind : String
  start : Nat
  stop : Nat
  named : Bool
  isError : Bool
  isMissing : Bool
  field : Option String
  deriving DecidableEq, Repr

/-- Puts the node of a row in front of the pending nodes and gives it those that are deeper. -/
def takeRow (row : Row × Nat) (pending : List (Nat × Node)) : List (Nat × Node) :=
  let deeper := pending.takeWhile fun entry => row.1.depth < entry.1
  let rest := pending.dropWhile fun entry => row.1.depth < entry.1
  (row.1.depth, ⟨row.2, row.1.kind, row.1.start, row.1.stop, row.1.named, row.1.isError,
    row.1.isMissing, row.1.field, deeper.map (·.2)⟩) :: rest

def ofRows? (rows : List Row) : Option Node :=
  match rows.zipIdx.foldr takeRow [] with
  | [] => none
  | (_, root) :: _ => some root

end Node

end RubyLint
