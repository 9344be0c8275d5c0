import RubyLint.Text.Slice
import RubyLint.Tree.Walk

/-!
# Calls

A call site is what a call node says about a method call: its receiver, the operator between
receiver and method, the name of the method, the arguments, and whether the call has parentheses
or a block.  Comments among the arguments are left out, and a block handed over as an argument is
only noted.  A call without a named method has no call site.
-/

namespace RubyLint

open Text

def Node.text (node : Node) (source : List UInt8) : Except Utf8Error String :=
  decode (slice source node.start node.stop)

structure CallSite where
  node : Node
  receiver : Option Node
  /-- The text of the operator: `.`, `&.` or `::` if the tree follows the grammar. -/
  operator : Option String
  methodName : String
  methodNode : Node
  arguments : List Node
  parenthesized : Bool
  hasBlock : Bool
  hasBlockPass : Bool

namespace CallSite

def isBang (call : CallSite) : Bool :=
  call.methodName.toList.getLast? == some '!'

/-- The offsets from the name of the method to the end of the call; the receiver stays out. -/
def span (call : CallSite) : Nat × Nat :=
  (call.methodNode.start, call.node.stop)

end CallSite

namespace Node

def isCallOperator (node : Node) : Bool :=
  node.kind == "." || node.kind == "&." || node.kind == "::"

/-- The operator of a call; where it has no field, the first child that looks like one counts,
provided that there is a receiver. -/
def callOperator? (node : Node) : Option Node :=
  match node.child? "operator" with
  | some operator => some operator
  | none => if (node.child? "receiver").isSome then node.children.find? isCallOperator else none

/-- The named nodes of the argument list of a call. -/
def argumentNodes (node : Node) : List Node :=
  match node.child? "arguments" with
  | some list => list.children.filter (·.named)
  | none => []

/-- The arguments of a call, without comments and without a block handed over. -/
def callArguments (node : Node) : List Node :=
  node.argumentNodes.filter fun argument =>
    argument.kind != "comment" && argument.kind != "block_argument"

def hasParentheses (node : Node) : Bool :=
  match node.child? "arguments" with
  | some list => (list.children.head?.map (·.kind)) == some "("
  | none => false

def hasBlock (node : Node) : Bool :=
  (node.child? "block").isSome ||
    node.children.any fun child => child.kind == "block" || child.kind == "do_block"

/-- The call site of a node, unless the node is no call of a named method. -/
def callSite? (node : Node) (source : List UInt8) : Except Utf8Error (Option CallSite) := do
  if node.kind != "call" then
    return none
  match node.child? "method" with
  | none => return none
  | some methodNode =>
    let operator ← match node.callOperator? with
      | none => pure none
      | some operator => some <$> operator.text source
    let methodName ← methodNode.text source
    return some {
      node
      receiver := node.child? "receiver"
      operator
      methodName
      methodNode
      arguments := node.callArguments
      parenthesized := node.hasParentheses
      hasBlock := node.hasBlock
      hasBlockPass := node.argumentNodes.any (·.kind == "block_argument") }

/-- Whether the node is `Regexp.new(x)` or `Regexp.compile(x)` with one plain argument. -/
def isRegexpConstructor (node : Node) (source : List UInt8) : Except Utf8Error Bool := do
  match ← node.callSite? source with
  | none => return false
  | some call =>
    match call.receiver with
    | none => return false
    | some receiver =>
      if receiver.kind != "constant" then
        return false
      if (← receiver.text source) != "Regexp" then
        return false
      return call.operator == some "." &&
        (call.methodName == "new" || call.methodName == "compile") &&
        call.arguments.length == 1 && !call.hasBlock && !call.hasBlockPass

theorem size_lt_of_mem_callArguments {argument node : Node} (h : argument ∈ node.callArguments) :
    argument.size < node.size := by
  unfold callArguments argumentNodes at h
  cases hlist : node.child? "arguments" with
  | none => simp [hlist] at h
  | some list =>
    have member : argument ∈ list.children := by
      simp only [hlist, List.mem_filter] at h
      exact h.1.1
    exact Nat.lt_trans (size_lt_of_mem_children member)
      (size_lt_of_mem_children (mem_children_of_child? hlist))

end Node

end RubyLint
