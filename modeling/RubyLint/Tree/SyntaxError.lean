import RubyLint.Text.Position
import RubyLint.Tree.Walk

/-!
# Syntax errors of a source

Each error node and each missing node of the tree is one syntax error of the source, reported in
document order.  A tree without any is told apart before the nodes are looked at.
-/

namespace RubyLint

open Text

/-- A place where a source does not follow the grammar; columns count bytes. -/
structure SyntaxError where
  /-- The kind of node that is missing, if one is. -/
  missing : Option String
  line : Nat
  column : Nat
  deriving DecidableEq, Repr

namespace SyntaxError

def message (e : SyntaxError) : String :=
  let place := toString e.line ++ ":" ++ toString e.column
  match e.missing with
  | none => "Syntax error at " ++ place
  | some kind => "Missing '" ++ kind ++ "' at " ++ place

/-- The syntax error that a node stands for. -/
def ofNode? (source : List UInt8) (node : Node) : Option SyntaxError :=
  let (line, column) := bytePosition source node.start
  if node.isError then some ⟨none, line, column⟩
  else if node.isMissing then some ⟨some node.kind, line, column⟩
  else none

def ofTree (source : List UInt8) (root : Node) : List SyntaxError :=
  if root.hasError then root.nodes.filterMap (ofNode? source) else []

end SyntaxError

end RubyLint
