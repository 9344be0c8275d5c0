import RubyLint.Proofs.TreeWalk
import RubyLint.Tree.SyntaxError
import Mathlib.Data.List.TakeWhile
import Mathlib.Tactic

/-!
# Walks follow the rows of a tree

The walk keeps the places still to be visited on a stack.  What has been visited, followed by the
walk through what is pending, is the whole walk at every pass, and each pass takes one node off the
number of those that are pending.  So the walk ends after as many passes as there are nodes.

A tree that is given by rows is cut from them: the rows deeper than a row, up to the first that is
not, are those of the trees below it.  The numbers of the nodes that a walk visits are therefore a
block of row numbers, which starts with the number of the node.
-/

namespace RubyLint

/-! ## Passes of the walk -/

/-- How far a walk has come. -/
structure Walk where
  pending : List Place
  visited : List Place

namespace Walk

def start (place : Place) : Walk := ⟨[place], []⟩

/-- Visits the place on top of the stack and puts its children there. -/
def pass (walk : Walk) : Walk :=
  match walk.pending with
  | [] => walk
  | place :: rest => ⟨place.below ++ rest, walk.visited ++ [place]⟩

theorem visited_append_walkStack_pass (walk : Walk) :
    walk.pass.visited ++ Place.walkStack walk.pass.pending =
      walk.visited ++ Place.walkStack walk.pending := by
  obtain ⟨pending, visited⟩ := walk
  cases pending with
  | nil => rfl
  | cons place rest =>
      rw [Place.walkStack.eq_def (place :: rest)]
      simp [pass]

theorem length_visited_pass {walk : Walk} (hpending : walk.pending ≠ []) :
    walk.pass.visited.length = walk.visited.length + 1 := by
  obtain ⟨place, rest, hsplit⟩ := List.exists_cons_of_ne_nil hpending
  simp [pass, hsplit]

theorem pendingSize_pass {walk : Walk} (hpending : walk.pending ≠ []) :
    Place.pendingSize walk.pass.pending + 1 = Place.pendingSize walk.pending := by
  obtain ⟨place, rest, hsplit⟩ := List.exists_cons_of_ne_nil hpending
  simp only [pass, hsplit, Place.pendingSize, List.map_append, Place.map_node_below,
    List.map_cons, Node.totalSize_append, Node.totalSize, Node.size_eq place.node]
  omega

theorem pendingSize_eq_zero_iff {stack : List Place} : Place.pendingSize stack = 0 ↔ stack = [] := by
  cases stack with
  | nil => simp [Place.pendingSize, Node.totalSize]
  | cons place rest =>
      have hpos := Node.size_pos place.node
      simp only [Place.pendingSize, List.map_cons, Node.totalSize, reduceCtorEq, iff_false]
      omega

/-- The stack holds what is left of the walk, and every pass shortens it by one node. -/
structure Continues (place : Place) (passes : Nat) (walk : Walk) : Prop where
  walk_eq : walk.visited ++ Place.walkStack walk.pending = place.walk
  visited : walk.visited.length = passes
  pending : Place.pendingSize walk.pending + passes = place.node.size

theorem continues_iterate_pass
    (place : Place) {passes : Nat} (hpasses : passes ≤ place.node.size) :
    Continues place passes (pass^[passes] (start place)) := by
  induction passes with
  | zero =>
      refine ⟨rfl, rfl, ?_⟩
      simp [start, Place.pendingSize, Node.totalSize]
  | succ passes ih =>
      obtain ⟨hwalk, hvisited, hsize⟩ := ih (by omega)
      rw [Function.iterate_succ_apply']
      generalize pass^[passes] (start place) = walk at hwalk hvisited hsize ⊢
      have hpending : walk.pending ≠ [] := by
        rw [Ne, ← pendingSize_eq_zero_iff]
        omega
      have hpass := pendingSize_pass hpending
      constructor
      · rw [visited_append_walkStack_pass, hwalk]
      · rw [length_visited_pass hpending, hvisited]
      · omega

theorem visited_iterate_pass
    (place : Place) {passes : Nat} (hpasses : passes ≤ place.node.size) :
    (pass^[passes] (start place)).visited = place.walk.take passes := by
  obtain ⟨hwalk, hvisited, -⟩ := continues_iterate_pass place hpasses
  rw [← hwalk, List.take_left' hvisited]

theorem pending_iterate_pass_eq_nil_iff
    (place : Place) {passes : Nat} (hpasses : passes ≤ place.node.size) :
    (pass^[passes] (start place)).pending = [] ↔ passes = place.node.size := by
  have hsize := (continues_iterate_pass place hpasses).pending
  rw [← pendingSize_eq_zero_iff]
  omega

end Walk

namespace Node

/-! ## Trees cut from rows -/

/-- The node has what the row says. -/
structure Shows (node : Node) (row : Row) : Prop where
  kind : node.kind = row.kind
  start : node.start = row.start
  stop : node.stop = row.stop
  named : node.named = row.named
  isError : node.isError = row.isError
  isMissing : node.isMissing = row.isMissing
  field : node.field = row.field

/-- The rows, of which the first has the number `first`, are those of the trees one after the other.
With each tree stands the depth of its root. -/
inductive Cut : (first : Nat) → (rows : List Row) → (trees : List (Nat × Node)) → Prop
  | nil {first : Nat} : Cut first [] []
  | cons {first : Nat} {row : Row} {inner rest : List Row} {node : Node}
      {below after : List (Nat × Node)} (hindex : node.index = first) (hshows : node.Shows row)
      (hchildren : node.children = below.map (·.2)) (hdeeper : ∀ r ∈ inner, row.depth < r.depth)
      (hend : ∀ r ∈ rest.head?, r.depth ≤ row.depth) (hbelow : Cut (first + 1) inner below)
      (hafter : Cut (first + 1 + inner.length) rest after) :
      Cut first (row :: (inner ++ rest)) ((row.depth, node) :: after)

/-- Trees can be cut off before the first that is not deeper than `depth`. -/
theorem Cut.split
    {first : Nat} {rows : List Row} {trees : List (Nat × Node)} (hcut : Cut first rows trees)
    (depth : Nat) :
    ∃ inner rest, rows = inner ++ rest ∧ (∀ r ∈ inner, depth < r.depth) ∧
      (∀ r ∈ rest.head?, r.depth ≤ depth) ∧
      Cut first inner (trees.takeWhile fun entry => depth < entry.1) ∧
      Cut (first + inner.length) rest (trees.dropWhile fun entry => depth < entry.1) := by
  induction hcut with
  | nil => exact ⟨[], [], rfl, by simp, by simp, .nil, .nil⟩
  | @cons first row inner rest node below after hindex hshows hchildren hdeeper hend hbelow hafter
      _ ih =>
      by_cases hdepth : depth < row.depth
      · obtain ⟨inner', rest', rfl, hdeeper', hend', hcut, hcut'⟩ := ih
        refine ⟨row :: (inner ++ inner'), rest', by simp, ?_, hend', ?_, ?_⟩
        · simp only [List.mem_cons, List.mem_append]
          rintro r (rfl | hr | hr)
          · exact hdepth
          · exact hdepth.trans (hdeeper r hr)
          · exact hdeeper' r hr
        · rw [List.takeWhile_cons_of_pos (by simpa using hdepth)]
          refine .cons hindex hshows hchildren hdeeper ?_ hbelow hcut
          intro r hr
          exact hend r (by rw [List.head?_append, Option.mem_def.mp hr]; rfl)
        · rw [List.dropWhile_cons_of_pos (by simpa using hdepth)]
          have hlength : first + (row :: (inner ++ inner')).length =
              first + 1 + inner.length + inner'.length := by
            simp only [List.length_cons, List.length_append]
            omega
          rwa [hlength]
      · refine ⟨[], row :: (inner ++ rest), rfl, by simp, by simpa using hdepth, ?_, ?_⟩
        · rw [List.takeWhile_cons_of_neg (by simpa using hdepth)]
          exact .nil
        · rw [List.dropWhile_cons_of_neg (by simpa using hdepth)]
          exact .cons hindex hshows hchildren hdeeper hend hbelow hafter

theorem cut_foldr_takeRow (rows : List Row) (first : Nat) :
    Cut first rows ((rows.zipIdx first).foldr takeRow []) := by
  induction rows generalizing first with
  | nil => exact .nil
  | cons row rows ih =>
      have hcut := ih (first + 1)
      rw [List.zipIdx_cons, List.foldr_cons, takeRow]
      generalize (rows.zipIdx (first + 1)).foldr takeRow [] = pending at hcut ⊢
      obtain ⟨inner, rest, rfl, hdeeper, hend, hbelow, hafter⟩ := hcut.split row.depth
      refine .cons rfl ?_ rfl hdeeper hend hbelow hafter
      exact ⟨rfl, rfl, rfl, rfl, rfl, rfl, rfl⟩

theorem Cut.map_index_preorder
    {first : Nat} {rows : List Row} {trees : List (Nat × Node)} (hcut : Cut first rows trees) :
    ((trees.map (·.2)).flatMap preorder).map (·.index) = List.range' first rows.length := by
  induction hcut with
  | nil => rfl
  | @cons first row inner rest node below after hindex _ hchildren _ _ _ _ ihbelow ihafter =>
      have hlength : (row :: (inner ++ rest)).length = 1 + (inner.length + rest.length) := by
        simp only [List.length_cons, List.length_append]
        omega
      rw [List.map_cons, List.flatMap_cons, preorder_eq, hchildren, List.map_append, List.map_cons,
        ihbelow, ihafter, hindex, hlength, ← List.range'_append_1, ← List.range'_append_1]
      rfl

/-- The rows of the tree below a row: the row itself and all after it that are deeper. -/
def blockSize (rows : List Row) (index : Nat) (row : Row) : Nat :=
  1 + ((rows.drop (index + 1)).takeWhile fun r => row.depth < r.depth).length

/-- The node is that of its row, and the walk through it visits the rows of its block. -/
def FillsBlock (rows : List Row) (node : Node) : Prop :=
  ∃ row, rows[node.index]? = some row ∧ node.Shows row ∧
    node.preorder.map (·.index) = List.range' node.index (blockSize rows node.index row)

/-- Cut from the middle of the rows `all`, the trees fill blocks of them, as long as the rows after
them do not go deeper. -/
theorem Cut.fillsBlock
    {rows : List Row} {trees : List (Nat × Node)} {all before after : List Row}
    (hcut : Cut before.length rows trees) (hall : all = before ++ (rows ++ after))
    (hend : ∀ next ∈ after.head?, ∀ row ∈ rows, next.depth ≤ row.depth) :
    ∀ entry ∈ trees, ∀ node : Node, node.Within entry.2 → node.FillsBlock all := by
  generalize hfirst : before.length = first at hcut
  induction hcut generalizing before after with
  | nil => simp
  | @cons first row inner rest node below trees hindex hshows hchildren hdeeper hrest hbelow hafter
      ihbelow ihafter =>
      -- the first row after the inner ones is not deeper than the row that they lie below
      have hnext : ∀ next ∈ (rest ++ after).head?, next.depth ≤ row.depth := by
        intro next hnext
        cases rest with
        | nil => exact hend next hnext row List.mem_cons_self
        | cons r rest => exact hrest next hnext
      intro entry hentry inside hinside
      rcases List.mem_cons.mp hentry with rfl | hentry
      · rcases within_iff.mp hinside with rfl | ⟨child, hchild, hinside⟩
        · refine ⟨row, ?_, hshows, ?_⟩
          · rw [hall, hindex, ← hfirst]
            simp
          · have hdrop : all.drop (inside.index + 1) = inner ++ (rest ++ after) := by
              rw [hall, hindex, ← hfirst, ← List.drop_drop, List.drop_left]
              simp
            have hdeeper' : ∀ r ∈ inner, decide (row.depth < r.depth) = true := by
              simpa using hdeeper
            have htake : (rest ++ after).takeWhile (fun r => decide (row.depth < r.depth)) = [] := by
              cases hrows : rest ++ after with
              | nil => rfl
              | cons next more =>
                  have hle := hnext next (by rw [hrows]; rfl)
                  exact List.takeWhile_cons_of_neg (by simpa using hle)
            rw [preorder_eq, hchildren, List.map_cons, hbelow.map_index_preorder, blockSize, hdrop,
              List.takeWhile_append_of_pos hdeeper', htake, List.append_nil, hindex, Nat.add_comm 1,
              List.range'_succ]
        · rw [hchildren] at hchild
          obtain ⟨entry, hentry, rfl⟩ := List.mem_map.mp hchild
          refine @ihbelow (before ++ [row]) (rest ++ after) ?_ ?_ ?_ entry hentry inside hinside
          · rw [hall]
            simp
          · intro next hmem r hr
            exact (hnext next hmem).trans (hdeeper r hr).le
          · simp [hfirst]
      · refine @ihafter (before ++ row :: inner) after ?_ ?_ ?_ entry hentry inside hinside
        · rw [hall]
          simp
        · intro next hmem r hr
          exact hend next hmem r (by simp [hr])
        · simp only [List.length_append, List.length_cons, hfirst]
          omega

theorem fillsBlock_of_ofRows?
    {rows : List Row} {root node : Node} (hroot : ofRows? rows = some root)
    (hnode : node.Within root) : node.FillsBlock rows := by
  have hcut := cut_foldr_takeRow rows 0
  rw [ofRows?] at hroot
  generalize rows.zipIdx.foldr takeRow [] = trees at hroot hcut
  cases trees with
  | nil => cases hroot
  | cons entry rest =>
      cases hroot
      exact @Cut.fillsBlock rows _ rows [] [] hcut (by simp) (by simp) entry List.mem_cons_self node
        hnode

theorem map_index_ofKind
    {rows : List Row} {root node : Node} (hroot : ofRows? rows = some root)
    (hnode : node.Within root) (kind : String) :
    (node.ofKind kind).map (·.index) =
      (node.nodes.map (·.index)).filter fun index => (rows[index]?).map (·.kind) = some kind := by
  rw [ofKind, List.filter_map]
  congr 1
  refine List.filter_congr ?_
  intro inner hinner
  obtain ⟨row, hrow, hshows, -⟩ :=
    fillsBlock_of_ofRows? hroot ((mem_nodes_iff.mp hinner).trans hnode)
  simp [Function.comp_apply, hrow, hshows.kind, beq_eq_decide]

/-! ## Syntax errors -/

/-- The parser marks the node as one that does not follow the grammar. -/
def IsFaulty (node : Node) : Prop :=
  node.isError = true ∨ node.isMissing = true

instance : DecidablePred IsFaulty := fun node =>
  inferInstanceAs (Decidable (node.isError = true ∨ node.isMissing = true))

theorem hasError_eq_true_iff {node : Node} :
    node.hasError = true ↔ ∃ inner : Node, inner.Within node ∧ inner.IsFaulty := by
  simp only [hasError, List.any_eq_true, mem_nodes_iff, Bool.or_eq_true, IsFaulty]

end Node

namespace SyntaxError

open Text

/-- The text tells what is wrong at the node and where it starts: its line, and the bytes of that
line before it. -/
def Reports (source : List UInt8) (node : Node) (text : String) : Prop :=
  ∃ lines line, source.take node.start = lines ++ line ∧ lineFeed ∉ line ∧
    (∀ last ∈ lines.getLast?, last = lineFeed) ∧
    text = (if node.isError then "Syntax error at " else "Missing '" ++ node.kind ++ "' at ") ++
      (toString (lines.count lineFeed + 1) ++ ":" ++ toString (line.length + 1))

theorem exists_append_lastLine (before : List UInt8) :
    ∃ lines, before = lines ++ lastLine before ∧ lineFeed ∉ lastLine before ∧
      ∀ last ∈ lines.getLast?, last = lineFeed := by
  refine ⟨(before.reverse.dropWhile (· != lineFeed)).reverse, ?_, ?_, ?_⟩
  · rw [lastLine, ← List.reverse_append, List.takeWhile_append_dropWhile, List.reverse_reverse]
  · intro hmem
    rw [lastLine, List.mem_reverse] at hmem
    simpa using List.mem_takeWhile_imp hmem
  · intro last hlast
    have hnot := List.head?_dropWhile_not (· != lineFeed) before.reverse
    rw [List.getLast?_reverse] at hlast
    rw [Option.mem_def.mp hlast] at hnot
    simpa using hnot

theorem ofNode?_of_not_isFaulty (source : List UInt8) {node : Node} (hsound : ¬ node.IsFaulty) :
    ofNode? source node = none := by
  obtain ⟨herror, hmissing⟩ := not_or.mp hsound
  simp [ofNode?, herror, hmissing]

theorem exists_ofNode? (source : List UInt8) {node : Node} (hfaulty : node.IsFaulty) :
    ∃ e, ofNode? source node = some e ∧ Reports source node e.message := by
  obtain ⟨lines, hlines, hline, hlast⟩ := exists_append_lastLine (source.take node.start)
  have hcount : (source.take node.start).count lineFeed = lines.count lineFeed := by
    conv_lhs => rw [hlines]
    rw [List.count_append, List.count_eq_zero_of_not_mem hline, Nat.add_zero]
  by_cases herror : node.isError = true
  · have hnode : ofNode? source node = some ⟨none, (bytePosition source node.start).1,
        (bytePosition source node.start).2⟩ := by
      simp only [ofNode?, if_pos herror]
    refine ⟨_, hnode, lines, _, hlines, hline, hlast, ?_⟩
    simp only [bytePosition, message, hcount, if_pos herror]
  · have hnode : ofNode? source node = some ⟨some node.kind, (bytePosition source node.start).1,
        (bytePosition source node.start).2⟩ := by
      simp only [ofNode?, if_neg herror, if_pos (hfaulty.resolve_left herror)]
    refine ⟨_, hnode, lines, _, hlines, hline, hlast, ?_⟩
    simp only [bytePosition, message, hcount, if_neg herror]

theorem forall₂_reports (source : List UInt8) (nodes : List Node) :
    List.Forall₂ (Reports source) (nodes.filter (·.IsFaulty))
      ((nodes.filterMap (ofNode? source)).map message) := by
  induction nodes with
  | nil => exact .nil
  | cons node rest ih =>
      by_cases hfaulty : node.IsFaulty
      · obtain ⟨e, he, hreports⟩ := exists_ofNode? source hfaulty
        rw [List.filter_cons_of_pos (by simpa using hfaulty), List.filterMap_cons_some he]
        exact .cons hreports ih
      · rw [List.filter_cons_of_neg (by simpa using hfaulty),
          List.filterMap_cons_none (ofNode?_of_not_isFaulty source hfaulty)]
        exact ih

/-- Looking for an error first changes nothing: without one no node has anything to report. -/
theorem ofTree_eq_filterMap (source : List UInt8) (root : Node) :
    ofTree source root = root.nodes.filterMap (ofNode? source) := by
  unfold ofTree
  split
  next => rfl
  next hnone =>
    symm
    rw [List.filterMap_eq_nil_iff]
    intro node hnode
    refine ofNode?_of_not_isFaulty source fun hfaulty => hnone ?_
    exact Node.hasError_eq_true_iff.mpr ⟨node, Node.mem_nodes_iff.mp hnode, hfaulty⟩

theorem ofTree_eq_nil_iff {source : List UInt8} {root : Node} :
    ofTree source root = [] ↔ ∀ inner : Node, inner.Within root → ¬ inner.IsFaulty := by
  rw [ofTree_eq_filterMap, List.filterMap_eq_nil_iff]
  simp only [Node.mem_nodes_iff]
  refine forall₂_congr fun inner hinner => ?_
  constructor
  · intro hnone hfaulty
    obtain ⟨e, he, -⟩ := exists_ofNode? source hfaulty
    rw [hnone] at he
    cases he
  · exact ofNode?_of_not_isFaulty source

end SyntaxError

namespace Node

/-- The walk through a tree ends after one pass for each node and visits the nodes in preorder.  In
a tree that is given by rows it visits the block of rows that starts with the row of the node, and
the nodes of a kind are found in the order of their rows.  Each node that is marked as an error or
as missing gives one message, in the same order. -/
theorem nodes_follow_document_order (node : Node) :
    (∀ passes ≤ node.size,
      ((Walk.pass^[passes] (Walk.start (.ofRoot node))).visited.map (·.node) =
        node.nodes.take passes) ∧
      ((Walk.pass^[passes] (Walk.start (.ofRoot node))).pending = [] ↔ passes = node.size)) ∧
    node.nodes = node.preorder ∧
    (∀ kind, node.ofKind kind = node.preorder.filter (·.kind = kind)) ∧
    (∀ rows root, ofRows? rows = some root → node.Within root →
      ∃ row, rows[node.index]? = some row ∧ node.Shows row ∧
        node.nodes.map (·.index) = List.range' node.index (blockSize rows node.index row) ∧
        ∀ kind, (node.ofKind kind).map (·.index) =
          (List.range' node.index (blockSize rows node.index row)).filter fun index =>
            (rows[index]?).map (·.kind) = some kind) ∧
    (node.hasError = true ↔ ∃ inner : Node, inner.Within node ∧ inner.IsFaulty) ∧
    ∀ source,
      List.Forall₂ (SyntaxError.Reports source) (node.preorder.filter (·.IsFaulty))
        ((SyntaxError.ofTree source node).map SyntaxError.message) ∧
      (SyntaxError.ofTree source node = [] ↔
        ∀ inner : Node, inner.Within node → ¬ inner.IsFaulty) := by
  refine ⟨?_, nodes_eq_preorder node, ?_, ?_, hasError_eq_true_iff, ?_⟩
  · intro passes hpasses
    refine ⟨?_, Walk.pending_iterate_pass_eq_nil_iff (.ofRoot node) hpasses⟩
    rw [Walk.visited_iterate_pass (.ofRoot node) hpasses, List.map_take]
    rfl
  · intro kind
    simp only [ofKind, nodes_eq_preorder, beq_eq_decide]
  · intro rows root hroot hnode
    obtain ⟨row, hrow, hshows, hblock⟩ := fillsBlock_of_ofRows? hroot hnode
    rw [← nodes_eq_preorder] at hblock
    refine ⟨row, hrow, hshows, hblock, ?_⟩
    intro kind
    rw [map_index_ofKind hroot hnode, hblock]
  · intro source
    refine ⟨?_, SyntaxError.ofTree_eq_nil_iff⟩
    rw [SyntaxError.ofTree_eq_filterMap, nodes_eq_preorder]
    exact SyntaxError.forall₂_reports source node.preorder

/-- Two calls, the first with a text that fits nowhere and without its closing parenthesis. -/
def brokenRows : List Row :=
  [⟨0, "program", 0, 9, true, false, false, none⟩, ⟨1, "call", 0, 5, true, false, false, none⟩,
    ⟨2, "ERROR", 1, 3, true, true, false, none⟩, ⟨3, "integer", 2, 3, true, false, false, none⟩,
    ⟨2, ")", 5, 5, false, false, true, none⟩, ⟨1, "call", 6, 9, true, false, false, none⟩]

def brokenCall : Node :=
  ⟨1, "call", 0, 5, true, false, false, none,
    [⟨2, "ERROR", 1, 3, true, true, false, none,
      [⟨3, "integer", 2, 3, true, false, false, none, []⟩]⟩,
    ⟨4, ")", 5, 5, false, false, true, none, []⟩]⟩

def brokenProgram : Node :=
  ⟨0, "program", 0, 9, true, false, false, none,
    [brokenCall, ⟨5, "call", 6, 9, true, false, false, none, []⟩]⟩

theorem nodes_follow_document_order_of_brokenRows :
    ofRows? brokenRows = some brokenProgram ∧ brokenCall.Within brokenProgram ∧
      brokenCall.nodes.map (·.index) = [1, 2, 3, 4] ∧
      (brokenProgram.ofKind "call").map (·.index) = [1, 5] ∧
      (Walk.pass^[6] (Walk.start (.ofRoot brokenProgram))).pending = [] := by
  have hroot : ofRows? brokenRows = some brokenProgram := rfl
  have hcall : brokenCall.Within brokenProgram := within_of_mem_children List.mem_cons_self
  obtain ⟨-, -, -, hrows, -⟩ := nodes_follow_document_order brokenCall
  obtain ⟨hpasses, -, -, hrows', -⟩ := nodes_follow_document_order brokenProgram
  obtain ⟨row, hrow, -, hblock, -⟩ := hrows brokenRows brokenProgram hroot hcall
  obtain ⟨row', hrow', -, -, hkind⟩ := hrows' brokenRows brokenProgram hroot (.refl brokenProgram)
  cases hrow
  cases hrow'
  refine ⟨hroot, hcall, hblock, ?_, (hpasses 6 (by decide)).2.mpr rfl⟩
  rw [hkind "call"]
  decide

end Node

end RubyLint
