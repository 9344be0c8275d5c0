import RubyLint.Proofs.ArgumentValue
import RubyLint.Proofs.Utf8RoundTrip
import RubyLint.Shortcut
import Mathlib.Tactic

/-!
# Trees whose spans lie between characters

Two things can stop the analysis of a source: a node that covers a part of a character, and more
constructors in one another than the stack has room for.  A tree is aligned when none of its nodes
covers a part of a character.  Every text asked for in an aligned tree exists, so the view of a call
comes to an end with a value, and the resolver and the facts do unless constructors are nested too
deep.
-/

namespace RubyLint

open Text

namespace Node

/-- Every span of the tree starts and ends between two characters of `source`. -/
def Aligned (source : String) (tree : Node) : Prop :=
  ∀ node : Node, node.Within tree → Boundary source node.start ∧ Boundary source node.stop

variable {source : String} {tree node : Node}

instance (source : String) (tree : Node) : Decidable (tree.Aligned source) :=
  inferInstanceAs (Decidable (∀ node : Node, node.Within tree → _))

theorem Aligned.of_within (haligned : tree.Aligned source) (hnode : node.Within tree) :
    node.Aligned source :=
  fun _ hinner => haligned _ (hinner.trans hnode)

theorem Aligned.of_mem_children (haligned : node.Aligned source) {child : Node}
    (hchild : child ∈ node.children) : child.Aligned source :=
  haligned.of_within (within_of_mem_children hchild)

theorem Aligned.of_children
    (hnode : Boundary source node.start ∧ Boundary source node.stop)
    (hchildren : ∀ child ∈ node.children, child.Aligned source) : node.Aligned source := by
  intro inner hinner
  rcases within_iff.mp hinner with rfl | ⟨child, hchild, hinner⟩
  · exact hnode
  · exact hchildren child hchild inner hinner

theorem Aligned.exists_text (haligned : node.Aligned source) :
    ∃ text, node.text (bytes source) = .ok text := by
  obtain ⟨hstart, hstop⟩ := haligned node (.refl node)
  obtain ⟨text, htext, -⟩ := (hstart.isText_slice hstop).decode
  exact ⟨text, htext⟩

theorem mem_children_of_callOperator? {operator : Node}
    (hoperator : node.callOperator? = some operator) : operator ∈ node.children := by
  unfold callOperator? at hoperator
  split at hoperator
  next found hfound =>
    cases hoperator
    exact mem_children_of_child? hfound
  next =>
    split at hoperator
    next => exact List.mem_of_find?_eq_some hoperator
    next => cases hoperator

theorem Aligned.exists_operator (haligned : node.Aligned source) :
    ∃ operator, node.HasOperator (bytes source) operator := by
  unfold HasOperator
  cases hoperator : node.callOperator? with
  | none => exact ⟨none, rfl⟩
  | some operator =>
      have hchild := mem_children_of_callOperator? hoperator
      obtain ⟨text, htext⟩ := (haligned.of_mem_children hchild).exists_text
      exact ⟨some text, text, htext, rfl⟩

theorem callSite?_eq_none {data : List UInt8}
    (hnone : node.kind ≠ "call" ∨ node.child? "method" = none) :
    node.callSite? data = .ok none := by
  unfold callSite?
  rcases hnone with hkind | hmethod
  · simp [hkind, pure, Except.pure]
  · by_cases hkind : node.kind = "call"
    · simp [hkind, hmethod, pure, Except.pure]
    · simp [hkind, pure, Except.pure]

theorem Aligned.exists_callSite? (haligned : node.Aligned source) :
    ∃ site, node.callSite? (bytes source) = .ok site := by
  by_cases hkind : node.kind = "call"
  · cases hmethod : node.child? "method" with
    | none => exact ⟨none, callSite?_eq_none (.inr hmethod)⟩
    | some method =>
        have hchild := mem_children_of_child? hmethod
        obtain ⟨name, hname⟩ := (haligned.of_mem_children hchild).exists_text
        obtain ⟨operator, hoperator⟩ := haligned.exists_operator
        exact ⟨some _, callSite?_eq_some_iff.mpr
          ⟨hkind, method, operator, name, hmethod, hoperator, hname, rfl⟩⟩
  · exact ⟨none, callSite?_eq_none (.inl hkind)⟩

theorem Aligned.exists_isRegexpConstructor (haligned : node.Aligned source) :
    ∃ answer, node.isRegexpConstructor (bytes source) = .ok answer := by
  obtain ⟨site, hsite⟩ := haligned.exists_callSite?
  unfold isRegexpConstructor
  rw [hsite]
  cases site with
  | none => exact ⟨false, rfl⟩
  | some call =>
      cases hreceiver : call.receiver with
      | none => exact ⟨false, by simp [hreceiver, bind, Except.bind, pure, Except.pure]⟩
      | some receiver =>
          have hchild : receiver ∈ node.children := by
            obtain ⟨-, method, operator, name, -, -, -, rfl⟩ := callSite?_eq_some_iff.mp hsite
            exact mem_children_of_child? hreceiver
          obtain ⟨text, htext⟩ := (haligned.of_mem_children hchild).exists_text
          simp only [bind, Except.bind, hreceiver, htext]
          split
          next => exact ⟨_, rfl⟩
          next => split <;> exact ⟨_, rfl⟩

theorem Aligned.of_mem_callArguments (haligned : node.Aligned source) {argument : Node}
    (hargument : argument ∈ node.callArguments) : argument.Aligned source :=
  haligned.of_within (within_of_mem_callArguments hargument)

theorem RegexpConstructor.unique {data : List UInt8} {inner inner' : Node}
    (hconstructor : node.RegexpConstructor data inner)
    (hconstructor' : node.RegexpConstructor data inner') : inner = inner' := by
  have hsame := hconstructor.callArguments.symm.trans hconstructor'.callArguments
  exact List.head_eq_of_cons_eq hsame

/-- `count` constructors stand in one another, and `node` is the outermost. -/
def Nests (source : List UInt8) : (count : Nat) → (node : Node) → Prop
  | 0, _ => True
  | count + 1, node => ∃ inner, node.RegexpConstructor source inner ∧ Nests source count inner

theorem Nests.le_size {data : List UInt8} {count : Nat} (hnests : node.Nests data count) :
    count ≤ node.size := by
  induction count generalizing node with
  | zero => exact Nat.zero_le _
  | succ count ih =>
      obtain ⟨inner, hconstructor, hinner⟩ := hnests
      have hsmaller : inner.size < node.size :=
        size_lt_of_mem_callArguments (by simp [hconstructor.callArguments])
      exact Nat.lt_of_le_of_lt (ih hinner) hsmaller

/-- A node that is no constructor resolves, whatever room there is. -/
theorem Aligned.failsIff_of_not_constructor (haligned : node.Aligned source)
    (hother : ¬ ∃ inner, node.RegexpConstructor (bytes source) inner) (room : Nat) :
    Traced.FailsIff .nestedTooDeep (node.Nests (bytes source) (room + 1))
      (Argument.resolveWithin (bytes source) room node) := by
  obtain ⟨text, htext⟩ := haligned.exists_text
  have hconstructs : node.isRegexpConstructor (bytes source) = .ok false := by
    obtain ⟨constructs, hconstructs⟩ := haligned.exists_isRegexpConstructor
    cases constructs with
    | false => exact hconstructs
    | true => exact absurd (isRegexpConstructor_eq_true_iff.mp hconstructs) hother
  have hnests : ¬ node.Nests (bytes source) (room + 1) := by
    rintro ⟨inner, hconstructor, -⟩
    exact hother ⟨inner, hconstructor⟩
  refine ⟨fun h => absurd h hnests, fun _ => ?_⟩
  unfold Argument.resolveWithin
  split
  next =>
    split
    next => exact ⟨_, rfl⟩
    next =>
      exact Traced.exists_bind_outcome (Traced.liftText_outcome_eq_ok_iff.mpr htext)
        (Argument.exists_ofStringText text)
  next =>
    split
    next =>
      split
      next => exact ⟨_, rfl⟩
      next =>
        exact Traced.exists_bind_outcome (Traced.liftText_outcome_eq_ok_iff.mpr htext) ⟨_, rfl⟩
    next =>
      exact Traced.exists_bind_outcome (Traced.liftText_outcome_eq_ok_iff.mpr hconstructs)
        ⟨_, rfl⟩

theorem Nests.of_le {data : List UInt8} {count count' : Nat} (hnests : node.Nests data count')
    (hle : count ≤ count') : node.Nests data count := by
  induction count generalizing node count' with
  | zero => trivial
  | succ count ih =>
      obtain ⟨more, rfl⟩ := Nat.exists_eq_add_of_le' hle
      obtain ⟨inner, hconstructor, hinner⟩ := hnests
      exact ⟨inner, hconstructor, ih hinner (Nat.le_add_left count more)⟩

theorem nests_succ_iff {data : List UInt8} {inner : Node} {count : Nat}
    (hconstructor : node.RegexpConstructor data inner) :
    node.Nests data (count + 1) ↔ inner.Nests data count := by
  constructor
  · rintro ⟨inner', hconstructor', hinner⟩
    rwa [hconstructor.unique hconstructor']
  · intro hinner
    exact ⟨inner, hconstructor, hinner⟩

/-- In an aligned tree every node resolves, unless more constructors stand in one another than
there is room for. -/
theorem Aligned.resolveWithin_failsIff (haligned : node.Aligned source) (room : Nat) :
    Traced.FailsIff .nestedTooDeep (node.Nests (bytes source) (room + 1))
      (Argument.resolveWithin (bytes source) room node) := by
  induction room generalizing node with
  | zero =>
      by_cases hconstructs : ∃ inner, node.RegexpConstructor (bytes source) inner
      · obtain ⟨inner, hconstructor⟩ := hconstructs
        refine ⟨fun _ => Argument.resolveWithin_zero_of_constructor hconstructor, fun hnot => ?_⟩
        exact absurd ⟨inner, hconstructor, trivial⟩ hnot
      · exact haligned.failsIff_of_not_constructor hconstructs 0
  | succ room ih =>
      by_cases hconstructs : ∃ inner, node.RegexpConstructor (bytes source) inner
      · obtain ⟨inner, hconstructor⟩ := hconstructs
        have hinner := ih (haligned.of_within hconstructor.argument_within)
        constructor <;>
          rw [nests_succ_iff hconstructor, Argument.resolveWithin_succ_of_constructor hconstructor]
        · intro hnests
          rw [hinner.fails hnests]
          rfl
        · intro hnot
          obtain ⟨argument, hargument⟩ := hinner.ends hnot
          rw [hargument]
          exact ⟨_, rfl⟩
      · exact haligned.failsIff_of_not_constructor hconstructs (room + 1)

end Node

variable [StackRoom] {source : String}

/-- More constructors stand in one another than there is room for. -/
def Node.NestedTooDeep (source : List UInt8) (node : Node) : Prop :=
  node.Nests source (StackRoom.constructors + 1)

theorem Node.Aligned.resolve_failsIff {node : Node} (haligned : node.Aligned source) :
    Traced.FailsIff .nestedTooDeep (node.NestedTooDeep (bytes source))
      (Argument.resolve (bytes source) node) :=
  haligned.resolveWithin_failsIff _

theorem Fact.ofPatternNode_failsIff {pattern : Node} (hpattern : pattern.Aligned source) :
    Traced.FailsIff .nestedTooDeep (pattern.NestedTooDeep (bytes source))
      (Fact.ofPatternNode (bytes source) pattern) := by
  refine hpattern.resolve_failsIff.bind_ends fun argument hargument => ?_
  have hfact := Fact.ofPatternNode_eq_ok_iff.mpr ⟨argument, hargument, rfl⟩
  obtain ⟨_, hargument', hfact⟩ := Traced.bind_outcome_eq_ok_iff.mp hfact
  rw [hargument] at hargument'
  cases hargument'
  exact ⟨_, hfact⟩

theorem Fact.ofReplacementNode_failsIff {replacement : Node}
    (hreplacement : replacement.Aligned source) :
    Traced.FailsIff .nestedTooDeep (replacement.NestedTooDeep (bytes source))
      (Fact.ofReplacementNode (bytes source) replacement) := by
  refine hreplacement.resolve_failsIff.bind_ends fun argument _ => ?_
  cases argument <;> exact ⟨_, rfl⟩

end RubyLint
