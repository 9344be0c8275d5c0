import RubyLint.Proofs.Outcomes
import RubyLint.Proofs.TreeWalk
import Mathlib.Tactic

/-!
# Plain calls

A plain call is `receiver.name(arguments)`: a call node with a receiver, a dot, and no block of any
kind.  The view of a call node says this in its flags and texts, and the test for a constructor of
regular expressions asks for one particular plain call.  Both are tied here to the children of the
node, so that later modules argue about the tree and not about how it is looked at.
-/

namespace RubyLint

open Text

namespace Node

/-- `node` is a call of `name` on `receiver` by a plain dot, with `arguments` and without a block
or a block handed over. -/
structure PlainCall (source : List UInt8) (node receiver : Node) (name : String)
    (arguments : List Node) : Prop where
  kind : node.kind = "call"
  method : ∃ method, node.child? "method" = some method ∧ method.text source = .ok name
  receiver : node.child? "receiver" = some receiver
  operator : ∃ operator, node.callOperator? = some operator ∧ operator.text source = .ok "."
  noBlock : ∀ child ∈ node.children,
    child.field ≠ some "block" ∧ child.kind ≠ "block" ∧ child.kind ≠ "do_block"
  noBlockPass : ∀ argument ∈ node.argumentNodes, argument.kind ≠ "block_argument"
  arguments : node.argumentNodes.filter (·.kind != "comment") = arguments

theorem hasBlock_eq_false_iff {node : Node} :
    node.hasBlock = false ↔ ∀ child ∈ node.children,
      child.field ≠ some "block" ∧ child.kind ≠ "block" ∧ child.kind ≠ "do_block" := by
  simp only [hasBlock, child?, Bool.or_eq_false_iff, List.any_eq_false, Option.isSome_eq_false_iff,
    Option.isNone_iff_eq_none, List.find?_eq_none, beq_iff_eq, Bool.or_eq_true, not_or]
  constructor
  · rintro ⟨hfield, hkind⟩ child hchild
    exact ⟨hfield child hchild, hkind child hchild⟩
  · intro hnone
    exact ⟨fun child hchild => (hnone child hchild).1, fun child hchild => (hnone child hchild).2⟩

theorem hasBlockPass_eq_false_iff {node : Node} :
    (node.argumentNodes.any (·.kind == "block_argument")) = false ↔
      ∀ argument ∈ node.argumentNodes, argument.kind ≠ "block_argument" := by
  simp

theorem callArguments_eq_of_noBlockPass {node : Node}
    (hpass : ∀ argument ∈ node.argumentNodes, argument.kind ≠ "block_argument") :
    node.callArguments = node.argumentNodes.filter (·.kind != "comment") := by
  unfold callArguments
  apply List.filter_congr
  intro argument hargument
  have hkind : (argument.kind != "block_argument") = true :=
    bne_iff_ne.mpr (hpass argument hargument)
  rw [hkind, Bool.and_true]

theorem PlainCall.callArguments {source : List UInt8} {node receiver : Node} {name : String}
    {arguments : List Node} (hplain : node.PlainCall source receiver name arguments) :
    node.callArguments = arguments :=
  (callArguments_eq_of_noBlockPass hplain.noBlockPass).trans hplain.arguments

theorem within_of_mem_callArguments {node argument : Node}
    (hargument : argument ∈ node.callArguments) : argument.Within node := by
  unfold callArguments argumentNodes at hargument
  cases hlist : node.child? "arguments" with
  | none => simp [hlist] at hargument
  | some list =>
      simp only [hlist, List.mem_filter] at hargument
      exact (within_of_mem_children hargument.1.1).trans
        (within_of_mem_children (mem_children_of_child? hlist))

theorem PlainCall.name_unique {source : List UInt8} {node receiver receiver' : Node}
    {name name' : String} {arguments arguments' : List Node}
    (hplain : node.PlainCall source receiver name arguments)
    (hplain' : node.PlainCall source receiver' name' arguments') : name = name' := by
  obtain ⟨method, hmethod, hname⟩ := hplain.method
  obtain ⟨method', hmethod', hname'⟩ := hplain'.method
  rw [hmethod] at hmethod'
  cases hmethod'
  rw [hname] at hname'
  cases hname'
  rfl

/-! ## The view of a call node -/

/-- What the text of the operator of a call is, if it has one. -/
def HasOperator (source : List UInt8) (node : Node) (text : Option String) : Prop :=
  match node.callOperator? with
  | none => text = none
  | some operator => ∃ found, operator.text source = .ok found ∧ text = some found

/-- The view of a call node whose texts have been read. -/
def callView (node method : Node) (operator : Option String) (name : String) : CallSite where
  node := node
  receiver := node.child? "receiver"
  operator := operator
  methodName := name
  methodNode := method
  arguments := node.callArguments
  parenthesized := node.hasParentheses
  hasBlock := node.hasBlock
  hasBlockPass := node.argumentNodes.any (·.kind == "block_argument")

theorem callSite?_eq_some_iff {source : List UInt8} {node : Node} {call : CallSite} :
    node.callSite? source = .ok (some call) ↔
      node.kind = "call" ∧ ∃ method operator name,
        node.child? "method" = some method ∧ node.HasOperator source operator ∧
          method.text source = .ok name ∧ node.callView method operator name = call := by
  unfold callSite? HasOperator
  by_cases hkind : node.kind = "call"
  · cases hmethod : node.child? "method" with
    | none => simp [hkind, pure, Except.pure]
    | some method =>
        cases hoperator : node.callOperator? with
        | none =>
            simp [hkind, Outcome.map_eq_ok_iff, callView]
        | some operator =>
            simp [hkind, Outcome.bind_eq_ok_iff, Outcome.map_eq_ok_iff, callView]
  · simp [hkind, pure, Except.pure]

variable {source : List UInt8} {node receiver : Node} {name : String} {arguments : List Node}
  {call : CallSite}

theorem PlainCall.hasOperator (hplain : node.PlainCall source receiver name arguments) :
    node.HasOperator source (some ".") := by
  obtain ⟨operator, hoperator, htext⟩ := hplain.operator
  rw [HasOperator, hoperator]
  exact ⟨".", htext, rfl⟩

theorem PlainCall.exists_callSite (hplain : node.PlainCall source receiver name arguments) :
    ∃ call, node.callSite? source = .ok (some call) := by
  obtain ⟨method, hmethod, hname⟩ := hplain.method
  exact ⟨_, callSite?_eq_some_iff.mpr
    ⟨hplain.kind, method, some ".", name, hmethod, hplain.hasOperator, hname, rfl⟩⟩

/-- A plain call is a call node whose view has a receiver, a dot and no block. -/
theorem plainCall_iff_callSite (hcall : node.callSite? source = .ok (some call)) :
    node.PlainCall source receiver name arguments ↔
      call.receiver = some receiver ∧ call.operator = some "." ∧ call.methodName = name ∧
        call.hasBlock = false ∧ call.hasBlockPass = false ∧ call.arguments = arguments := by
  obtain ⟨hkind, method, operator, found, hmethod, hoperator, hname, rfl⟩ :=
    callSite?_eq_some_iff.mp hcall
  simp only [callView, hasBlock_eq_false_iff, hasBlockPass_eq_false_iff]
  constructor
  · intro hplain
    have hdot : operator = some "." := by
      have hdot' := hplain.hasOperator
      unfold HasOperator at hoperator hdot'
      split at hoperator
      next hnone => simp [hnone] at hdot'
      next op hsome =>
        simp only [hsome] at hdot'
        obtain ⟨text, htext, rfl⟩ := hoperator
        obtain ⟨text', htext', hdot'⟩ := hdot'
        rw [htext] at htext'
        cases htext'
        exact hdot'.symm
    have hfound : found = name := by
      obtain ⟨method', hmethod', hname'⟩ := hplain.method
      rw [hmethod] at hmethod'
      cases hmethod'
      rw [hname] at hname'
      cases hname'
      rfl
    exact ⟨hplain.receiver, hdot, hfound, hplain.noBlock, hplain.noBlockPass,
      hplain.callArguments⟩
  · rintro ⟨hreceiver, rfl, rfl, hblock, hpass, rfl⟩
    have hdot : ∃ operator, node.callOperator? = some operator ∧
        operator.text source = .ok "." := by
      unfold HasOperator at hoperator
      split at hoperator
      next => simp at hoperator
      next operator hsome =>
        obtain ⟨text, htext, hdot⟩ := hoperator
        cases hdot
        exact ⟨operator, hsome, htext⟩
    exact ⟨hkind, ⟨method, hmethod, hname⟩, hreceiver, hdot, hblock, hpass,
      (callArguments_eq_of_noBlockPass hpass).symm⟩

/-! ## Constructors of regular expressions -/

/-- `node` is `Regexp.new(argument)` or `Regexp.compile(argument)` on the bare constant. -/
def RegexpConstructor (source : List UInt8) (node argument : Node) : Prop :=
  ∃ receiver name, node.PlainCall source receiver name [argument] ∧
    receiver.kind = "constant" ∧ receiver.text source = .ok "Regexp" ∧
    (name = "new" ∨ name = "compile")

theorem isRegexpConstructor_eq_true_iff :
    node.isRegexpConstructor source = .ok true ↔
      ∃ argument, node.RegexpConstructor source argument := by
  constructor
  · intro htrue
    unfold isRegexpConstructor at htrue
    obtain ⟨site, hsite, htrue⟩ := Outcome.bind_eq_ok_iff.mp htrue
    cases site with
    | none => simp [pure, Except.pure] at htrue
    | some call =>
        simp only at htrue
        split at htrue
        next => simp [pure, Except.pure] at htrue
        next receiver hreceiver =>
          by_cases hkind : receiver.kind = "constant"
          · simp only [hkind, bne_self_eq_false, Bool.false_eq_true, if_false] at htrue
            obtain ⟨text, htext, htrue⟩ := Outcome.bind_eq_ok_iff.mp htrue
            by_cases hregexp : text = "Regexp"
            · subst hregexp
              simp only [bne_self_eq_false, Bool.false_eq_true, if_false, pure, Except.pure,
                Except.ok.injEq, Bool.and_eq_true, Bool.or_eq_true, beq_iff_eq,
                Bool.not_eq_true'] at htrue
              obtain ⟨⟨⟨⟨hoperator, hname⟩, hlength⟩, hblock⟩, hpass⟩ := htrue
              obtain ⟨argument, harguments⟩ := List.length_eq_one_iff.mp hlength
              exact ⟨argument, receiver, call.methodName,
                (plainCall_iff_callSite hsite).mpr
                  ⟨hreceiver, hoperator, rfl, hblock, hpass, harguments⟩,
                hkind, htext, hname⟩
            · simp [hregexp, pure, Except.pure] at htrue
          · simp [hkind, pure, Except.pure] at htrue
  · rintro ⟨argument, receiver, name, hplain, hkind, htext, hname⟩
    obtain ⟨call, hcall⟩ := hplain.exists_callSite
    obtain ⟨hreceiver, hoperator, hmethod, hblock, hpass, harguments⟩ :=
      (plainCall_iff_callSite hcall).mp hplain
    unfold isRegexpConstructor
    simp [hcall, hreceiver, hkind, htext, hoperator, hmethod, hblock, hpass, harguments, hname,
      bind, Except.bind, pure, Except.pure]

end Node

end RubyLint
