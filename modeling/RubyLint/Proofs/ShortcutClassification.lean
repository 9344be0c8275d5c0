import RubyLint.Proofs.AlignedTree
import Mathlib.Tactic

/-!
# Which calls a faster method can stand in for

A call is translated or turned into a deletion exactly when it is a plain call of `gsub` or
`gsub!` whose first argument matches one fixed character and whose second argument is a string
literal of one character or of none.  The condition is stated on the tree; the decision of the
program is followed branch by branch, and every branch that keeps a call fails a part of it.
-/

namespace RubyLint

open Text

/-- `node` is a plain call of `gsub` or `gsub!` with two arguments: a pattern that matches only the
one character of `pattern`, and a string literal of value `replacement`. -/
def Node.Substitutes (source : List UInt8) (node : Node) (pattern replacement : String) : Prop :=
  ∃ receiver name first second, (name = "gsub" ∨ name = "gsub!") ∧
    node.PlainCall source receiver name [first, second] ∧
    first.PatternValue source pattern ∧ pattern.length = 1 ∧
    second.StringValue source replacement

theorem length_eq_one_iff_toString {text : String} :
    text.length = 1 ↔ ∃ c : Char, text = c.toString := by
  rw [← String.length_toList, List.length_eq_one_iff]
  apply exists_congr
  intro c
  simp [String.ext_iff]

/-- The call passes every test on its form, and has the two arguments. -/
structure CallSite.Takes (call : CallSite) (first second : Node) : Prop where
  name : call.methodName = "gsub" ∨ call.methodName = "gsub!"
  receiver : ∃ receiver, call.receiver = some receiver
  operator : call.operator = some "."
  noBlock : call.hasBlock = false
  noBlockPass : call.hasBlockPass = false
  arguments : call.arguments = [first, second]

theorem CallSite.takes_iff {source : List UInt8} {node first second : Node} {call : CallSite}
    (hcall : node.callSite? source = .ok (some call)) :
    call.Takes first second ↔ ∃ receiver name, (name = "gsub" ∨ name = "gsub!") ∧
      node.PlainCall source receiver name [first, second] := by
  simp only [Node.plainCall_iff_callSite hcall]
  constructor
  · rintro ⟨hname, ⟨receiver, hreceiver⟩, hoperator, hblock, hpass, harguments⟩
    exact ⟨receiver, call.methodName, hname, hreceiver, hoperator, rfl, hblock, hpass, harguments⟩
  · rintro ⟨receiver, name, hname, hreceiver, hoperator, rfl, hblock, hpass, harguments⟩
    exact ⟨hname, ⟨receiver, hreceiver⟩, hoperator, hblock, hpass, harguments⟩

theorem Node.PlainCall.exists_substitution {source : List UInt8} {node receiver : Node}
    {name : String} {arguments : List Node}
    (hplain : node.PlainCall source receiver name arguments)
    (hname : name = "gsub" ∨ name = "gsub!") :
    ∃ call, node.callSite? source = .ok (some call) ∧ call.isSubstitution = true := by
  obtain ⟨call, hcall⟩ := hplain.exists_callSite
  obtain ⟨-, -, hmethod, -⟩ := (plainCall_iff_callSite hcall).mp hplain
  refine ⟨call, hcall, ?_⟩
  simpa [CallSite.isSubstitution, hmethod] using hname

section

variable [StackRoom]

/-- `node` is a plain call of `gsub` or `gsub!` with two arguments, and in one that is looked at
more constructors stand in one another than there is room for.  The second argument is looked at if
the first matches one character. -/
def Node.Overflows (source : List UInt8) (node : Node) : Prop :=
  ∃ receiver name first second, (name = "gsub" ∨ name = "gsub!") ∧
    node.PlainCall source receiver name [first, second] ∧
    (first.NestedTooDeep source ∨
      (∃ pattern, first.PatternValue source pattern ∧ pattern.length = 1) ∧
        second.NestedTooDeep source)

/-- A small tree has no room for so many constructors. -/
theorem Node.not_overflows {source : List UInt8} {node : Node}
    (hsize : node.size ≤ StackRoom.constructors) : ¬ node.Overflows source := by
  rintro ⟨receiver, name, first, second, -, hplain, hdeep⟩
  have hsmaller : ∀ argument ∈ [first, second], argument.size < node.size := by
    intro argument hargument
    rw [← hplain.callArguments] at hargument
    exact size_lt_of_mem_callArguments hargument
  rcases hdeep with hdeep | ⟨-, hdeep⟩
  · have hle := hdeep.le_size
    have hlt := hsmaller first (by simp)
    omega
  · have hle := hdeep.le_size
    have hlt := hsmaller second (by simp)
    omega

/-- There is room for the constructors in every call of the tree. -/
def Node.Shallow (source : List UInt8) (tree : Node) : Prop :=
  ∀ node : Node, node.Within tree → ¬ node.Overflows source

theorem Node.shallow_of_size_le {source : List UInt8} {tree : Node}
    (hsize : tree.size ≤ StackRoom.constructors) : tree.Shallow source :=
  fun _ hnode => not_overflows (hnode.size_le.trans hsize)

namespace Shortcut

variable {source : List UInt8} {first second : Node}

theorem ofArguments_eq_tr_iff {pattern replacement : String} :
    (ofArguments source first second).outcome = .ok (.tr pattern replacement) ↔
      first.PatternValue source pattern ∧ pattern.length = 1 ∧
        second.StringValue source replacement ∧ replacement.length = 1 := by
  unfold ofArguments
  rw [Traced.bind_outcome_eq_ok_iff]
  constructor
  · rintro ⟨fact, hfact, houtcome⟩
    cases fact with
    | fixed c =>
        obtain ⟨other, hother, houtcome⟩ := Traced.bind_outcome_eq_ok_iff.mp houtcome
        cases other with
        | fixed r =>
            cases houtcome
            exact ⟨Fact.ofPatternNode_eq_fixed_iff.mp hfact, by simp,
              Fact.ofReplacementNode_eq_fixed_iff.mp hother, by simp⟩
        | _ => cases houtcome
    | _ => cases houtcome
  · rintro ⟨hpattern, hone, hreplacement, hone'⟩
    obtain ⟨c, rfl⟩ := length_eq_one_iff_toString.mp hone
    obtain ⟨r, rfl⟩ := length_eq_one_iff_toString.mp hone'
    exact ⟨.fixed c, Fact.ofPatternNode_eq_fixed_iff.mpr hpattern,
      Traced.bind_outcome_eq_ok_iff.mpr
        ⟨.fixed r, Fact.ofReplacementNode_eq_fixed_iff.mpr hreplacement, rfl⟩⟩

theorem ofArguments_eq_delete_iff {pattern : String} :
    (ofArguments source first second).outcome = .ok (.delete pattern) ↔
      first.PatternValue source pattern ∧ pattern.length = 1 ∧
        second.StringValue source "" := by
  unfold ofArguments
  rw [Traced.bind_outcome_eq_ok_iff]
  constructor
  · rintro ⟨fact, hfact, houtcome⟩
    cases fact with
    | fixed c =>
        obtain ⟨other, hother, houtcome⟩ := Traced.bind_outcome_eq_ok_iff.mp houtcome
        cases other with
        | empty =>
            cases houtcome
            exact ⟨Fact.ofPatternNode_eq_fixed_iff.mp hfact, by simp,
              Fact.ofReplacementNode_eq_empty_iff.mp hother⟩
        | _ => cases houtcome
    | _ => cases houtcome
  · rintro ⟨hpattern, hone, hreplacement⟩
    obtain ⟨c, rfl⟩ := length_eq_one_iff_toString.mp hone
    exact ⟨.fixed c, Fact.ofPatternNode_eq_fixed_iff.mpr hpattern,
      Traced.bind_outcome_eq_ok_iff.mpr
        ⟨.empty, Fact.ofReplacementNode_eq_empty_iff.mpr hreplacement, rfl⟩⟩

/-- In an aligned tree the two arguments of a call are decided on, unless constructors are nested
too deep in one that is looked at. -/
theorem ofArguments_failsIff {source : String} (hfirst : first.Aligned source)
    (hsecond : second.Aligned source) :
    Traced.FailsIff .nestedTooDeep
      (first.NestedTooDeep (bytes source) ∨
        (∃ pattern, first.PatternValue (bytes source) pattern ∧ pattern.length = 1) ∧
          second.NestedTooDeep (bytes source))
      (ofArguments (bytes source) first second) := by
  refine ((Fact.ofPatternNode_failsIff hfirst).bind fun fact hfact => ?_).congr
    (or_congr_right' fun hfirst => and_iff_right hfirst)
  have hfixed : (∃ pattern, first.PatternValue (bytes source) pattern ∧ pattern.length = 1) ↔
      ∃ c, fact = .fixed c := by
    constructor
    · rintro ⟨pattern, hpattern, hone⟩
      obtain ⟨c, rfl⟩ := length_eq_one_iff_toString.mp hone
      have hfact' := Fact.ofPatternNode_eq_fixed_iff.mpr hpattern
      rw [hfact] at hfact'
      cases hfact'
      exact ⟨c, rfl⟩
    · rintro ⟨c, rfl⟩
      exact ⟨c.toString, Fact.ofPatternNode_eq_fixed_iff.mp hfact, by simp⟩
  rw [hfixed]
  cases fact with
  | fixed c =>
      refine ((Fact.ofReplacementNode_failsIff hsecond).bind_ends fun other _ => ?_).congr
        (by simp)
      cases other <;> exact ⟨_, rfl⟩
  | empty => exact .of_ok rfl (by simp)
  | indeterminate reason => exact .of_ok rfl (by simp)

theorem ofCall_of_takes {call : CallSite} (htakes : call.Takes first second) :
    ofCall source call = ofArguments source first second := by
  obtain ⟨hname, ⟨receiver, hreceiver⟩, hoperator, hblock, hpass, harguments⟩ := htakes
  unfold ofCall
  simp only [CallSite.isSubstitution, hreceiver, hoperator, hblock, hpass, harguments]
  rcases hname with hname | hname <;> simp [hname]

theorem ofCall_of_not_takes (source : List UInt8) {call : CallSite}
    (hother : ∀ first second, ¬ call.Takes first second) :
    ∃ reason, ofCall source call = pure (.keep reason) := by
  unfold ofCall
  split
  next => exact ⟨_, rfl⟩
  next hname =>
    split
    next => exact ⟨_, rfl⟩
    next hreceiver =>
      split
      next => exact ⟨_, rfl⟩
      next hblock =>
        split
        next first second harguments =>
          simp only [CallSite.isSubstitution, Bool.not_eq_true', Bool.not_eq_false,
            Bool.or_eq_true, beq_iff_eq] at hname
          simp only [Bool.or_eq_true, bne_iff_ne, not_or, not_not, Bool.not_eq_true,
            Option.isNone_eq_false_iff, Option.isSome_iff_exists] at hreceiver hblock
          exact absurd ⟨hname, hreceiver.1, hreceiver.2, hblock.1, hblock.2, harguments⟩
            (hother first second)
        next => exact ⟨_, rfl⟩

/-- A call is not kept only if it passes every test on its form, and then its two arguments
decide. -/
theorem ofCall_eq_iff {call : CallSite} {shortcut : Shortcut}
    (hshortcut : ∀ reason, shortcut ≠ .keep reason) :
    (ofCall source call).outcome = .ok shortcut ↔
      ∃ first second, call.Takes first second ∧
        (ofArguments source first second).outcome = .ok shortcut := by
  by_cases htakes : ∃ first second, call.Takes first second
  · obtain ⟨first, second, htakes⟩ := htakes
    rw [ofCall_of_takes htakes]
    constructor
    · intro houtcome
      exact ⟨first, second, htakes, houtcome⟩
    · rintro ⟨first', second', htakes', houtcome⟩
      have hsame := htakes.arguments.symm.trans htakes'.arguments
      cases hsame
      exact houtcome
  · simp only [not_exists] at htakes
    obtain ⟨reason, hkeep⟩ := ofCall_of_not_takes source htakes
    rw [hkeep]
    constructor
    · intro houtcome
      cases houtcome
      exact absurd rfl (hshortcut reason)
    · rintro ⟨first, second, htakes', -⟩
      exact absurd htakes' (htakes first second)

/-- In an aligned tree a decision is reached on every call whose arguments are not nested too
deep. -/
theorem ofCall_failsIff {source : String} {node : Node} {call : CallSite}
    (haligned : node.Aligned source) (hcall : node.callSite? (bytes source) = .ok (some call)) :
    Traced.FailsIff .nestedTooDeep (node.Overflows (bytes source))
      (ofCall (bytes source) call) := by
  have hoverflows : node.Overflows (bytes source) ↔ ∃ first second, call.Takes first second ∧
      (first.NestedTooDeep (bytes source) ∨
        (∃ pattern, first.PatternValue (bytes source) pattern ∧ pattern.length = 1) ∧
          second.NestedTooDeep (bytes source)) := by
    simp only [Node.Overflows, CallSite.takes_iff hcall]
    constructor
    · rintro ⟨receiver, name, first, second, hname, hplain, hdeep⟩
      exact ⟨first, second, ⟨receiver, name, hname, hplain⟩, hdeep⟩
    · rintro ⟨first, second, ⟨receiver, name, hname, hplain⟩, hdeep⟩
      exact ⟨receiver, name, first, second, hname, hplain, hdeep⟩
  by_cases htakes : ∃ first second, call.Takes first second
  · obtain ⟨first, second, htakes⟩ := htakes
    obtain ⟨receiver, name, -, hplain⟩ := (CallSite.takes_iff hcall).mp htakes
    have hmembers : ∀ argument ∈ [first, second], argument.Aligned source := by
      intro argument hargument
      rw [← hplain.callArguments] at hargument
      exact haligned.of_mem_callArguments hargument
    rw [ofCall_of_takes htakes]
    refine (ofArguments_failsIff (hmembers first (by simp)) (hmembers second (by simp))).congr ?_
    rw [hoverflows]
    constructor
    · intro hdeep
      exact ⟨first, second, htakes, hdeep⟩
    · rintro ⟨first', second', htakes', hdeep⟩
      cases htakes.arguments.symm.trans htakes'.arguments
      exact hdeep
  · simp only [not_exists] at htakes
    obtain ⟨reason, hkeep⟩ := ofCall_of_not_takes (bytes source) htakes
    rw [hkeep]
    refine .of_ok rfl ?_
    rw [hoverflows]
    rintro ⟨first, second, htakes', -⟩
    exact htakes first second htakes'

theorem ofCall_eq_iff_plainCall {node : Node} {call : CallSite} {shortcut : Shortcut}
    (hcall : node.callSite? source = .ok (some call))
    (hshortcut : ∀ reason, shortcut ≠ .keep reason) :
    (ofCall source call).outcome = .ok shortcut ↔
      ∃ receiver name first second, (name = "gsub" ∨ name = "gsub!") ∧
        node.PlainCall source receiver name [first, second] ∧
        (ofArguments source first second).outcome = .ok shortcut := by
  rw [ofCall_eq_iff hshortcut]
  simp only [CallSite.takes_iff hcall]
  constructor
  · rintro ⟨first, second, ⟨receiver, name, hname, hplain⟩, houtcome⟩
    exact ⟨receiver, name, first, second, hname, hplain, houtcome⟩
  · rintro ⟨receiver, name, first, second, hname, hplain, houtcome⟩
    exact ⟨first, second, ⟨receiver, name, hname, hplain⟩, houtcome⟩

/-- A call that is not kept substitutes for a character. -/
theorem exists_substitutes {node : Node} {call : CallSite} {shortcut : Shortcut}
    (hcall : node.callSite? source = .ok (some call))
    (hshortcut : ∀ reason, shortcut ≠ .keep reason)
    (hdecision : (ofCall source call).outcome = .ok shortcut) :
    ∃ pattern replacement, node.Substitutes source pattern replacement := by
  obtain ⟨receiver, name, first, second, hname, hplain, harguments⟩ :=
    (ofCall_eq_iff_plainCall hcall hshortcut).mp hdecision
  cases shortcut with
  | tr pattern replacement =>
      obtain ⟨hpattern, hone, hstring, -⟩ := ofArguments_eq_tr_iff.mp harguments
      exact ⟨pattern, replacement, receiver, name, first, second, hname, hplain, hpattern, hone,
        hstring⟩
  | delete pattern =>
      obtain ⟨hpattern, hone, hstring⟩ := ofArguments_eq_delete_iff.mp harguments
      exact ⟨pattern, "", receiver, name, first, second, hname, hplain, hpattern, hone, hstring⟩
  | keep reason => exact absurd rfl (hshortcut reason)

end Shortcut

/-- In an aligned tree a decision is reached on every call, unless constructors are nested too deep
in its arguments.  It is a translation of `pattern` into `replacement` exactly when the call
substitutes a character for a character, and a deletion of `pattern` exactly when it substitutes
nothing for a character. -/
theorem Shortcut.ofCall_accepts_exactly {source : String} {tree node : Node} {call : CallSite}
    (haligned : tree.Aligned source) (hnode : node.Within tree)
    (hcall : node.callSite? (bytes source) = .ok (some call)) :
    (¬ node.Overflows (bytes source) →
        ∃ shortcut, (Shortcut.ofCall (bytes source) call).outcome = .ok shortcut) ∧
      (∀ pattern replacement,
        (Shortcut.ofCall (bytes source) call).outcome = .ok (.tr pattern replacement) ↔
          node.Substitutes (bytes source) pattern replacement ∧ replacement.length = 1) ∧
      ∀ pattern,
        (Shortcut.ofCall (bytes source) call).outcome = .ok (.delete pattern) ↔
          node.Substitutes (bytes source) pattern "" := by
  refine ⟨(ofCall_failsIff (haligned.of_within hnode) hcall).ends, ?_, ?_⟩
  · intro pattern replacement
    rw [ofCall_eq_iff_plainCall hcall (by simp)]
    simp only [ofArguments_eq_tr_iff, Node.Substitutes]
    constructor
    · rintro ⟨receiver, name, first, second, hname, hplain, hpattern, hone, hstring, hone'⟩
      exact ⟨⟨receiver, name, first, second, hname, hplain, hpattern, hone, hstring⟩, hone'⟩
    · rintro ⟨⟨receiver, name, first, second, hname, hplain, hpattern, hone, hstring⟩, hone'⟩
      exact ⟨receiver, name, first, second, hname, hplain, hpattern, hone, hstring, hone'⟩
  · intro pattern
    rw [ofCall_eq_iff_plainCall hcall (by simp)]
    simp only [ofArguments_eq_delete_iff, Node.Substitutes]

end

/-! ## A call with a constructor -/

/-- A substitution whose pattern is built by a constructor from an escaped dot. -/
def constructorSource : String := "s.gsub(Regexp.new('\\.'), '_')"

def constructorMethod : Node := .leaf "identifier" 2 6 true (some "method")

/-- The tree of `constructorSource`. -/
def constructorCall : Node :=
  ⟨0, "call", 0, 29, true, false, false, none,
    [.leaf "identifier" 0 1 true (some "receiver"), .leaf "." 1 2 false (some "operator"),
      constructorMethod,
      ⟨0, "argument_list", 6, 29, true, false, false, some "arguments",
        [.leaf "(" 6 7 false none,
          ⟨0, "call", 7, 23, true, false, false, none,
            [.leaf "constant" 7 13 true (some "receiver"),
              .leaf "." 13 14 false (some "operator"),
              .leaf "identifier" 14 17 true (some "method"),
              ⟨0, "argument_list", 17, 23, true, false, false, some "arguments",
                [.leaf "(" 17 18 false none, .leaf "string" 18 22 true none,
                  .leaf ")" 22 23 false none]⟩]⟩,
          .leaf "," 23 24 false none, .leaf "string" 25 28 true none,
          .leaf ")" 28 29 false none]⟩]⟩

/-- The view of `constructorCall`. -/
def constructorSite : CallSite := constructorCall.callView constructorMethod (some ".") "gsub"

theorem callSite?_constructorCall :
    constructorCall.callSite? (bytes constructorSource) = .ok (some constructorSite) :=
  Node.callSite?_eq_some_iff.mpr
    ⟨rfl, constructorMethod, some ".", "gsub", rfl, ⟨".", by decide +kernel, rfl⟩,
      by decide +kernel, rfl⟩

theorem Shortcut.ofCall_accepts_constructor :
    constructorCall.Aligned constructorSource ∧
      constructorCall.Substitutes (bytes constructorSource) "." "_" := by
  have haligned : constructorCall.Aligned constructorSource := by decide +kernel
  have hexact := Shortcut.ofCall_accepts_exactly haligned (.refl _) callSite?_constructorCall
  exact ⟨haligned, ((hexact.2.1 "." "_").mp (by decide +kernel)).1⟩

end RubyLint
