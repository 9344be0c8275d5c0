import RubyLint.Argument.Fact
import RubyLint.Proofs.PlainCall
import Mathlib.Tactic

/-!
# The value of an argument

What a literal argument denotes is said here about the tree and its texts alone: which kind the
node has, that no interpolation stands below it, and what its text splits and decodes to.  A
pattern may also be a constructor around such a literal; the value of a string handed to it is
decoded once more as a regular expression.  The resolver and the facts drawn from it agree with
this reading in both directions.
-/

namespace RubyLint

open Text

/-- The string literal `text` splits into parts that decode to `value`. -/
def ReadsAs (text value : String) : Prop :=
  ∃ parts, splitString text = some parts ∧
    decodeString parts.body parts.quote parts.delimiters = .ok value

namespace Node

/-- No interpolation stands anywhere below `node`. -/
def Literal (node : Node) : Prop :=
  ∀ inner : Node, inner.Below node → inner.kind ≠ "interpolation"

/-- `node` is a string literal whose text reads as `value`. -/
structure StringValue (source : List UInt8) (node : Node) (value : String) : Prop where
  kind : node.kind = "string"
  literal : node.Literal
  reads : ∃ text, node.text source = .ok text ∧ ReadsAs text value

/-- `node` is a regular expression literal without options whose body matches only `value`. -/
structure RegexValue (source : List UInt8) (node : Node) (value : String) : Prop where
  kind : node.kind = "regex"
  literal : node.Literal
  matches_only : ∃ text parts, node.text source = .ok text ∧ splitRegex text = some parts ∧
    parts.flags = [] ∧ decodeRegex parts.pattern = .ok value

/-- As a pattern, `node` matches only `value`. -/
inductive PatternValue (source : List UInt8) (node : Node) (value : String) : Prop
  | string (hstring : node.StringValue source value)
  | regex (hregex : node.RegexValue source value)
  | ofString {argument : Node} {body : String}
      (hconstructor : node.RegexpConstructor source argument)
      (hstring : argument.StringValue source body) (hbody : decodeRegex body = .ok value)
  | ofRegex {argument : Node} (hconstructor : node.RegexpConstructor source argument)
      (hregex : argument.RegexValue source value)

theorem RegexpConstructor.kind {source : List UInt8} {node argument : Node}
    (hconstructor : node.RegexpConstructor source argument) : node.kind = "call" := by
  obtain ⟨receiver, name, hplain, -⟩ := hconstructor
  exact hplain.kind

theorem RegexpConstructor.callArguments {source : List UInt8} {node argument : Node}
    (hconstructor : node.RegexpConstructor source argument) :
    node.callArguments = [argument] := by
  obtain ⟨receiver, name, hplain, -⟩ := hconstructor
  exact hplain.callArguments

theorem RegexpConstructor.argument_within {source : List UInt8} {node argument : Node}
    (hconstructor : node.RegexpConstructor source argument) : argument.Within node :=
  within_of_mem_callArguments (by simp [hconstructor.callArguments])

theorem RegexpConstructor.liftText_isRegexpConstructor {source : List UInt8} {node argument : Node}
    (hconstructor : node.RegexpConstructor source argument) :
    (liftText (node.isRegexpConstructor source)).outcome = .ok true :=
  Traced.liftText_outcome_eq_ok_iff.mpr
    (isRegexpConstructor_eq_true_iff.mpr ⟨argument, hconstructor⟩)

end Node

/-! ## The resolver -/

namespace Argument

variable {source : List UInt8} {node inner : Node} {argument : Argument} {room : Nat}

/-- A constructor is a call with an argument. -/
theorem ofConstructor_of_constructor (hconstructor : node.RegexpConstructor source inner) :
    (ofConstructor source node).outcome = .ok inner := by
  obtain ⟨receiver, name, hplain, -⟩ := hconstructor
  obtain ⟨call, hcall⟩ := hplain.exists_callSite
  obtain ⟨-, -, -, -, -, harguments⟩ := (Node.plainCall_iff_callSite hcall).mp hplain
  refine Traced.bind_outcome_eq_ok_iff.mpr
    ⟨some call, Traced.liftText_outcome_eq_ok_iff.mpr hcall, ?_⟩
  simp only [harguments]
  rfl

/-- How the resolver can come to an argument. -/
inductive Resolved (source : List UInt8) : Nat → Node → Argument → Prop
  | string {room : Nat} {node : Node} {text : String} {argument : Argument}
      (hkind : node.kind = "string") (hliteral : node.Literal)
      (htext : node.text source = .ok text)
      (hargument : (ofStringText text).outcome = .ok argument) : Resolved source room node argument
  | regex {room : Nat} {node : Node} {text : String} (hkind : node.kind = "regex")
      (hliteral : node.Literal) (htext : node.text source = .ok text) :
      Resolved source room node (ofRegexText text)
  | constructor {room : Nat} {node inner : Node} {argument : Argument}
      (hconstructor : node.RegexpConstructor source inner)
      (hinner : (resolveWithin source room inner).outcome = .ok argument) :
      Resolved source (room + 1) node argument.construct
  | dynamic {room : Nat} {node : Node} {reason : String} :
      Resolved source room node (.dynamic reason)

theorem resolved_of_resolveWithin
    (hresolve : (resolveWithin source room node).outcome = .ok argument) :
    Resolved source room node argument := by
  unfold resolveWithin at hresolve
  by_cases hstring : node.kind = "string"
  · rw [if_pos (by simp [hstring])] at hresolve
    split at hresolve
    next => cases hresolve; exact .dynamic
    next hinterpolation =>
      obtain ⟨text, htext, hargument⟩ := Traced.bind_outcome_eq_ok_iff.mp hresolve
      rw [Traced.liftText_outcome_eq_ok_iff] at htext
      have hliteral : node.Literal :=
        Node.hasInterpolation_eq_false_iff.mp (by simpa using hinterpolation)
      exact .string hstring hliteral htext hargument
  · rw [if_neg (by simpa using hstring)] at hresolve
    by_cases hregex : node.kind = "regex"
    · rw [if_pos (by simp [hregex])] at hresolve
      split at hresolve
      next => cases hresolve; exact .dynamic
      next hinterpolation =>
        obtain ⟨text, htext, hargument⟩ := Traced.bind_outcome_eq_ok_iff.mp hresolve
        rw [Traced.liftText_outcome_eq_ok_iff] at htext
        have hliteral : node.Literal :=
          Node.hasInterpolation_eq_false_iff.mp (by simpa using hinterpolation)
        cases hargument
        exact .regex hregex hliteral htext
    · rw [if_neg (by simpa using hregex)] at hresolve
      obtain ⟨constructs, hconstructs, hargument⟩ := Traced.bind_outcome_eq_ok_iff.mp hresolve
      rw [Traced.liftText_outcome_eq_ok_iff] at hconstructs
      cases constructs with
      | false => cases hargument; exact .dynamic
      | true =>
          obtain ⟨inner, hconstructor⟩ := Node.isRegexpConstructor_eq_true_iff.mp hconstructs
          rw [if_pos rfl] at hargument
          cases room with
          | zero => cases hargument
          | succ room =>
              obtain ⟨found, hfound, hargument⟩ := Traced.bind_outcome_eq_ok_iff.mp hargument
              rw [ofConstructor_of_constructor hconstructor] at hfound
              cases hfound
              obtain ⟨found, hfound, hargument⟩ := Traced.bind_outcome_eq_ok_iff.mp hargument
              cases hargument
              exact .constructor hconstructor hfound

theorem ofStringText_of_split {text : String} {parts : StringParts}
    (hsplit : splitString text = some parts) :
    (ofStringText text).outcome = .ok (.string ⟨text, parts.quote, parts.body, parts.delimiters,
      (decodeString parts.body parts.quote parts.delimiters).mapError DecodeError.message⟩) := by
  unfold ofStringText
  simp only [hsplit]
  cases hdecode : decodeString parts.body parts.quote parts.delimiters with
  | error e => rfl
  | ok value => rfl

theorem exists_ofStringText (text : String) :
    ∃ argument, (ofStringText text).outcome = .ok argument := by
  cases hsplit : splitString text with
  | none =>
      unfold ofStringText
      simp only [hsplit]
      exact ⟨_, rfl⟩
  | some parts => exact ⟨_, ofStringText_of_split hsplit⟩

theorem ofStringText_cases {text : String}
    (hargument : (ofStringText text).outcome = .ok argument) :
    (∃ reason, argument = .dynamic reason) ∨
      ∃ parts, splitString text = some parts ∧
        argument = .string ⟨text, parts.quote, parts.body, parts.delimiters,
          (decodeString parts.body parts.quote parts.delimiters).mapError
            DecodeError.message⟩ := by
  cases hsplit : splitString text with
  | none =>
      unfold ofStringText at hargument
      simp only [hsplit] at hargument
      cases hargument
      exact .inl ⟨_, rfl⟩
  | some parts =>
      rw [ofStringText_of_split hsplit] at hargument
      cases hargument
      exact .inr ⟨parts, rfl, rfl⟩

theorem ofRegexText_cases (text : String) :
    (∃ reason, ofRegexText text = .dynamic reason) ∨
      ∃ parts, splitRegex text = some parts ∧
        ofRegexText text = .regex ⟨text, parts.pattern, parts.flags, parts.delimiters⟩ := by
  unfold ofRegexText
  cases splitRegex text with
  | none => exact .inl ⟨_, rfl⟩
  | some parts => exact .inr ⟨parts, rfl, rfl⟩

theorem resolveWithin_of_string (room : Nat) {text : String} (hkind : node.kind = "string")
    (hliteral : node.Literal) (htext : node.text source = .ok text) :
    (resolveWithin source room node).outcome = (ofStringText text).outcome := by
  have hinterpolation : node.hasInterpolation = false :=
    Node.hasInterpolation_eq_false_iff.mpr hliteral
  unfold resolveWithin
  simp [hkind, hinterpolation, liftText, htext, Except.mapError, Except.bind]

theorem resolveWithin_of_regex (room : Nat) {text : String} (hkind : node.kind = "regex")
    (hliteral : node.Literal) (htext : node.text source = .ok text) :
    (resolveWithin source room node).outcome = .ok (ofRegexText text) := by
  have hinterpolation : node.hasInterpolation = false :=
    Node.hasInterpolation_eq_false_iff.mpr hliteral
  unfold resolveWithin
  simp only [hkind, hinterpolation, liftText, htext, Except.mapError]
  rfl

theorem resolveWithin_zero_of_constructor (hconstructor : node.RegexpConstructor source inner) :
    (resolveWithin source 0 node).outcome = .error .nestedTooDeep := by
  rw [resolveWithin, if_neg (by simp [hconstructor.kind]), if_neg (by simp [hconstructor.kind]),
    Traced.outcome_bind_of_ok hconstructor.liftText_isRegexpConstructor]
  rfl

/-- A constructor takes one of the room that there is for them. -/
theorem resolveWithin_succ_of_constructor (hconstructor : node.RegexpConstructor source inner) :
    (resolveWithin source (room + 1) node).outcome =
      construct <$> (resolveWithin source room inner).outcome := by
  rw [resolveWithin, if_neg (by simp [hconstructor.kind]), if_neg (by simp [hconstructor.kind]),
    Traced.outcome_bind_of_ok hconstructor.liftText_isRegexpConstructor, if_pos rfl,
    Traced.outcome_bind_of_ok (ofConstructor_of_constructor hconstructor), Traced.outcome_bind]
  rfl

theorem illFormedText_of_resolveWithin {e : Failure}
    (hother : node.isRegexpConstructor source ≠ .ok true)
    (hresolve : (resolveWithin source room node).outcome = .error e) :
    ∃ ill, e = .illFormedText ill := by
  unfold resolveWithin at hresolve
  split at hresolve
  next =>
    split at hresolve
    next => cases hresolve
    next =>
      rcases Traced.bind_outcome_eq_error_iff.mp hresolve with htext | ⟨text, -, hstring⟩
      · exact Traced.exists_of_liftText_outcome_eq_error htext
      · obtain ⟨argument, hargument⟩ := exists_ofStringText text
        simp [hargument] at hstring
  next =>
    split at hresolve
    next =>
      split at hresolve
      next => cases hresolve
      next =>
        rcases Traced.bind_outcome_eq_error_iff.mp hresolve with htext | ⟨text, -, hregex⟩
        · exact Traced.exists_of_liftText_outcome_eq_error htext
        · cases hregex
    next =>
      rcases Traced.bind_outcome_eq_error_iff.mp hresolve with htext | ⟨found, hfound, hdynamic⟩
      · exact Traced.exists_of_liftText_outcome_eq_error htext
      · rw [Traced.liftText_outcome_eq_ok_iff] at hfound
        cases found with
        | false => cases hdynamic
        | true => exact absurd hfound hother

/-- Only an ill-formed text and too many constructors stop the resolver: it never looks for the
argument of a call that has none. -/
theorem error_of_resolveWithin {e : Failure}
    (hresolve : (resolveWithin source room node).outcome = .error e) :
    e = .nestedTooDeep ∨ ∃ ill, e = .illFormedText ill := by
  induction room generalizing node with
  | zero =>
      by_cases hconstructs : node.isRegexpConstructor source = .ok true
      · obtain ⟨inner, hconstructor⟩ := Node.isRegexpConstructor_eq_true_iff.mp hconstructs
        rw [resolveWithin_zero_of_constructor hconstructor] at hresolve
        cases hresolve
        exact .inl rfl
      · exact .inr (illFormedText_of_resolveWithin hconstructs hresolve)
  | succ room ih =>
      by_cases hconstructs : node.isRegexpConstructor source = .ok true
      · obtain ⟨inner, hconstructor⟩ := Node.isRegexpConstructor_eq_true_iff.mp hconstructs
        rw [resolveWithin_succ_of_constructor hconstructor] at hresolve
        exact ih (Outcome.map_eq_error_iff.mp hresolve)
      · exact .inr (illFormedText_of_resolveWithin hconstructs hresolve)

/-- As a pattern, the argument matches only `value`. -/
def Denotes : Argument → String → Prop
  | .string literal, value => literal.value = .ok value
  | .regex literal, value | .regexOfRegex literal, value =>
    literal.flags = [] ∧ decodeRegex literal.pattern = .ok value
  | .regexOfString literal, value =>
    ∃ body, literal.value = .ok body ∧ decodeRegex body = .ok value
  | .dynamic _, _ => False

end Argument

namespace Node

variable {source : List UInt8} {node : Node} {value : String}

theorem stringValue_iff_resolveWithin (room : Nat) :
    node.StringValue source value ↔ ∃ literal,
      (Argument.resolveWithin source room node).outcome = .ok (.string literal) ∧
        literal.value = .ok value := by
  constructor
  · rintro ⟨hkind, hliteral, text, htext, parts, hsplit, hvalue⟩
    have hresolve := (Argument.resolveWithin_of_string room hkind hliteral htext).trans
      (Argument.ofStringText_of_split hsplit)
    exact ⟨_, hresolve, Outcome.mapError_eq_ok_iff.mpr hvalue⟩
  · rintro ⟨literal, hresolve, hvalue⟩
    generalize hargument : Argument.string literal = argument at hresolve
    cases Argument.resolved_of_resolveWithin hresolve with
    | string hkind hliteral htext hstring =>
        rcases Argument.ofStringText_cases hstring with ⟨_, rfl⟩ | ⟨parts, hsplit, rfl⟩
        · cases hargument
        · cases hargument
          rw [Outcome.mapError_eq_ok_iff] at hvalue
          exact ⟨hkind, hliteral, _, htext, parts, hsplit, hvalue⟩
    | @regex _ _ text _ _ _ =>
        rcases Argument.ofRegexText_cases text with ⟨_, hregex⟩ | ⟨_, _, hregex⟩ <;>
          rw [hregex] at hargument <;> cases hargument
    | @constructor _ _ _ found _ _ => cases found <;> cases hargument
    | dynamic => cases hargument

theorem regexValue_iff_resolveWithin (room : Nat) :
    node.RegexValue source value ↔ ∃ literal,
      (Argument.resolveWithin source room node).outcome = .ok (.regex literal) ∧
        literal.flags = [] ∧ decodeRegex literal.pattern = .ok value := by
  constructor
  · rintro ⟨hkind, hliteral, text, parts, htext, hsplit, hflags, hvalue⟩
    have hresolve := Argument.resolveWithin_of_regex room hkind hliteral htext
    simp only [Argument.ofRegexText, hsplit] at hresolve
    exact ⟨_, hresolve, hflags, hvalue⟩
  · rintro ⟨literal, hresolve, hflags, hvalue⟩
    generalize hargument : Argument.regex literal = argument at hresolve
    cases Argument.resolved_of_resolveWithin hresolve with
    | string _ _ _ hstring =>
        rcases Argument.ofStringText_cases hstring with ⟨_, rfl⟩ | ⟨_, _, rfl⟩ <;>
          cases hargument
    | @regex _ _ text hkind hliteral htext =>
        rcases Argument.ofRegexText_cases text with ⟨_, hregex⟩ | ⟨parts, hsplit, hregex⟩
        · rw [hregex] at hargument
          cases hargument
        · rw [hregex] at hargument
          cases hargument
          exact ⟨hkind, hliteral, text, parts, htext, hsplit, hflags, hvalue⟩
    | @constructor _ _ _ found _ _ => cases found <;> cases hargument
    | dynamic => cases hargument

theorem PatternValue.exists_resolveWithin (room : Nat) (hpattern : node.PatternValue source value) :
    ∃ argument, (Argument.resolveWithin source (room + 1) node).outcome = .ok argument ∧
      argument.Denotes value := by
  cases hpattern with
  | string hstring =>
      obtain ⟨literal, hresolve, hvalue⟩ := (stringValue_iff_resolveWithin _).mp hstring
      exact ⟨_, hresolve, hvalue⟩
  | regex hregex =>
      obtain ⟨literal, hresolve, hvalue⟩ := (regexValue_iff_resolveWithin _).mp hregex
      exact ⟨_, hresolve, hvalue⟩
  | ofString hconstructor hstring hbody =>
      obtain ⟨literal, hresolve, hvalue⟩ := (stringValue_iff_resolveWithin room).mp hstring
      refine ⟨.regexOfString literal, ?_, _, hvalue, hbody⟩
      rw [Argument.resolveWithin_succ_of_constructor hconstructor, hresolve]
      rfl
  | ofRegex hconstructor hregex =>
      obtain ⟨literal, hresolve, hvalue⟩ := (regexValue_iff_resolveWithin room).mp hregex
      refine ⟨.regexOfRegex literal, ?_, hvalue⟩
      rw [Argument.resolveWithin_succ_of_constructor hconstructor, hresolve]
      rfl

theorem patternValue_of_resolveWithin {room : Nat} {argument : Argument}
    (hresolve : (Argument.resolveWithin source room node).outcome = .ok argument)
    (hdenotes : argument.Denotes value) : node.PatternValue source value := by
  cases Argument.resolved_of_resolveWithin hresolve with
  | string _ _ _ hstring =>
      rcases Argument.ofStringText_cases hstring with ⟨_, rfl⟩ | ⟨_, _, rfl⟩
      · exact hdenotes.elim
      · exact .string ((stringValue_iff_resolveWithin _).mpr ⟨_, hresolve, hdenotes⟩)
  | @regex _ _ text _ _ _ =>
      rcases Argument.ofRegexText_cases text with ⟨_, hregex⟩ | ⟨_, _, hregex⟩
      · rw [hregex] at hdenotes
        exact hdenotes.elim
      · rw [hregex] at hresolve hdenotes
        exact .regex ((regexValue_iff_resolveWithin _).mpr ⟨_, hresolve, hdenotes⟩)
  | @constructor _ _ inner found hconstructor hinner =>
      cases found with
      | string literal =>
          obtain ⟨body, hbody, hvalue⟩ := hdenotes
          exact .ofString hconstructor
            ((stringValue_iff_resolveWithin _).mpr ⟨literal, hinner, hbody⟩) hvalue
      | regex literal =>
          exact .ofRegex hconstructor
            ((regexValue_iff_resolveWithin _).mpr ⟨literal, hinner, hdenotes⟩)
      | _ => exact hdenotes.elim
  | dynamic => exact hdenotes.elim

variable [StackRoom]

theorem stringValue_iff_resolve :
    node.StringValue source value ↔ ∃ literal,
      (Argument.resolve source node).outcome = .ok (.string literal) ∧
        literal.value = .ok value :=
  stringValue_iff_resolveWithin _

/-- A pattern has one constructor at most, and there is room for one. -/
theorem patternValue_iff_resolve :
    node.PatternValue source value ↔ ∃ argument,
      (Argument.resolve source node).outcome = .ok argument ∧ argument.Denotes value := by
  obtain ⟨room, hroom⟩ := Nat.exists_eq_add_one.mpr StackRoom.constructors_pos
  unfold Argument.resolve
  rw [hroom]
  constructor
  · exact PatternValue.exists_resolveWithin room
  · rintro ⟨argument, hresolve, hdenotes⟩
    exact patternValue_of_resolveWithin hresolve hdenotes

end Node

/-! ## Facts -/

namespace Fact

theorem ofText_eq_fixed_iff {text : String} {c : Char} :
    ofText text = .fixed c ↔ text = c.toString := by
  unfold ofText
  split
  next hnil => simp [String.ext_iff, hnil]
  next d hone => simp [String.ext_iff, hone]
  next _ hone =>
    constructor
    · intro hfact
      cases hfact
    · rintro rfl
      exact absurd (by simp) (hone c)

theorem ofText_eq_empty_iff {text : String} : ofText text = .empty ↔ text = "" := by
  unfold ofText
  split
  next hnil => simp [String.ext_iff, hnil]
  next d hone => simp [String.ext_iff, hone]
  next hnil _ =>
    constructor
    · intro hfact
      cases hfact
    · rintro rfl
      exact absurd rfl hnil

/-- A fact that says something is the fact about the one text that the argument matches. -/
theorem ofArgument_eq_iff {argument : Argument} {fact : Fact}
    (hfact : ∀ reason, fact ≠ .indeterminate reason) :
    ofArgument argument = fact ↔ ∃ value, argument.Denotes value ∧ ofText value = fact := by
  have hpattern : ∀ pattern, ofPattern pattern = fact ↔
      ∃ value, decodeRegex pattern = .ok value ∧ ofText value = fact := by
    intro pattern
    unfold ofPattern
    cases decodeRegex pattern with
    | error e => simp [Ne.symm (hfact e.message)]
    | ok value => simp
  have hregex : ∀ literal, ofRegex literal = fact ↔
      ∃ value, (literal.flags = [] ∧ decodeRegex literal.pattern = .ok value) ∧
        ofText value = fact := by
    intro literal
    unfold ofRegex
    by_cases hflags : literal.flags = []
    · simp [hflags, hpattern]
    · simp [hflags, Ne.symm (hfact _)]
  cases argument with
  | string literal =>
      simp only [ofArgument, Argument.Denotes]
      cases literal.value with
      | error reason => simp [ofMissingValue, Ne.symm (hfact _)]
      | ok text => simp
  | regex literal => exact hregex literal
  | regexOfRegex literal => exact hregex literal
  | regexOfString literal =>
      simp only [ofArgument, Argument.Denotes]
      cases literal.value with
      | error reason => simp [ofMissingValue, Ne.symm (hfact _)]
      | ok pattern => simp [hpattern]
  | dynamic reason => simp [ofArgument, Argument.Denotes, Ne.symm (hfact reason)]

variable [StackRoom] {source : List UInt8} {node : Node}

theorem ofPatternNode_eq_ok_iff {fact : Fact} :
    (ofPatternNode source node).outcome = .ok fact ↔
      ∃ argument, (Argument.resolve source node).outcome = .ok argument ∧
        ofArgument argument = fact := by
  unfold ofPatternNode
  rw [Traced.bind_outcome_eq_ok_iff]
  apply exists_congr
  intro argument
  apply and_congr_right
  intro _
  cases ofArgument argument <;> simp [Traced.map_outcome_eq_ok_iff]

theorem ofPatternNode_eq_fixed_iff {c : Char} :
    (ofPatternNode source node).outcome = .ok (.fixed c) ↔
      node.PatternValue source c.toString := by
  rw [ofPatternNode_eq_ok_iff, Node.patternValue_iff_resolve]
  simp [ofArgument_eq_iff, ofText_eq_fixed_iff]

theorem ofReplacementNode_eq_iff {fact : Fact} (hfact : ∀ reason, fact ≠ .indeterminate reason) :
    (ofReplacementNode source node).outcome = .ok fact ↔
      ∃ value, node.StringValue source value ∧ ofText value = fact := by
  unfold ofReplacementNode
  rw [Traced.bind_outcome_eq_ok_iff]
  simp only [Node.stringValue_iff_resolve]
  constructor
  · rintro ⟨argument, hresolve, houtcome⟩
    cases argument with
    | string literal =>
        simp only [Traced.outcome_pure, Except.ok.injEq] at houtcome
        obtain ⟨value, hvalue, htext⟩ := (ofArgument_eq_iff hfact).mp houtcome
        exact ⟨value, ⟨literal, hresolve, hvalue⟩, htext⟩
    | _ =>
        simp only [Traced.outcome_pure, Except.ok.injEq] at houtcome
        exact absurd houtcome.symm (hfact _)
  · rintro ⟨value, ⟨literal, hresolve, hvalue⟩, htext⟩
    refine ⟨.string literal, hresolve, ?_⟩
    simp only [Traced.outcome_pure, Except.ok.injEq]
    exact (ofArgument_eq_iff hfact).mpr ⟨value, hvalue, htext⟩

theorem ofReplacementNode_eq_fixed_iff {c : Char} :
    (ofReplacementNode source node).outcome = .ok (.fixed c) ↔
      node.StringValue source c.toString := by
  simp [ofReplacementNode_eq_iff, ofText_eq_fixed_iff]

theorem ofReplacementNode_eq_empty_iff :
    (ofReplacementNode source node).outcome = .ok .empty ↔ node.StringValue source "" := by
  simp [ofReplacementNode_eq_iff, ofText_eq_empty_iff]

end Fact

end RubyLint
