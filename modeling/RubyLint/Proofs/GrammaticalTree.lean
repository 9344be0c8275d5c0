import RubyLint.Proofs.NestedSpans
import RubyLint.Proofs.ShortcutClassification
import Mathlib.Tactic

/-!
# Trees that follow the grammar

The grammar fixes which children a call has and in which order, which nodes are leaves, and that
calls stand in a literal only inside an interpolation.  In such a tree the arguments of a call that
a faster method can stand in for hold no further call of `gsub`: literals without interpolation
hold no call at all, and a constructor of regular expressions holds nothing but such a literal.  So
whatever else is found in the call is found in its receiver.
-/

namespace RubyLint.Node

/-- The children that are not comments. -/
def parts (node : Node) : List Node :=
  node.children.filter (·.kind ≠ "comment")

/-- What a part of a call is for; the operator may stand there without a field. -/
def role (part : Node) : String :=
  part.field.getD "operator"

/-- What the parts of a call are for, in their order. -/
def callRoles : List String := ["receiver", "operator", "method", "arguments", "block"]

/-- Calls stand in a string or regular expression only inside an interpolation. -/
def CallsInterpolated (tree : Node) : Prop :=
  ∀ node : Node, node.Within tree → node.kind = "string" ∨ node.kind = "regex" →
    ∀ inner : Node, inner.Below node → inner.kind = "call" →
      ∃ between : Node, between.Below node ∧ between.kind = "interpolation" ∧ inner.Below between

/-- The spans are nested, a call has at most one part of each role in their order, the method has a
name, operators, methods, comments, constants and punctuation have no children, and calls in
literals are interpolated. -/
structure Grammatical (tree : Node) : Prop where
  nested : tree.Nested
  roles : ∀ node : Node, node.Within tree → node.kind = "call" →
    (node.parts.map role).Sublist callRoles
  method_name : ∀ node : Node, node.Within tree → node.kind = "call" →
    ∀ part ∈ node.parts, part.role = "method" → part.start < part.stop
  part_leaf : ∀ node : Node, node.Within tree → node.kind = "call" →
    ∀ part ∈ node.parts, part.role = "operator" ∨ part.role = "method" → part.children = []
  leaf : ∀ node : Node, node.Within tree →
    node.kind = "comment" ∨ node.kind = "constant" ∨ node.named = false → node.children = []
  interpolated : tree.CallsInterpolated

/-- What fills the field for the arguments of a call is no call itself. -/
def ProperLists (tree : Node) : Prop :=
  ∀ node : Node, node.Within tree → node.kind = "call" →
    ∀ part ∈ node.parts, part.role = "arguments" → part.kind ≠ "call"

variable {tree node : Node}

theorem callsInterpolated_of_no_call
    (hnone : ∀ node : Node, node.Within tree → node.kind = "string" ∨ node.kind = "regex" →
      ∀ inner : Node, inner.Below node → inner.kind ≠ "call") : tree.CallsInterpolated := by
  intro node hnode hkind inner hinner hcall
  exact absurd hcall (hnone node hnode hkind inner hinner)

theorem mem_parts_iff {part : Node} :
    part ∈ node.parts ↔ part ∈ node.children ∧ part.kind ≠ "comment" := by
  simp [parts]

theorem role_eq_of_field {part : Node} {field : String} (hfield : part.field = some field) :
    part.role = field := by
  simp [role, hfield]

theorem field_eq_of_role {part : Node} {field : String} (hrole : part.role = field)
    (hfield : field ≠ "operator") : part.field = some field := by
  unfold role at hrole
  cases hpart : part.field with
  | none => exact absurd (by simpa [hpart] using hrole.symm) hfield
  | some found => simpa [hpart] using hrole

theorem field_of_child? {part : Node} {field : String} (hpart : node.child? field = some part) :
    part.field = some field := by
  simpa using List.find?_some hpart

theorem Grammatical.of_within (hgrammar : tree.Grammatical) (hnode : node.Within tree) :
    node.Grammatical where
  nested := hgrammar.nested.of_within hnode
  roles inner hinner := hgrammar.roles inner (hinner.trans hnode)
  method_name inner hinner := hgrammar.method_name inner (hinner.trans hnode)
  part_leaf inner hinner := hgrammar.part_leaf inner (hinner.trans hnode)
  leaf inner hinner := hgrammar.leaf inner (hinner.trans hnode)
  interpolated inner hinner := hgrammar.interpolated inner (hinner.trans hnode)

theorem ProperLists.of_within (hlists : tree.ProperLists) (hnode : node.Within tree) :
    node.ProperLists :=
  fun inner hinner => hlists inner (hinner.trans hnode)

instance (tree : Node) : Decidable tree.ProperLists :=
  inferInstanceAs (Decidable (∀ node : Node, node.Within tree → _))

/-! ## The parts of a call -/

theorem Grammatical.role_mem (hgrammar : node.Grammatical) (hkind : node.kind = "call")
    {part : Node} (hpart : part ∈ node.parts) : part.role ∈ callRoles :=
  (hgrammar.roles node (.refl node) hkind).subset (List.mem_map_of_mem hpart)

/-- A call has one part of a role. -/
theorem Grammatical.part_unique (hgrammar : node.Grammatical) (hkind : node.kind = "call")
    {a b : Node} (ha : a ∈ node.parts) (hb : b ∈ node.parts) (hrole : a.role = b.role) :
    a = b := by
  have hnodup : (node.parts.map role).Nodup :=
    (hgrammar.roles node (.refl node) hkind).nodup (by decide)
  exact List.inj_on_of_nodup_map hnodup ha hb hrole

/-- The receiver of a call ends before the name of the method. -/
theorem Grammatical.receiver_before_method (hgrammar : node.Grammatical)
    (hkind : node.kind = "call") {receiver method : Node} (hreceiver : receiver ∈ node.parts)
    (hmethod : method ∈ node.parts) (hrole : receiver.role = "receiver")
    (hrole' : method.role = "method") : receiver.stop ≤ method.start := by
  have hroles : node.parts.Pairwise fun a b =>
      callRoles.idxOf a.role < callRoles.idxOf b.role := by
    have hordered : callRoles.Pairwise fun a b => callRoles.idxOf a < callRoles.idxOf b := by
      decide
    have hmapped := hordered.sublist (hgrammar.roles node (.refl node) hkind)
    rwa [List.pairwise_map] at hmapped
  have hspans : node.parts.Pairwise fun a b => a.stop ≤ b.start :=
    (hgrammar.nested node (.refl node)).2.sublist List.filter_sublist
  have hne : receiver ≠ method := by
    rintro rfl
    simp [hrole] at hrole'
  rcases related_of_pairwise (hroles.and hspans) hreceiver hmethod hne with
    ⟨-, hbefore⟩ | ⟨hafter, -⟩
  · exact hbefore
  · rw [hrole, hrole'] at hafter
    exact absurd hafter (by decide)

/-! ## Where no substitution stands -/

/-- `node` is a plain call of `gsub` or `gsub!`. -/
def IsSubstitution (source : List UInt8) (node : Node) : Prop :=
  ∃ receiver name arguments, (name = "gsub" ∨ name = "gsub!") ∧
    node.PlainCall source receiver name arguments

/-- No plain call of `gsub` or `gsub!` stands in the tree. -/
def Free (source : List UInt8) (tree : Node) : Prop :=
  ∀ node : Node, node.Within tree → ¬ node.IsSubstitution source

variable {source : List UInt8}

theorem Substitutes.isSubstitution {pattern replacement : String}
    (hsubstitutes : node.Substitutes source pattern replacement) :
    node.IsSubstitution source := by
  obtain ⟨receiver, name, first, second, hname, hplain, -⟩ := hsubstitutes
  exact ⟨receiver, name, _, hname, hplain⟩

theorem IsSubstitution.kind (hsubstitution : node.IsSubstitution source) :
    node.kind = "call" := by
  obtain ⟨_, _, _, -, hplain⟩ := hsubstitution
  exact hplain.kind

theorem free_of_children (hnode : ¬ node.IsSubstitution source)
    (hchildren : ∀ child ∈ node.children, child.Free source) : node.Free source := by
  intro inner hinner
  rcases within_iff.mp hinner with rfl | ⟨child, hchild, hinner⟩
  · exact hnode
  · exact hchildren child hchild inner hinner

theorem free_of_leaf (hleaf : node.children = []) : node.Free source := by
  apply free_of_children
  · rintro ⟨_, _, _, -, hplain⟩
    obtain ⟨method, hmethod, -⟩ := hplain.method
    have hchild := mem_children_of_child? hmethod
    simp [hleaf] at hchild
  · simp [hleaf]

theorem Grammatical.free_of_literal (hgrammar : node.Grammatical)
    (hkind : node.kind = "string" ∨ node.kind = "regex") (hliteral : node.Literal) :
    node.Free source := by
  intro inner hinner hsubstitution
  rcases within_iff.mp hinner with rfl | hbelow
  · rw [hsubstitution.kind] at hkind
    exact absurd hkind (by decide)
  · obtain ⟨between, hbetween, hinterpolation, -⟩ :=
      hgrammar.interpolated node (.refl node) hkind inner hbelow hsubstitution.kind
    exact hliteral between hbetween hinterpolation

/-- If the arguments of a plain call are free of substitutions, so is the list they stand in. -/
theorem Grammatical.free_of_arguments (hgrammar : node.Grammatical) (hlists : node.ProperLists)
    {receiver : Node} {name : String} {arguments : List Node}
    (hplain : node.PlainCall source receiver name arguments) (hsome : arguments ≠ [])
    (hfree : ∀ argument ∈ arguments, argument.Free source) {list : Node}
    (hlist : list ∈ node.parts) (hrole : list.role = "arguments") : list.Free source := by
  have hwithin : list.Within node := within_of_mem_children (mem_parts_iff.mp hlist).1
  have harguments := hplain.arguments
  unfold argumentNodes at harguments
  cases hfound : node.child? "arguments" with
  | none => simp [hfound, hsome.symm] at harguments
  | some found =>
      simp only [hfound] at harguments
      -- the field may also be on a comment, but a comment has no children
      have hcomment : found.kind ≠ "comment" := by
        intro hcomment
        have hchild := mem_children_of_child? hfound
        have hleaf := hgrammar.leaf found (within_of_mem_children hchild) (.inl hcomment)
        simp [hleaf, hsome.symm] at harguments
      have hsame : found = list :=
        hgrammar.part_unique hplain.kind
          (mem_parts_iff.mpr ⟨mem_children_of_child? hfound, hcomment⟩) hlist
          ((role_eq_of_field (field_of_child? hfound)).trans hrole.symm)
      subst hsame
      apply free_of_children
      · intro hsubstitution
        exact hlists node (.refl node) hplain.kind found hlist hrole hsubstitution.kind
      · intro child hchild
        have hbelow : child.Within node := (within_of_mem_children hchild).trans hwithin
        by_cases hleaf : child.kind = "comment" ∨ child.named = false
        · exact free_of_leaf (hgrammar.leaf child hbelow (by tauto))
        · apply hfree
          rw [← harguments]
          simpa [hchild, and_comm] using hleaf

/-- A substitution in a plain call with free arguments stands in the receiver. -/
theorem Grammatical.free_or_receiver (hgrammar : node.Grammatical) (hlists : node.ProperLists)
    {receiver : Node} {name : String} {arguments : List Node}
    (hplain : node.PlainCall source receiver name arguments) (hsome : arguments ≠ [])
    (hfree : ∀ argument ∈ arguments, argument.Free source) {child : Node}
    (hchild : child ∈ node.children) :
    child.Free source ∨ child ∈ node.parts ∧ child.role = "receiver" := by
  by_cases hcomment : child.kind = "comment"
  · exact .inl (free_of_leaf
      (hgrammar.leaf child (within_of_mem_children hchild) (.inl hcomment)))
  · have hpart : child ∈ node.parts := mem_parts_iff.mpr ⟨hchild, hcomment⟩
    have hleaf := hgrammar.part_leaf node (.refl node) hplain.kind child hpart
    have hrole := hgrammar.role_mem hplain.kind hpart
    simp only [callRoles, List.mem_cons, List.not_mem_nil, or_false] at hrole
    rcases hrole with hrole | hrole | hrole | hrole | hrole
    · exact .inr ⟨hpart, hrole⟩
    · exact .inl (free_of_leaf (hleaf (.inl hrole)))
    · exact .inl (free_of_leaf (hleaf (.inr hrole)))
    · exact .inl (hgrammar.free_of_arguments hlists hplain hsome hfree hpart hrole)
    · exact absurd (field_eq_of_role hrole (by decide)) (hplain.noBlock child hchild).1

theorem Grammatical.free_of_constructor (hgrammar : node.Grammatical)
    (hlists : node.ProperLists) {argument : Node}
    (hconstructor : node.RegexpConstructor source argument) (hargument : argument.Free source) :
    node.Free source := by
  obtain ⟨receiver, name, hplain, hconstant, -, hname⟩ := hconstructor
  apply free_of_children
  · rintro ⟨_, name', _, hname', hplain'⟩
    rw [hplain.name_unique hplain'] at hname
    rcases hname' with rfl | rfl <;> exact absurd hname (by decide)
  · intro child hchild
    rcases hgrammar.free_or_receiver hlists hplain (by simp) (by simpa using hargument) hchild with
      hfree | ⟨hpart, hrole⟩
    · exact hfree
    · have hreceiver := mem_children_of_child? hplain.receiver
      have hsame : receiver = child :=
        hgrammar.part_unique hplain.kind
          (mem_parts_iff.mpr ⟨hreceiver, by simp [hconstant]⟩) hpart
          ((role_eq_of_field (field_of_child? hplain.receiver)).trans hrole.symm)
      subst hsame
      exact free_of_leaf
        (hgrammar.leaf receiver (within_of_mem_children hreceiver) (.inr (.inl hconstant)))

theorem Grammatical.free_of_stringValue (hgrammar : node.Grammatical) {value : String}
    (hstring : node.StringValue source value) : node.Free source :=
  hgrammar.free_of_literal (.inl hstring.kind) hstring.literal

theorem Grammatical.free_of_regexValue (hgrammar : node.Grammatical) {value : String}
    (hregex : node.RegexValue source value) : node.Free source :=
  hgrammar.free_of_literal (.inr hregex.kind) hregex.literal

theorem Grammatical.free_of_patternValue (hgrammar : node.Grammatical)
    (hlists : node.ProperLists) {value : String} (hpattern : node.PatternValue source value) :
    node.Free source := by
  cases hpattern with
  | string hstring => exact hgrammar.free_of_stringValue hstring
  | regex hregex => exact hgrammar.free_of_regexValue hregex
  | ofString hconstructor hstring hbody =>
      have hargument := hgrammar.of_within hconstructor.argument_within
      exact hgrammar.free_of_constructor hlists hconstructor
        (hargument.free_of_stringValue hstring)
  | ofRegex hconstructor hregex =>
      have hargument := hgrammar.of_within hconstructor.argument_within
      exact hgrammar.free_of_constructor hlists hconstructor
        (hargument.free_of_regexValue hregex)

/-- A substitution that stands in a call with a character for a pattern stands in its receiver. -/
theorem Grammatical.free_or_receiver_of_substitutes (hgrammar : node.Grammatical)
    (hlists : node.ProperLists) {pattern replacement : String}
    (hsubstitutes : node.Substitutes source pattern replacement) {child : Node}
    (hchild : child ∈ node.children) :
    child.Free source ∨ child ∈ node.parts ∧ child.role = "receiver" := by
  obtain ⟨receiver, name, first, second, -, hplain, hpattern, -, hstring⟩ := hsubstitutes
  have hwithin : ∀ argument ∈ [first, second], argument.Within node := by
    intro argument hargument
    rw [← hplain.callArguments] at hargument
    exact within_of_mem_callArguments hargument
  refine hgrammar.free_or_receiver hlists hplain (by simp) ?_ hchild
  simp only [List.mem_cons, List.not_mem_nil, or_false, forall_eq_or_imp, forall_eq]
  have hfirst := hwithin first (by simp)
  have hsecond := hwithin second (by simp)
  exact ⟨(hgrammar.of_within hfirst).free_of_patternValue (hlists.of_within hfirst) hpattern,
    (hgrammar.of_within hsecond).free_of_stringValue hstring⟩

end RubyLint.Node
