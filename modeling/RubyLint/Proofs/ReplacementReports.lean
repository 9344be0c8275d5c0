import RubyLint.Proofs.ReplacementEdits
import RubyLint.Registry
import RubyLint.Engine
import Mathlib.Tactic

/-!
# What is reported

The rule reports the calls that replace one character by at most one, unless they stand in a syntax
error, and it reports nothing else.  Whether a report brings an edit along depends on comments
alone.  The rule looks for comments below the call only, but a comment of the whole file that
touches the span of the edit stands below the call: comments have nothing below them, so a comment
elsewhere lies apart from the call.

An engine that runs the rule on an aligned tree comes to an end and reports these calls.
-/

namespace RubyLint

open Text

/-! ## Calls that are reported -/

/-- `node` is a call that puts at most one character in the place of another one. -/
def Node.Replaceable (source : List UInt8) (node : Node) : Prop :=
  ∃ pattern replacement, node.Substitutes source pattern replacement ∧ replacement.length ≤ 1

/-- The rule reports what stands at `place`. -/
def Place.Flagged (context : Context) (place : Place) : Prop :=
  place.node.Replaceable context.source ∧
    (context.syntaxErrors = [] ∨ place.insideError = false)

theorem Node.Replaceable.exists_callSite
    {source : List UInt8} {node : Node} (hnode : node.Replaceable source) :
    ∃ call, node.callSite? source = .ok (some call) ∧ call.isSubstitution = true := by
  obtain ⟨_, _, ⟨receiver, name, first, second, hname, hplain, -⟩, -⟩ := hnode
  exact hplain.exists_substitution hname

section

variable [StackRoom]

theorem Shortcut.replaceable_of_ofCall
    {source : List UInt8} {node : Node} {call : CallSite} {shortcut : Shortcut}
    (hcall : node.callSite? source = .ok (some call))
    (hkeep : ∀ reason, shortcut ≠ .keep reason)
    (hdecision : (ofCall source call).outcome = .ok shortcut) : node.Replaceable source := by
  obtain ⟨receiver, name, first, second, hname, hplain, harguments⟩ :=
    (ofCall_eq_iff_plainCall hcall hkeep).mp hdecision
  cases shortcut with
  | tr pattern replacement =>
      obtain ⟨hpattern, hone, hstring, hone'⟩ := ofArguments_eq_tr_iff.mp harguments
      exact ⟨pattern, replacement,
        ⟨receiver, name, first, second, hname, hplain, hpattern, hone, hstring⟩, hone'.le⟩
  | delete pattern =>
      obtain ⟨hpattern, hone, hstring⟩ := ofArguments_eq_delete_iff.mp harguments
      exact ⟨pattern, "",
        ⟨receiver, name, first, second, hname, hplain, hpattern, hone, hstring⟩, by simp⟩
  | keep reason => exact absurd rfl (hkeep reason)

theorem Shortcut.exists_ofCall_of_replaceable
    {source : List UInt8} {node : Node} {call : CallSite}
    (hcall : node.callSite? source = .ok (some call)) (hnode : node.Replaceable source) :
    ∃ shortcut, (∀ reason, shortcut ≠ .keep reason) ∧
      (ofCall source call).outcome = .ok shortcut := by
  obtain ⟨pattern, replacement,
    ⟨receiver, name, first, second, hname, hplain, hpattern, hone, hstring⟩, hshort⟩ := hnode
  by_cases hempty : replacement = ""
  · subst hempty
    have hdecision : (ofArguments source first second).outcome = .ok (.delete pattern) :=
      ofArguments_eq_delete_iff.mpr ⟨hpattern, hone, hstring⟩
    exact ⟨.delete pattern, by simp, (ofCall_eq_iff_plainCall hcall (by simp)).mpr
      ⟨receiver, name, first, second, hname, hplain, hdecision⟩⟩
  · have hone' : replacement.length = 1 := by
      have hpos : replacement.length ≠ 0 := by simpa using hempty
      omega
    have hdecision : (ofArguments source first second).outcome = .ok (.tr pattern replacement) :=
      ofArguments_eq_tr_iff.mpr ⟨hpattern, hone, hstring, hone'⟩
    exact ⟨.tr pattern replacement, by simp, (ofCall_eq_iff_plainCall hcall (by simp)).mpr
      ⟨receiver, name, first, second, hname, hplain, hdecision⟩⟩

namespace Rule

/-- The rule has something to say about the flagged places and about no other. -/
theorem isSome_replacementFinding?_iff
    {context : Context} {place : Place} {found : Option Finding}
    (hfound : (replacementFinding? context place).outcome = .ok found) :
    found.isSome = true ↔ place.Flagged context := by
  have hexamined := examined_of_replacementFinding? hfound
  constructor
  · intro hsome
    cases hexamined with
    | flagged hsite hplace hkeep hdecision _ _ _ =>
        exact ⟨Shortcut.replaceable_of_ofCall hsite hkeep hdecision, hplace⟩
    | _ => simp at hsome
  · rintro ⟨hnode, hplace⟩
    obtain ⟨call, hcall, hsubstitution⟩ := hnode.exists_callSite
    cases hexamined with
    | noCall hsite => simp [hcall] at hsite
    | otherMethod hsite hmethod =>
        rw [hcall] at hsite
        cases hsite
        simp [hsubstitution] at hmethod
    | passedOver _ herrors hinside => simp [herrors, hinside] at hplace
    | kept hsite hdecision =>
        obtain ⟨shortcut, hkeep, hdecision'⟩ := Shortcut.exists_ofCall_of_replaceable hsite hnode
        rw [hdecision] at hdecision'
        cases hdecision'
        exact absurd rfl (hkeep _)
    | flagged _ _ _ _ _ _ _ => rfl

/-- The rule has looked at every call of the tree, and reports what it has to say about it. -/
theorem exists_found_of_check
    {context : Context} {issues : List Issue} {place : Place}
    (hcheck : (characterReplacement.check context).outcome = .ok issues)
    (hplace : place ∈ (Place.ofRoot context.tree).walk) (hkind : place.node.kind = "call") :
    ∃ found, (replacementFinding? context place).outcome = .ok found ∧
      ∀ finding ∈ found, characterReplacement.issue context finding ∈ issues := by
  obtain ⟨findings, hfindings, rfl⟩ := characterReplacement_check_eq_ok_iff.mp hcheck
  obtain ⟨values, hvalues, rfl⟩ := replacementFindings_eq_ok_iff.mp hfindings
  have hwalk : place ∈ (Place.ofRoot context.tree).walk.filter (·.node.kind == "call") := by
    simp [hplace, hkind]
  have hmem : (replacementFinding? context place).outcome ∈ values.map .ok := by
    rw [← Traced.map_outcome_of_collect hvalues]
    exact List.mem_map_of_mem hwalk
  obtain ⟨found, hfound, houtcome⟩ := List.mem_map.mp hmem
  refine ⟨found, houtcome.symm, ?_⟩
  intro finding hfinding
  exact List.mem_map_of_mem (List.mem_filterMap.mpr ⟨found, hfound, hfinding⟩)

theorem mem_check_iff
    {context : Context} {issues : List Issue} {issue : Issue}
    (hcheck : (characterReplacement.check context).outcome = .ok issues) :
    issue ∈ issues ↔ ∃ place ∈ (Place.ofRoot context.tree).walk, ∃ finding,
      (replacementFinding? context place).outcome = .ok (some finding) ∧
        characterReplacement.issue context finding = issue := by
  constructor
  · intro hissue
    obtain ⟨findings, hfindings, rfl⟩ := characterReplacement_check_eq_ok_iff.mp hcheck
    obtain ⟨values, hvalues, rfl⟩ := replacementFindings_eq_ok_iff.mp hfindings
    obtain ⟨finding, hfinding, rfl⟩ := List.mem_map.mp hissue
    obtain ⟨_, hmem, rfl⟩ := List.mem_filterMap.mp hfinding
    obtain ⟨place, hplace, houtcome⟩ := Traced.exists_of_mem_collect hvalues hmem
    exact ⟨place, List.mem_of_mem_filter hplace, finding, houtcome, rfl⟩
  · rintro ⟨place, hplace, finding, houtcome, rfl⟩
    have hkind : place.node.kind = "call" := by
      cases examined_of_replacementFinding? houtcome with
      | flagged hsite _ _ _ _ _ _ => exact (Node.callSite?_eq_some_iff.mp hsite).1
    obtain ⟨found, hfound, hissues⟩ := exists_found_of_check hcheck hplace hkind
    rw [houtcome] at hfound
    cases hfound
    exact hissues finding rfl

/-- `finding` covers the call `node` from the name of its `method` on, and brings an edit of this
span along unless a comment stands there. -/
structure Covers (finding : Finding) (node method : Node) : Prop where
  kind : node.kind = "call"
  child : node.child? "method" = some method
  start : finding.start = some (method.start : Int)
  stop : finding.stop = some (node.stop : Int)
  fixes_eq_nil_iff : finding.fixes = [] ↔ node.hasComment method.start = true
  edit_span : ∀ edit ∈ finding.fixes, edit.start = method.start ∧ edit.stop = node.stop

theorem exists_covers
    {context : Context} {place : Place} {finding : Finding}
    (hfinding : (replacementFinding? context place).outcome = .ok (some finding)) :
    ∃ method, Covers finding place.node method := by
  cases examined_of_replacementFinding? hfinding with
  | flagged hsite _ hkeep hdecision hstart hstop hfixes =>
      obtain ⟨-, text, hedit⟩ := Shortcut.exists_edit hkeep hdecision
      obtain ⟨hkind, method, operator, name, hmethod, -, -, rfl⟩ :=
        Node.callSite?_eq_some_iff.mp hsite
      refine ⟨method, hkind, hmethod, hstart, hstop, ?_, ?_⟩
      · split at hfixes
        next hcomment => exact ⟨fun _ => hcomment, fun _ => hfixes⟩
        next hcomment =>
          obtain ⟨edit, -, hfixes⟩ := hfixes
          rw [hfixes]
          exact ⟨fun hnil => absurd hnil (by simp), fun hsome => absurd hsome hcomment⟩
      · intro edit hmem
        split at hfixes
        next => simp [hfixes] at hmem
        next =>
          obtain ⟨only, honly, hfixes⟩ := hfixes
          rw [hfixes, List.mem_singleton] at hmem
          subst hmem
          rw [hedit] at honly
          cases honly
          exact ⟨rfl, rfl⟩

theorem Covers.issue_start
    {finding : Finding} {node method : Node} (hcovers : Covers finding node method)
    (context : Context) : (characterReplacement.issue context finding).start = method.start := by
  simp [issue, hcovers.start]

theorem Covers.issue_stop
    {finding : Finding} {node method : Node} (hcovers : Covers finding node method)
    (context : Context) : (characterReplacement.issue context finding).stop = node.stop := by
  simp [issue, hcovers.stop]

theorem exists_finding_of_flagged
    {context : Context} {issues : List Issue} {place : Place}
    (hcheck : (characterReplacement.check context).outcome = .ok issues)
    (hplace : place ∈ (Place.ofRoot context.tree).walk) (hflagged : place.Flagged context) :
    ∃ finding, (replacementFinding? context place).outcome = .ok (some finding) := by
  obtain ⟨call, hcall, -⟩ := hflagged.1.exists_callSite
  have hkind := (Node.callSite?_eq_some_iff.mp hcall).1
  obtain ⟨found, hfound, -⟩ := exists_found_of_check hcheck hplace hkind
  have hsome := (isSome_replacementFinding?_iff hfound).mpr hflagged
  obtain ⟨finding, rfl⟩ := Option.isSome_iff_exists.mp hsome
  exact ⟨finding, hfound⟩

/-- The spans of the issues are those of the flagged calls. -/
theorem exists_issue_iff
    {context : Context} {issues : List Issue} {start stop : Int}
    (hcheck : (characterReplacement.check context).outcome = .ok issues) :
    (∃ issue ∈ issues, issue.start = start ∧ issue.stop = stop) ↔
      ∃ place ∈ (Place.ofRoot context.tree).walk, place.Flagged context ∧
        ∃ method, place.node.child? "method" = some method ∧
          (method.start : Int) = start ∧ (place.node.stop : Int) = stop := by
  constructor
  · rintro ⟨issue, hissue, rfl, rfl⟩
    obtain ⟨place, hplace, finding, hfinding, rfl⟩ := (mem_check_iff hcheck).mp hissue
    obtain ⟨method, hcovers⟩ := exists_covers hfinding
    exact ⟨place, hplace, (isSome_replacementFinding?_iff hfinding).mp rfl, method, hcovers.child,
      (hcovers.issue_start context).symm, (hcovers.issue_stop context).symm⟩
  · rintro ⟨place, hplace, hflagged, method, hmethod, rfl, rfl⟩
    obtain ⟨finding, hfinding⟩ := exists_finding_of_flagged hcheck hplace hflagged
    obtain ⟨method', hcovers⟩ := exists_covers hfinding
    have hsame : method' = method := by
      have hchild := hcovers.child
      rw [hmethod] at hchild
      cases hchild
      rfl
    subst hsame
    exact ⟨_, (mem_check_iff hcheck).mpr ⟨place, hplace, finding, hfinding, rfl⟩,
      hcovers.issue_start context, hcovers.issue_stop context⟩

end Rule

end

/-! ## Comments -/

namespace Node

/-- Comments are not empty and have nothing below them. -/
def PlainComments (tree : Node) : Prop :=
  ∀ node : Node, node.Within tree → node.kind = "comment" →
    node.children = [] ∧ node.start < node.stop

instance (tree : Node) : Decidable tree.PlainComments :=
  inferInstanceAs (Decidable (∀ node : Node, node.Within tree → _))

variable {tree node comment method : Node}

/-- A comment stands below a call or lies apart from it. -/
theorem PlainComments.below_or_apart
    (hplain : tree.PlainComments) (hnested : tree.Nested) (hnode : node.Within tree)
    (hkind : node.kind = "call") (hcomment : comment.Within tree)
    (hcommentKind : comment.kind = "comment") :
    comment.Below node ∨ comment.stop ≤ node.start ∨ node.stop ≤ comment.start := by
  have hne : node ≠ comment := by
    rintro rfl
    simp [hkind] at hcommentKind
  rcases hnested.within_or_apart hcomment hnode with hwithin | hwithin | hapart
  · rcases within_iff.mp hwithin with rfl | hbelow
    · exact absurd rfl hne
    · exact .inl hbelow
  · rcases within_iff.mp hwithin with rfl | ⟨child, hchild, -⟩
    · exact absurd rfl hne
    · simp [(hplain comment hcomment hcommentKind).1] at hchild
  · exact .inr hapart

/-- What stands in a call and starts before the name of the method ends before it, too. -/
theorem Nested.stop_le_of_start_lt
    (hnested : node.Nested) (hmethod : method ∈ node.children) (hcomment : comment.Below node)
    (hstart : comment.start < method.start) : comment.stop ≤ method.start := by
  obtain ⟨child, hchild, hwithin⟩ := hcomment
  have hspan := (hnested.of_within (within_of_mem_children hchild)).span_within hwithin
  by_cases hsame : child = method
  · subst hsame
    omega
  · rcases hnested.children_apart hchild hmethod hsame with happart | happart
    · omega
    · have hinside := (hnested node (.refl node)).1 method hmethod
      omega

/-- A comment that the rule sees starts in the span of the edit, and the other way round. -/
theorem PlainComments.hasComment_iff
    (hplain : tree.PlainComments) (hnested : tree.Nested) (hnode : node.Within tree)
    (hkind : node.kind = "call") (hmethod : method ∈ node.children) :
    node.hasComment method.start = true ↔
      ∃ comment : Node, comment.Within tree ∧ comment.kind = "comment" ∧
        method.start ≤ comment.start ∧ comment.start < node.stop := by
  have hseen : node.hasComment method.start = true ↔
      ∃ comment : Node, comment.Within node ∧ comment.kind = "comment" ∧
        method.start ≤ comment.start := by
    simp [hasComment]
  rw [hseen]
  constructor
  · rintro ⟨comment, hwithin, hcommentKind, hstart⟩
    have hcomment := hwithin.trans hnode
    have hspan := (hnested.of_within hnode).span_within hwithin
    have hsome := (hplain comment hcomment hcommentKind).2
    exact ⟨comment, hcomment, hcommentKind, hstart, by omega⟩
  · rintro ⟨comment, hcomment, hcommentKind, hstart, hstop⟩
    rcases hplain.below_or_apart hnested hnode hkind hcomment hcommentKind with
      hbelow | hapart | hapart
    · exact ⟨comment, hbelow.within, hcommentKind, hstart⟩
    · -- the name of the method stands in the call, so the comment would start behind its own end
      have hinside := (hnested node hnode).1 method hmethod
      have hsome := (hplain comment hcomment hcommentKind).2
      omega
    · omega

/-- Without such a comment no comment of the tree touches the span of the edit. -/
theorem PlainComments.apart_of_hasComment_eq_false
    (hplain : tree.PlainComments) (hnested : tree.Nested) (hnode : node.Within tree)
    (hkind : node.kind = "call") (hmethod : method ∈ node.children)
    (hnone : node.hasComment method.start = false) (hcomment : comment.Within tree)
    (hcommentKind : comment.kind = "comment") :
    comment.stop ≤ method.start ∨ node.stop ≤ comment.start := by
  rcases hplain.below_or_apart hnested hnode hkind hcomment hcommentKind with
    hbelow | hapart | hapart
  · have hstart := hasComment_eq_false_iff.mp hnone comment hbelow.within hcommentKind
    exact .inl ((hnested.of_within hnode).stop_le_of_start_lt hmethod hbelow (by omega))
  · have hinside := (hnested node hnode).1 method hmethod
    exact .inl (by omega)
  · exact .inr hapart

end Node

open Rule

/-- In a tree with nested spans and plain comments, an issue covers a call from the name of its
method to its end.  If it brings an edit along, the edit has this span and no comment of the tree
touches it.  It brings none, and cannot be fixed, exactly if a comment starts in the span.  All the
same every flagged call is reported. -/
theorem characterReplacement_spares_comments [StackRoom]
    {context : Context} {issues : List Issue} (hnested : context.tree.Nested)
    (hcomments : context.tree.PlainComments)
    (hcheck : (characterReplacement.check context).outcome = .ok issues) :
    (∀ issue ∈ issues, ∃ call method : Node,
      call.Within context.tree ∧ call.kind = "call" ∧ call.child? "method" = some method ∧
      issue.start = method.start ∧ issue.stop = call.stop ∧
      (∀ edit ∈ issue.fixes, edit.start = method.start ∧ edit.stop = call.stop ∧
        ∀ comment : Node, comment.Within context.tree → comment.kind = "comment" →
          (comment.stop : Int) ≤ edit.start ∨ edit.stop ≤ comment.start) ∧
      (issue.fixes = [] ↔ ∃ comment : Node, comment.Within context.tree ∧
        comment.kind = "comment" ∧ method.start ≤ comment.start ∧ comment.start < call.stop) ∧
      (issue.autoFixable = false ↔ issue.fixes = [])) ∧
    ∀ place ∈ (Place.ofRoot context.tree).walk, place.Flagged context →
      ∃ issue ∈ issues, ∃ method, place.node.child? "method" = some method ∧
        issue.start = method.start ∧ issue.stop = place.node.stop := by
  constructor
  · intro issue hissue
    obtain ⟨place, hplace, finding, hfinding, rfl⟩ := (mem_check_iff hcheck).mp hissue
    obtain ⟨method, hcovers⟩ := exists_covers hfinding
    have hnode := mem_tree_of_mem_walk hplace
    have hchild := Node.mem_children_of_child? hcovers.child
    refine ⟨place.node, method, hnode, hcovers.kind, hcovers.child, hcovers.issue_start context,
      hcovers.issue_stop context, ?_, ?_, ?_⟩
    · intro edit hedit
      have hspan := hcovers.edit_span edit hedit
      have hnone : place.node.hasComment method.start = false := by
        rw [Bool.eq_false_iff, Ne, ← hcovers.fixes_eq_nil_iff]
        exact List.ne_nil_of_mem hedit
      refine ⟨hspan.1, hspan.2, ?_⟩
      intro comment hcomment hkind
      have hapart := hcomments.apart_of_hasComment_eq_false hnested hnode hcovers.kind hchild
        hnone hcomment hkind
      omega
    · exact hcovers.fixes_eq_nil_iff.trans
        (hcomments.hasComment_iff hnested hnode hcovers.kind hchild)
    · simp [Rule.issue, characterReplacement, reporting]
  · intro place hplace hflagged
    obtain ⟨finding, hfinding⟩ := exists_finding_of_flagged hcheck hplace hflagged
    obtain ⟨method, hcovers⟩ := exists_covers hfinding
    exact ⟨_, (mem_check_iff hcheck).mpr ⟨place, hplace, finding, hfinding, rfl⟩, method,
      hcovers.child, hcovers.issue_start context, hcovers.issue_stop context⟩

/-- Two substitutions, one of them with a comment between its arguments. -/
def commentedSource : String := "# top\ns.gsub('a', 'b')\nt.gsub('c', # note\n  'd')\n"

/-- The tree of `commentedSource`. -/
def commentedTree : Node :=
  ⟨0, "program", 0, 49, true, false, false, none,
    [.leaf "comment" 0 5 true none,
      ⟨0, "call", 6, 22, true, false, false, none,
        [.leaf "identifier" 6 7 true (some "receiver"), .leaf "." 7 8 false (some "operator"),
          .leaf "identifier" 8 12 true (some "method"),
          ⟨0, "argument_list", 12, 22, true, false, false, some "arguments",
            [.leaf "(" 12 13 false none, .leaf "string" 13 16 true none,
              .leaf "," 16 17 false none, .leaf "string" 18 21 true none,
              .leaf ")" 21 22 false none]⟩]⟩,
      ⟨0, "call", 23, 48, true, false, false, none,
        [.leaf "identifier" 23 24 true (some "receiver"),
          .leaf "." 24 25 false (some "operator"), .leaf "identifier" 25 29 true (some "method"),
          ⟨0, "argument_list", 29, 48, true, false, false, some "arguments",
            [.leaf "(" 29 30 false none, .leaf "string" 30 33 true none,
              .leaf "," 33 34 false none, .leaf "comment" 35 41 true none,
              .leaf "string" 44 47 true none, .leaf ")" 47 48 false none]⟩]⟩]⟩

theorem characterReplacement_spares_comments_of_commentedTree :
    commentedTree.Nested ∧ commentedTree.PlainComments ∧
      ∃ issues, (characterReplacement.check
          ⟨⟨"", ["note.rb"]⟩, bytes commentedSource, commentedTree, []⟩).outcome = .ok issues ∧
        issues.map (·.fixes.length) = [1, 0] ∧
        ∀ issue ∈ issues, ∀ edit ∈ issue.fixes, ∀ comment : Node,
          comment.Within commentedTree → comment.kind = "comment" →
            (comment.stop : Int) ≤ edit.start ∨ edit.stop ≤ comment.start := by
  have hnested : commentedTree.Nested := by decide +kernel
  have hcomments : commentedTree.PlainComments := by decide +kernel
  have hlengths : (List.map (·.fixes.length)) <$> (characterReplacement.check
      ⟨⟨"", ["note.rb"]⟩, bytes commentedSource, commentedTree, []⟩).outcome = .ok [1, 0] := by
    decide +kernel
  obtain ⟨issues, hcheck, hlengths⟩ := Outcome.map_eq_ok_iff.mp hlengths
  refine ⟨hnested, hcomments, issues, hcheck, hlengths, ?_⟩
  intro issue hissue edit hedit
  obtain ⟨_, _, -, -, -, -, -, hedits, -⟩ :=
    (characterReplacement_spares_comments hnested hcomments hcheck).1 issue hissue
  exact (hedits edit hedit).2.2

/-! ## The engine -/

namespace Engine

variable {engine : Engine} {rules : List Rule} {path : Path} {source : String}
  {issues : List Issue}

/-- What the rules see of a source. -/
def context (engine : Engine) (path : Path) (source : String) : Context :=
  ⟨path, bytes source, engine.parse source,
    SyntaxError.ofTree (bytes source) (engine.parse source)⟩

theorem parseSource_outcome (engine : Engine) (path : Path) (source : String) :
    (engine.parseSource path source).outcome = .ok (engine.context path source) := by
  unfold parseSource
  simp only
  split <;> rfl

/-- Reporting the syntax errors leaves the outcome of an analysis to the rules. -/
theorem analyze_outcome (engine : Engine) (rules : List Rule) (path : Path) (source : String) :
    (engine.analyze rules path source).outcome =
      (runRules engine.overrides rules (engine.context path source)).outcome := by
  obtain ⟨written, hwritten⟩ : ∃ written, (Traced.collect (fun e : SyntaxError =>
      (Traced.write .warning .engine (toString path ++ ": " ++ e.message) : Traced Failure Unit))
        (engine.context path source).syntaxErrors).outcome = .ok written :=
    Traced.exists_collect_outcome fun e _ => ⟨(), rfl⟩
  unfold analyze
  rw [Traced.outcome_bind, parseSource_outcome]
  simp only [Except.bind, Traced.outcome_bind]
  rw [hwritten]

theorem runRules_eq_ok_iff
    {overrides : SeverityOverrides} {context : Context} :
    (runRules overrides rules context).outcome = .ok issues ↔
      ∃ found, List.Forall₂ (fun rule reported => ∃ own,
          (rule.check context).outcome = .ok own ∧ overrides.apply rule own = reported)
            rules found ∧
        found.flatten.mergeSort Issue.precedes = issues := by
  unfold runRules
  rw [Traced.bind_outcome_eq_ok_iff]
  simp only [Traced.collect_outcome_eq_ok_iff, Traced.bind_outcome_eq_ok_iff, Traced.outcome_pure,
    Except.ok.injEq]

theorem analyze_builtin_eq_ok_iff [StackRoom] :
    (engine.analyze Registry.builtin.rules path source).outcome = .ok issues ↔
      ∃ own, (characterReplacement.check (engine.context path source)).outcome = .ok own ∧
        (engine.overrides.apply .characterReplacement own).mergeSort Issue.precedes = issues := by
  rw [analyze_outcome, runRules_eq_ok_iff]
  simp only [Registry.builtin, List.forall₂_cons_left_iff, List.forall₂_nil_left_iff]
  constructor
  · rintro ⟨_, ⟨reported, _, ⟨own, hown, rfl⟩, rfl, rfl⟩, rfl⟩
    exact ⟨own, hown, by simp⟩
  · rintro ⟨own, hown, rfl⟩
    exact ⟨_, ⟨_, [], ⟨own, hown, rfl⟩, rfl, rfl⟩, by simp⟩

end Engine

/-- Overriding a severity changes nothing else about the issues. -/
theorem SeverityOverrides.mem_apply_iff
    {overrides : SeverityOverrides} {rule : Rule} {issues : List Issue} {issue : Issue} :
    issue ∈ overrides.apply rule issues ↔ ∃ found ∈ issues,
      { found with severity := (overrides.for? rule).getD found.severity } = issue := by
  unfold SeverityOverrides.apply
  cases overrides.for? rule with
  | none => simp
  | some severity => simp

namespace Engine

theorem analyze_builtin_failsIff [StackRoom] (engine : Engine) (path : Path) {source : String}
    (haligned : (engine.parse source).Aligned source) :
    Traced.FailsIff .nestedTooDeep
      (∃ place ∈ (Place.ofRoot (engine.parse source)).walk,
        place.Overflows (engine.context path source))
      (engine.analyze Registry.builtin.rules path source) := by
  refine Traced.FailsIff.of_outcome_eq ?_ (engine.analyze_outcome _ path source)
  have hrules : ∀ rule ∈ Registry.builtin.rules, Traced.FailsIff .nestedTooDeep
      (∃ place ∈ (Place.ofRoot (engine.parse source)).walk,
        place.Overflows (engine.context path source))
      (rule.check (engine.context path source)) := by
    intro rule hrule
    rw [List.mem_singleton.mp hrule]
    exact characterReplacement_check_failsIff (engine.context path source) rfl haligned
  refine ((Traced.FailsIff.collect fun rule hrule =>
    (hrules rule hrule).bind_ends fun _ _ => ⟨_, rfl⟩).bind_ends fun _ _ => ⟨_, rfl⟩).congr ?_
  simp [Registry.builtin]

end Engine

/-- Where the spans of the tree lie between characters, whatever the nodes are, only one thing stops
the built-in rules: a call that is looked into and has no room for the constructors in it.
Otherwise they come to an end, and report the flagged calls and no others. -/
theorem Engine.analyze_reports_flagged_calls [StackRoom]
    (engine : Engine) (path : Path) (source : String)
    (haligned : (engine.parse source).Aligned source) :
    ((∃ place ∈ (Place.ofRoot (engine.parse source)).walk,
        place.Overflows (engine.context path source)) →
      (engine.analyze Registry.builtin.rules path source).outcome = .error .nestedTooDeep) ∧
    ((¬ ∃ place ∈ (Place.ofRoot (engine.parse source)).walk,
        place.Overflows (engine.context path source)) →
      ∃ issues, (engine.analyze Registry.builtin.rules path source).outcome = .ok issues ∧
        ∀ start stop : Int, (∃ issue ∈ issues, issue.start = start ∧ issue.stop = stop) ↔
          ∃ place ∈ (Place.ofRoot (engine.parse source)).walk,
            place.Flagged (engine.context path source) ∧
              ∃ method, place.node.child? "method" = some method ∧
                (method.start : Int) = start ∧ (place.node.stop : Int) = stop) := by
  have hends := engine.analyze_builtin_failsIff path haligned
  refine ⟨hends.fails, fun hroom => ?_⟩
  obtain ⟨issues, hissues⟩ := hends.ends hroom
  obtain ⟨own, hcheck, rfl⟩ := analyze_builtin_eq_ok_iff.mp hissues
  refine ⟨_, hissues, ?_⟩
  intro start stop
  refine Iff.trans ?_ (exists_issue_iff hcheck)
  simp only [List.mem_mergeSort, SeverityOverrides.mem_apply_iff]
  constructor
  · rintro ⟨_, ⟨found, hfound, rfl⟩, hspan⟩
    exact ⟨found, hfound, hspan⟩
  · rintro ⟨found, hfound, hspan⟩
    exact ⟨_, ⟨found, hfound, rfl⟩, hspan⟩

theorem Engine.analyze_reports_flagged_calls_of_commentedTree :
    commentedTree.Aligned commentedSource ∧
      ∃ issues, (Engine.analyze ⟨fun _ => commentedTree, [("P001", .info)]⟩ Registry.builtin.rules
        ⟨"", ["note.rb"]⟩ commentedSource).outcome = .ok issues := by
  have haligned : commentedTree.Aligned commentedSource := by decide +kernel
  have hshallow : commentedTree.Shallow (bytes commentedSource) :=
    Node.shallow_of_size_le (by decide)
  let engine : Engine := ⟨fun _ => commentedTree, [("P001", .info)]⟩
  have hroom := not_overflows_of_shallow (engine.context ⟨"", ["note.rb"]⟩ commentedSource) hshallow
  obtain ⟨issues, hissues, -⟩ := (Engine.analyze_reports_flagged_calls engine ⟨"", ["note.rb"]⟩
    commentedSource haligned).2 hroom
  exact ⟨haligned, issues, hissues⟩

/-! ## Constructors in one another -/

/-- A substitution that the trees below give many constructors. -/
def nestedSource : String := "s.gsub(Regexp.new, 'b')"

/-- `count` constructors in one another, around an empty string. -/
def nestedConstructors : (count : Nat) → Node
  | 0 => .leaf "string" 17 17 true none
  | count + 1 =>
    ⟨0, "call", 7, 17, true, false, false, none,
      [.leaf "constant" 7 13 true (some "receiver"), .leaf "." 13 14 false none,
        .leaf "identifier" 14 17 true (some "method"),
        ⟨0, "argument_list", 17, 17, true, false, false, some "arguments",
          [nestedConstructors count]⟩]⟩

/-- A tree of the call `nestedSource` in which the pattern has `count` constructors. -/
def nestedCall (count : Nat) : Node :=
  ⟨0, "call", 0, 23, true, false, false, none,
    [.leaf "identifier" 0 1 true (some "receiver"), .leaf "." 1 2 false (some "operator"),
      .leaf "identifier" 2 6 true (some "method"),
      ⟨0, "argument_list", 6, 23, true, false, false, some "arguments",
        [nestedConstructors count, .leaf "string" 19 22 true none]⟩]⟩

def nestedTree (count : Nat) : Node :=
  ⟨0, "program", 0, 23, true, false, false, none, [nestedCall count]⟩

theorem kind_nestedConstructors (count : Nat) :
    (nestedConstructors count).kind = "string" ∨ (nestedConstructors count).kind = "call" := by
  cases count with
  | zero => exact .inl rfl
  | succ count => exact .inr rfl

theorem argumentNodes_nestedConstructors (count : Nat) :
    (nestedConstructors (count + 1)).argumentNodes = [nestedConstructors count] := by
  cases count <;> rfl

theorem nestedConstructors_regexpConstructor (count : Nat) :
    (nestedConstructors (count + 1)).RegexpConstructor (bytes nestedSource)
      (nestedConstructors count) := by
  have hkind := kind_nestedConstructors count
  refine ⟨.leaf "constant" 7 13 true (some "receiver"), "new", ?_, rfl, by decide +kernel,
    .inl rfl⟩
  exact {
    kind := rfl
    method := ⟨_, rfl, by decide +kernel⟩
    receiver := rfl
    operator := ⟨_, rfl, by decide +kernel⟩
    noBlock := by simp [nestedConstructors, Node.leaf]
    noBlockPass := by
      rw [argumentNodes_nestedConstructors]
      rcases hkind with hkind | hkind <;> simp [hkind]
    arguments := by
      rw [argumentNodes_nestedConstructors]
      rcases hkind with hkind | hkind <;> simp [hkind] }

theorem nests_nestedConstructors (count : Nat) :
    (nestedConstructors count).Nests (bytes nestedSource) count := by
  induction count with
  | zero => trivial
  | succ count ih => exact ⟨_, nestedConstructors_regexpConstructor count, ih⟩

theorem boundaries_nestedSource (start stop : Fin 24) :
    Boundary nestedSource start ∧ Boundary nestedSource stop := by
  revert start stop
  decide +kernel

theorem aligned_nestedConstructors (count : Nat) :
    (nestedConstructors count).Aligned nestedSource := by
  induction count with
  | zero => decide +kernel
  | succ count ih =>
      have hlist : Node.Aligned nestedSource ⟨0, "argument_list", 17, 17, true, false, false,
          some "arguments", [nestedConstructors count]⟩ :=
        .of_children (boundaries_nestedSource 17 17) (by simpa using ih)
      refine .of_children (boundaries_nestedSource 7 17) ?_
      simp only [nestedConstructors, List.forall_mem_cons]
      exact ⟨by decide +kernel, by decide +kernel, by decide +kernel, hlist, by simp⟩

theorem aligned_nestedTree (count : Nat) : (nestedTree count).Aligned nestedSource := by
  have hlist : Node.Aligned nestedSource ⟨0, "argument_list", 6, 23, true, false, false,
      some "arguments", [nestedConstructors count, .leaf "string" 19 22 true none]⟩ := by
    refine .of_children (boundaries_nestedSource 6 23) ?_
    simp only [List.forall_mem_cons]
    exact ⟨aligned_nestedConstructors count, by decide +kernel, by simp⟩
  have hcall : (nestedCall count).Aligned nestedSource := by
    refine .of_children (boundaries_nestedSource 0 23) ?_
    simp only [nestedCall, List.forall_mem_cons]
    exact ⟨by decide +kernel, by decide +kernel, by decide +kernel, hlist, by simp⟩
  exact .of_children (boundaries_nestedSource 0 23) (by simpa [nestedTree] using hcall)

theorem plainCall_nestedCall (count : Nat) :
    (nestedCall count).PlainCall (bytes nestedSource)
      (.leaf "identifier" 0 1 true (some "receiver")) "gsub"
      [nestedConstructors count, .leaf "string" 19 22 true none] := by
  have hkind := kind_nestedConstructors count
  have harguments : (nestedCall count).argumentNodes =
      [nestedConstructors count, .leaf "string" 19 22 true none] := by
    cases count <;> rfl
  exact {
    kind := rfl
    method := ⟨_, rfl, by decide +kernel⟩
    receiver := rfl
    operator := ⟨_, rfl, by decide +kernel⟩
    noBlock := by simp [nestedCall, Node.leaf]
    noBlockPass := by
      rw [harguments]
      rcases hkind with hkind | hkind <;> simp [hkind, Node.leaf]
    arguments := by
      rw [harguments]
      rcases hkind with hkind | hkind <;> simp [hkind, Node.leaf] }

/-- Five hundred constructors in one another stop the analysis. -/
theorem Engine.analyze_stops_at_nestedTree :
    (nestedTree 500).Aligned nestedSource ∧
      (Engine.analyze ⟨fun _ => nestedTree 500, []⟩ Registry.builtin.rules ⟨"", ["deep.rb"]⟩
        nestedSource).outcome = .error .nestedTooDeep := by
  refine ⟨aligned_nestedTree 500, ?_⟩
  apply (analyze_builtin_failsIff _ _ (aligned_nestedTree 500)).fails
  refine ⟨⟨nestedCall 500, [nestedTree 500]⟩, ?_, ?_, .inr rfl⟩
  · rw [Place.walk, Place.walkStack]
    refine List.mem_cons_of_mem _ ?_
    show _ ∈ Place.walkStack [⟨nestedCall 500, [nestedTree 500]⟩]
    rw [Place.walkStack]
    exact List.mem_cons_self
  · refine ⟨_, _, _, _, .inl rfl, plainCall_nestedCall 500, .inl ?_⟩
    exact (nests_nestedConstructors 500).of_le (by decide)

end RubyLint
