import RubyLint.Proofs.EditSplice
import RubyLint.Proofs.GrammaticalTree
import RubyLint.Proofs.ShortcutMeaning
import RubyLint.Rule.CharacterReplacement
import Mathlib.Tactic

/-!
# The edits of the rule on replacing single characters

An edit covers a call from the name of its method to its end.  In a tree that follows the grammar
the calls below it that get an edit stand in its receiver, which ends before that name, so the edits
of one source are disjoint.  All of them are applied in one pass.
-/

namespace RubyLint

open Text

namespace Node

/-- `node` is a call that gets an edit, which starts at `start`: it substitutes for a character,
`start` is where the name of its method starts, and no comment stands behind that. -/
structure RewrittenFrom (source : List UInt8) (node : Node) (start : Nat) : Prop where
  substitutes : ∃ pattern replacement, node.Substitutes source pattern replacement
  method : ∃ method, node.child? "method" = some method ∧ method.start = start
  comments : ∀ inner : Node, inner.Within node → inner.kind = "comment" → inner.start < start

variable {source : List UInt8} {tree node : Node} {start : Nat}

theorem RewrittenFrom.isSubstitution (hrewritten : node.RewrittenFrom source start) :
    node.IsSubstitution source := by
  obtain ⟨pattern, replacement, hsubstitutes⟩ := hrewritten.substitutes
  exact hsubstitutes.isSubstitution

/-- The edit starts at the part of the call that names the method. -/
theorem RewrittenFrom.exists_method (hrewritten : node.RewrittenFrom source start) :
    ∃ method ∈ node.parts, method.role = "method" ∧ method.start = start := by
  obtain ⟨method, hmethod, hstart⟩ := hrewritten.method
  have hchild := mem_children_of_child? hmethod
  have hcomment : method.kind ≠ "comment" := by
    intro hcomment
    have hbefore := hrewritten.comments method (within_of_mem_children hchild) hcomment
    omega
  exact ⟨method, mem_parts_iff.mpr ⟨hchild, hcomment⟩,
    role_eq_of_field (field_of_child? hmethod), hstart⟩

theorem RewrittenFrom.span (hrewritten : node.RewrittenFrom source start)
    (hgrammar : node.Grammatical) : node.start ≤ start ∧ start < node.stop := by
  obtain ⟨method, hpart, hrole, rfl⟩ := hrewritten.exists_method
  have hname :=
    hgrammar.method_name node (.refl node) hrewritten.isSubstitution.kind method hpart hrole
  have hinside := (hgrammar.nested node (.refl node)).1 method (mem_parts_iff.mp hpart).1
  omega

/-- A substitution below a call that gets an edit ends before the edit starts. -/
theorem RewrittenFrom.stop_le_of_below (hrewritten : node.RewrittenFrom source start)
    (hgrammar : node.Grammatical) (hlists : node.ProperLists) {inner : Node}
    (hinner : inner.Below node) (hsubstitution : inner.IsSubstitution source) :
    inner.stop ≤ start := by
  obtain ⟨pattern, replacement, hsubstitutes⟩ := hrewritten.substitutes
  obtain ⟨child, hchild, hinner⟩ := hinner
  rcases hgrammar.free_or_receiver_of_substitutes hlists hsubstitutes hchild with
    hfree | ⟨hpart, hrole⟩
  · exact absurd hsubstitution (hfree inner hinner)
  · obtain ⟨method, hmethod, hrole', rfl⟩ := hrewritten.exists_method
    have hbefore := hgrammar.receiver_before_method hrewritten.isSubstitution.kind hpart hmethod
      hrole hrole'
    have hspan := (hgrammar.of_within (within_of_mem_children hchild)).nested.span_within hinner
    omega

/-- The edits of two calls, in document order, are disjoint. -/
theorem Grammatical.pairwise_rewritten (hgrammar : tree.Grammatical)
    (hlists : tree.ProperLists) (source : List UInt8) :
    tree.preorder.Pairwise fun a b => ∀ start start', a.RewrittenFrom source start →
      b.RewrittenFrom source start' → a.stop ≤ start' ∨ b.stop ≤ start := by
  apply hgrammar.nested.pairwise_preorder
  · intro outer inner houter hinner start start' hrewritten hrewritten'
    exact .inr (hrewritten.stop_le_of_below (hgrammar.of_within houter)
      (hlists.of_within houter) hinner hrewritten'.isSubstitution)
  · intro a b _ hb hapart start start' _ hrewritten'
    have hspan := hrewritten'.span (hgrammar.of_within hb)
    exact .inl (by omega)

theorem RewrittenFrom.receiver_stop_le (hrewritten : node.RewrittenFrom source start)
    (hgrammar : node.Grammatical) {receiver : Node}
    (hreceiver : node.child? "receiver" = some receiver) : receiver.stop ≤ start := by
  have hkind := hrewritten.isSubstitution.kind
  have hchild := mem_children_of_child? hreceiver
  obtain ⟨method, hmethod, hrole, rfl⟩ := hrewritten.exists_method
  by_cases hcomment : receiver.kind = "comment"
  · -- a comment with this field still starts before the method, and so ends before it
    have hbefore := hrewritten.comments receiver (within_of_mem_children hchild) hcomment
    have hname := hgrammar.method_name node (.refl node) hkind method hmethod hrole
    obtain ⟨hmethodChild, hmethodKind⟩ := mem_parts_iff.mp hmethod
    have hne : receiver ≠ method := by
      rintro rfl
      exact hmethodKind hcomment
    rcases hgrammar.nested.children_apart hchild hmethodChild hne with hapart | hapart
    · exact hapart
    · omega
  · exact hgrammar.receiver_before_method hkind (mem_parts_iff.mpr ⟨hchild, hcomment⟩) hmethod
      (role_eq_of_field (field_of_child? hreceiver)) hrole

/-- The receiver of a call that substitutes for a character holds an edit as a whole or not at
all. -/
theorem RewrittenFrom.receiver_apart {edited receiver : Node} {pattern replacement : String}
    (hrewritten : edited.RewrittenFrom source start) (hgrammar : tree.Grammatical)
    (hlists : tree.ProperLists) (hedited : edited.Within tree) (hnode : node.Within tree)
    (hsubstitutes : node.Substitutes source pattern replacement)
    (hreceiver : node.child? "receiver" = some receiver) :
    receiver.start ≤ start ∧ edited.stop ≤ receiver.stop ∨ edited.stop ≤ receiver.start ∨
      receiver.stop ≤ start := by
  have hgrammarNode := hgrammar.of_within hnode
  have hgrammarEdited := hgrammar.of_within hedited
  have hchild := mem_children_of_child? hreceiver
  have hspan := hrewritten.span hgrammarEdited
  have hinside := (hgrammarNode.nested node (.refl node)).1 receiver hchild
  rcases hgrammar.nested.within_or_apart hedited hnode with hinner | houter | hapart | hapart
  · rcases within_iff.mp hinner with rfl | ⟨child, hchild', hinner⟩
    · exact .inr (.inr (hrewritten.receiver_stop_le hgrammarNode hreceiver))
    · have hspan' :=
        (hgrammarNode.of_within (within_of_mem_children hchild')).nested.span_within hinner
      by_cases hsame : child = receiver
      · subst hsame
        exact .inl ⟨by omega, by omega⟩
      · rcases hgrammarNode.nested.children_apart hchild' hchild hsame with hapart | hapart
        · exact .inr (.inl (by omega))
        · exact .inr (.inr (by omega))
  · rcases within_iff.mp houter with rfl | hbelow
    · exact .inr (.inr (hrewritten.receiver_stop_le hgrammarNode hreceiver))
    · have hstop := hrewritten.stop_le_of_below hgrammarEdited (hlists.of_within hedited) hbelow
        hsubstitutes.isSubstitution
      exact .inr (.inr (by omega))
  · exact .inr (.inl (by omega))
  · exact .inr (.inr (by omega))

end Node

namespace Rule

theorem mem_tree_of_mem_walk {tree : Node} {place : Place}
    (hplace : place ∈ (Place.ofRoot tree).walk) : place.node.Within tree := by
  have hnode : place.node ∈ (Place.ofRoot tree).walk.map (·.node) := List.mem_map_of_mem hplace
  rwa [Place.map_node_walk, Node.mem_preorder_iff] at hnode

theorem fixes_map_issue (rule : Rule) (context : Context) (findings : List Finding) :
    (findings.map (rule.issue context)).flatMap (·.fixes) = findings.flatMap (·.fixes) := by
  rw [List.flatMap_map]
  rfl

/-- A rule whose issues can be fixed hands on the edits of all its findings. -/
theorem edits_map_issue {rule : Rule} (hfixable : rule.autoFixable = true) (context : Context)
    (findings : List Finding) :
    Issue.edits (findings.map (rule.issue context)) = findings.flatMap (·.fixes) := by
  induction findings with
  | nil => rfl
  | cons finding rest ih =>
      unfold Issue.edits at ih ⊢
      rw [List.map_cons, List.filter_cons, List.flatMap_cons]
      cases hfixes : finding.fixes with
      | nil => simpa [issue, hfixable, hfixes] using ih
      | cons edit more => simpa [issue, hfixable, hfixes] using ih

/-- A place that is not passed over. -/
theorem looked_at {context : Context} {place : Place}
    (hplace : ¬ (!context.syntaxErrors.isEmpty && place.insideError) = true) :
    context.syntaxErrors = [] ∨ place.insideError = false := by
  simp only [Bool.and_eq_true, Bool.not_eq_true', List.isEmpty_eq_false_iff, not_and,
    Bool.not_eq_true] at hplace
  by_cases herrors : context.syntaxErrors = []
  · exact .inl herrors
  · exact .inr (hplace herrors)

end Rule

open Rule

/-! ## What the rule finds -/

section

variable [StackRoom]

/-- The rule looks into the call at `place`, and there is no room for the constructors in it. -/
def Place.Overflows (context : Context) (place : Place) : Prop :=
  place.node.Overflows context.source ∧ (context.syntaxErrors = [] ∨ place.insideError = false)

namespace Rule

/-- How the rule can come to its answer on a place. -/
inductive Examined (context : Context) (place : Place) : Option Finding → Prop
  | noCall (hsite : place.node.callSite? context.source = .ok none) : Examined context place none
  | otherMethod {call : CallSite} (hsite : place.node.callSite? context.source = .ok (some call))
      (hmethod : call.isSubstitution = false) : Examined context place none
  | passedOver {call : CallSite} (hsite : place.node.callSite? context.source = .ok (some call))
      (herrors : context.syntaxErrors ≠ []) (hinside : place.insideError = true) :
      Examined context place none
  | kept {call : CallSite} {reason : String}
      (hsite : place.node.callSite? context.source = .ok (some call))
      (hdecision : (Shortcut.ofCall context.source call).outcome = .ok (.keep reason)) :
      Examined context place none
  | flagged {call : CallSite} {shortcut : Shortcut} {finding : Finding}
      (hsite : place.node.callSite? context.source = .ok (some call))
      (hplace : context.syntaxErrors = [] ∨ place.insideError = false)
      (hkeep : ∀ reason, shortcut ≠ .keep reason)
      (hdecision : (Shortcut.ofCall context.source call).outcome = .ok shortcut)
      (hstart : finding.start = some (call.span.1 : Int))
      (hstop : finding.stop = some (call.span.2 : Int))
      (hfixes : if place.node.hasComment call.span.1 then finding.fixes = []
        else ∃ edit, (Shortcut.edit context.source call shortcut).outcome = .ok edit ∧
          finding.fixes = [edit]) : Examined context place (some finding)

theorem examined_of_replacementFinding? {context : Context} {place : Place}
    {found : Option Finding} (hfound : (replacementFinding? context place).outcome = .ok found) :
    Examined context place found := by
  unfold replacementFinding? at hfound
  obtain ⟨site, hsite, hfound⟩ := Traced.bind_outcome_eq_ok_iff.mp hfound
  rw [Traced.liftText_outcome_eq_ok_iff] at hsite
  cases site with
  | none =>
      cases hfound
      exact .noCall hsite
  | some call =>
      simp only at hfound
      split at hfound
      next hmethod =>
        cases hfound
        exact .otherMethod hsite (by simpa using hmethod)
      next =>
        split at hfound
        next hpassed =>
          cases hfound
          simp only [Bool.and_eq_true, Bool.not_eq_true', List.isEmpty_eq_false_iff] at hpassed
          exact .passedOver hsite hpassed.1 hpassed.2
        next hplace =>
          have hplace' := looked_at hplace
          obtain ⟨shortcut, hdecision, hfound⟩ := Traced.bind_outcome_eq_ok_iff.mp hfound
          split at hfound
          next reason =>
            obtain ⟨_, _, hnone⟩ := Traced.bind_outcome_eq_ok_iff.mp hfound
            cases hnone
            exact .kept hsite hdecision
          next _ hkeep =>
            split at hfound
            next hcomment =>
              obtain ⟨fixes, hfixes, hfound⟩ := Traced.bind_outcome_eq_ok_iff.mp hfound
              obtain ⟨preferred, -, hfound⟩ := Traced.bind_outcome_eq_ok_iff.mp hfound
              cases hfixes
              cases hfound
              exact .flagged hsite hplace' hkeep hdecision rfl rfl (by simp [hcomment])
            next hcomment =>
              obtain ⟨fixes, hfixes, hfound⟩ := Traced.bind_outcome_eq_ok_iff.mp hfound
              obtain ⟨preferred, -, hfound⟩ := Traced.bind_outcome_eq_ok_iff.mp hfound
              obtain ⟨edit, hedit, rfl⟩ := Traced.map_outcome_eq_ok_iff.mp hfixes
              cases hfound
              exact .flagged hsite hplace' hkeep hdecision rfl rfl
                (by simp [hcomment, hedit, List.singleton])

theorem fixes_of_replacementFinding? {context : Context} {place : Place} {finding : Finding}
    (hfinding : (replacementFinding? context place).outcome = .ok (some finding)) :
    finding.fixes = [] ∨ ∃ start text, place.node.RewrittenFrom context.source start ∧
      finding.fixes = [⟨start, place.node.stop, text⟩] := by
  cases examined_of_replacementFinding? hfinding with
  | flagged hsite _ hkeep hdecision _ _ hfixes =>
      split at hfixes
      next => exact .inl hfixes
      next hcomment =>
        obtain ⟨edit, hedit, hfixes⟩ := hfixes
        obtain ⟨-, text, hedit'⟩ := Shortcut.exists_edit hkeep hdecision
        rw [hedit] at hedit'
        cases hedit'
        have hsubstitutes := Shortcut.exists_substitutes hsite hkeep hdecision
        obtain ⟨-, method, operator, name, hmethod, -, -, rfl⟩ :=
          Node.callSite?_eq_some_iff.mp hsite
        rw [Bool.not_eq_true, Node.hasComment_eq_false_iff] at hcomment
        refine .inr ⟨method.start, text, ⟨hsubstitutes, ⟨method, hmethod, rfl⟩, ?_⟩, hfixes⟩
        intro inner hinner hkind
        exact_mod_cast hcomment inner hinner hkind

theorem rewrittenFrom_of_mem_finding {context : Context} {place : Place} {finding : Finding}
    (hfinding : (replacementFinding? context place).outcome = .ok (some finding)) {edit : Edit}
    (hedit : edit ∈ finding.fixes) :
    ∃ start : Nat, place.node.RewrittenFrom context.source start ∧
      edit.start = start ∧ edit.stop = place.node.stop := by
  rcases fixes_of_replacementFinding? hfinding with hnone | ⟨start, text, hrewritten, hfixes⟩
  · simp [hnone] at hedit
  · rw [hfixes, List.mem_singleton] at hedit
    subst hedit
    exact ⟨start, hrewritten, rfl, rfl⟩

theorem exists_callSite_of_overflows {context : Context} {place : Place}
    (hoverflows : place.Overflows context) :
    ∃ call, place.node.callSite? context.source = .ok (some call) ∧
      call.isSubstitution = true := by
  obtain ⟨⟨receiver, name, first, second, hname, hplain, -⟩, -⟩ := hoverflows
  exact hplain.exists_substitution hname

/-- In an aligned tree every place is looked at without fail, unless there is no room for the
constructors in a call. -/
theorem replacementFinding?_failsIff {source : String} {context : Context} {place : Place}
    (hsource : context.source = bytes source) (haligned : place.node.Aligned source) :
    Traced.FailsIff .nestedTooDeep (place.Overflows context)
      (replacementFinding? context place) := by
  obtain ⟨site, hsite⟩ := haligned.exists_callSite?
  rw [← hsource] at hsite
  refine .bind_ok (Traced.liftText_outcome_eq_ok_iff.mpr hsite) ?_
  cases site with
  | none =>
      refine .of_ok rfl fun hoverflows => ?_
      obtain ⟨call, hcall, -⟩ := exists_callSite_of_overflows hoverflows
      simp [hcall] at hsite
  | some call =>
      simp only
      split
      next hmethod =>
        refine .of_ok rfl fun hoverflows => ?_
        obtain ⟨call', hcall, hsubstitution⟩ := exists_callSite_of_overflows hoverflows
        rw [hcall] at hsite
        cases hsite
        simp [hsubstitution] at hmethod
      next =>
        split
        next hpassed =>
          refine .of_ok rfl fun hoverflows => ?_
          simp only [Bool.and_eq_true, Bool.not_eq_true', List.isEmpty_eq_false_iff] at hpassed
          simpa [hpassed.1, hpassed.2] using hoverflows.2
        next hplace =>
          have hcall := Shortcut.ofCall_failsIff haligned (hsource ▸ hsite)
          rw [← hsource] at hcall
          refine (hcall.bind_ends fun shortcut hdecision => ?_).congr
            (and_iff_left (looked_at hplace)).symm
          split
          next => exact ⟨none, rfl⟩
          next _ hkeep =>
            obtain ⟨⟨name, hname⟩, text, hedit⟩ := Shortcut.exists_edit hkeep hdecision
            split
            next =>
              apply Traced.exists_bind_outcome rfl
              exact Traced.exists_bind_outcome hname ⟨_, rfl⟩
            next =>
              apply Traced.exists_bind_outcome (Traced.map_outcome_eq_ok_iff.mpr ⟨_, hedit, rfl⟩)
              exact Traced.exists_bind_outcome hname ⟨_, rfl⟩

/-- The findings are those of the calls of the tree, in document order. -/
theorem replacementFindings_eq_ok_iff {context : Context} {findings : List Finding} :
    (replacementFindings context).outcome = .ok findings ↔
      ∃ found, (Traced.collect (replacementFinding? context)
          ((Place.ofRoot context.tree).walk.filter (·.node.kind == "call"))).outcome =
            .ok found ∧
        found.filterMap (fun finding => finding) = findings := by
  unfold replacementFindings
  rw [Traced.bind_outcome_eq_ok_iff]
  simp only [Traced.outcome_pure, Except.ok.injEq]

theorem replacementFindings_failsIff {source : String} {context : Context}
    (hsource : context.source = bytes source) (haligned : context.tree.Aligned source) :
    Traced.FailsIff .nestedTooDeep
      (∃ place ∈ (Place.ofRoot context.tree).walk, place.Overflows context)
      (replacementFindings context) := by
  have hcalls : Traced.FailsIff .nestedTooDeep
      (∃ place ∈ (Place.ofRoot context.tree).walk.filter (·.node.kind == "call"),
        place.Overflows context)
      (Traced.collect (replacementFinding? context)
        ((Place.ofRoot context.tree).walk.filter (·.node.kind == "call"))) := by
    refine .collect fun place hplace => ?_
    have hwithin := mem_tree_of_mem_walk (List.mem_of_mem_filter hplace)
    exact replacementFinding?_failsIff hsource (haligned.of_within hwithin)
  refine (hcalls.bind_ends fun found _ => ⟨_, rfl⟩).congr ?_
  constructor
  · rintro ⟨place, hplace, hoverflows⟩
    exact ⟨place, List.mem_of_mem_filter hplace, hoverflows⟩
  · rintro ⟨place, hplace, hoverflows⟩
    obtain ⟨call, hcall, -⟩ := exists_callSite_of_overflows hoverflows
    have hkind := (Node.callSite?_eq_some_iff.mp hcall).1
    exact ⟨place, by simp [hplace, hkind], hoverflows⟩

theorem not_overflows_of_shallow (context : Context)
    (hshallow : context.tree.Shallow context.source) :
    ¬ ∃ place ∈ (Place.ofRoot context.tree).walk, place.Overflows context := by
  rintro ⟨place, hplace, hoverflows⟩
  exact hshallow place.node (mem_tree_of_mem_walk hplace) hoverflows.1

/-- An edit of a finding is the edit of a call of the tree. -/
theorem rewrittenFrom_of_mem_fixes {context : Context} {findings : List Finding}
    (hfindings : (replacementFindings context).outcome = .ok findings) {edit : Edit}
    (hedit : edit ∈ findings.flatMap (·.fixes)) :
    ∃ (node : Node) (start : Nat), node.Within context.tree ∧
      node.RewrittenFrom context.source start ∧ edit.start = start ∧ edit.stop = node.stop := by
  obtain ⟨found, hfound, rfl⟩ := replacementFindings_eq_ok_iff.mp hfindings
  obtain ⟨finding, hfinding, hedit⟩ := List.mem_flatMap.mp hedit
  obtain ⟨_, hmem, rfl⟩ := List.mem_filterMap.mp hfinding
  obtain ⟨place, hplace, houtcome⟩ := Traced.exists_of_mem_collect hfound hmem
  have hwithin := mem_tree_of_mem_walk (List.mem_of_mem_filter hplace)
  obtain ⟨start, hspan⟩ := rewrittenFrom_of_mem_finding houtcome hedit
  exact ⟨place.node, start, hwithin, hspan⟩

/-- The edits of all findings are disjoint. -/
theorem pairwise_disjoint_fixes {context : Context} {findings : List Finding}
    (hgrammar : context.tree.Grammatical) (hlists : context.tree.ProperLists)
    (hfindings : (replacementFindings context).outcome = .ok findings) :
    (findings.flatMap (·.fixes)).Pairwise Edit.Disjoint := by
  obtain ⟨found, hfound, rfl⟩ := replacementFindings_eq_ok_iff.mp hfindings
  rw [List.pairwise_flatMap]
  constructor
  · intro finding hfinding
    obtain ⟨_, hmem, rfl⟩ := List.mem_filterMap.mp hfinding
    obtain ⟨place, -, houtcome⟩ := Traced.exists_of_mem_collect hfound hmem
    rcases fixes_of_replacementFinding? houtcome with hnone | ⟨start, text, -, hfixes⟩
    · simp [hnone]
    · simp [hfixes]
  · rw [List.pairwise_filterMap]
    apply Traced.pairwise_of_collect hfound
    have hwalk := hgrammar.pairwise_rewritten hlists context.source
    rw [← Place.map_node_walk, List.pairwise_map] at hwalk
    refine (hwalk.sublist List.filter_sublist).imp ?_
    intro place place' hapart found found' houtcome houtcome' finding hfinding finding' hfinding'
    subst hfinding hfinding'
    intro edit hedit edit' hedit'
    obtain ⟨start, hrewritten, hstart, hstop⟩ := rewrittenFrom_of_mem_finding houtcome hedit
    obtain ⟨start', hrewritten', hstart', hstop'⟩ :=
      rewrittenFrom_of_mem_finding houtcome' hedit'
    have hspans := hapart start start' hrewritten hrewritten'
    unfold Edit.Disjoint
    omega

/-- In an aligned tree an edit covers a part of the source that is not empty. -/
theorem fits_of_mem_fixes {source : String} {context : Context} {findings : List Finding}
    (haligned : context.tree.Aligned source) (hgrammar : context.tree.Grammatical)
    (hfindings : (replacementFindings context).outcome = .ok findings) {edit : Edit}
    (hedit : edit ∈ findings.flatMap (·.fixes)) :
    edit.Fits source ∧ edit.start < edit.stop := by
  obtain ⟨node, start, hnode, hrewritten, hstart, hstop⟩ :=
    rewrittenFrom_of_mem_fixes hfindings hedit
  have hspan := hrewritten.span (hgrammar.of_within hnode)
  obtain ⟨method, hmethod, -, rfl⟩ := hrewritten.exists_method
  have hwithin := (Node.within_of_mem_children (Node.mem_parts_iff.mp hmethod).1).trans hnode
  refine ⟨⟨method.start, node.stop, hstart, hstop, by omega, ?_, ?_⟩, by omega⟩
  · exact (haligned method hwithin).1
  · exact (haligned node hnode).2

/-- Every edit that does not lie in the receiver of a call that substitutes for a character leaves
it on one side. -/
theorem receiver_apart_of_mem_fixes {context : Context} {findings : List Finding}
    (hgrammar : context.tree.Grammatical) (hlists : context.tree.ProperLists)
    (hfindings : (replacementFindings context).outcome = .ok findings) {node receiver : Node}
    {pattern replacement : String} (hnode : node.Within context.tree)
    (hsubstitutes : node.Substitutes context.source pattern replacement)
    (hreceiver : node.child? "receiver" = some receiver) {edit : Edit}
    (hedit : edit ∈ findings.flatMap (·.fixes))
    (houtside : ¬ ((receiver.start : Int) ≤ edit.start ∧ edit.stop ≤ receiver.stop)) :
    edit.stop ≤ receiver.start ∨ receiver.stop ≤ edit.start := by
  obtain ⟨edited, start, hedited, hrewritten, hstart, hstop⟩ :=
    rewrittenFrom_of_mem_fixes hfindings hedit
  have hapart := hrewritten.receiver_apart hgrammar hlists hedited hnode hsubstitutes hreceiver
  omega

/-! ## What is reported -/

theorem characterReplacement_check_eq_ok_iff {context : Context} {issues : List Issue} :
    (characterReplacement.check context).outcome = .ok issues ↔
      ∃ findings, (replacementFindings context).outcome = .ok findings ∧
        findings.map (characterReplacement.issue context) = issues := by
  unfold characterReplacement reporting
  rw [Traced.bind_outcome_eq_ok_iff]
  simp only [Traced.outcome_pure, Except.ok.injEq]
  rfl

theorem characterReplacement_check_failsIff {source : String} (context : Context)
    (hsource : context.source = bytes source) (haligned : context.tree.Aligned source) :
    Traced.FailsIff .nestedTooDeep
      (∃ place ∈ (Place.ofRoot context.tree).walk, place.Overflows context)
      (characterReplacement.check context) :=
  (replacementFindings_failsIff hsource haligned).bind_ends fun _ _ => ⟨_, rfl⟩

theorem edits_of_characterReplacement_check {context : Context} {issues : List Issue}
    (hcheck : (characterReplacement.check context).outcome = .ok issues) :
    Issue.edits issues = issues.flatMap (·.fixes) := by
  obtain ⟨findings, -, rfl⟩ := characterReplacement_check_eq_ok_iff.mp hcheck
  rw [edits_map_issue rfl, fixes_map_issue]

end Rule

/-- In an aligned tree that follows the grammar and is not nested too deep, the rule reports issues
with disjoint edits.  All of them are applied in one pass: none is skipped, and the result is the
source with their spans replaced and all other bytes kept in order.  The receiver of a call that
substitutes for a character is kept as it is unless an edit lies in it. -/
theorem characterReplacement_fixes_at_once {source : String} {tree : Node} (path : Path)
    (errors : List SyntaxError) (haligned : tree.Aligned source) (hgrammar : tree.Grammatical)
    (hlists : tree.ProperLists) (hshallow : tree.Shallow (bytes source)) :
    ∃ issues result ordered,
      (characterReplacement.check ⟨path, bytes source, tree, errors⟩).outcome = .ok issues ∧
      (issues.flatMap (·.fixes)).Pairwise Edit.Disjoint ∧
      applyFixes source issues = ⟨[], .ok result⟩ ∧
      ordered.Perm (issues.flatMap (·.fixes)) ∧
      Spliced 0 ordered (bytes source) (bytes result) ∧
      ∀ (node receiver : Node) (pattern replacement : String), node.Within tree →
        node.Substitutes (bytes source) pattern replacement →
        node.child? "receiver" = some receiver →
        (∀ edit ∈ ordered, ¬ ((receiver.start : Int) ≤ edit.start ∧ edit.stop ≤ receiver.stop)) →
        KeepsSpan ordered (bytes source) (bytes result) receiver.start receiver.stop := by
  obtain ⟨findings, hfindings⟩ : ∃ findings,
      (replacementFindings ⟨path, bytes source, tree, errors⟩).outcome = .ok findings :=
    (replacementFindings_failsIff rfl haligned).ends (not_overflows_of_shallow _ hshallow)
  have hdisjoint := pairwise_disjoint_fixes hgrammar hlists hfindings
  obtain ⟨result, happly, hspliced⟩ := Edit.applyAll_of_disjoint
    (fun edit hedit => (fits_of_mem_fixes haligned hgrammar hfindings hedit).1)
    (fun edit hedit => (fits_of_mem_fixes haligned hgrammar hfindings hedit).2) hdisjoint
  have hordered := Edit.inOrder_perm (findings.flatMap (·.fixes))
  refine ⟨_, result, Edit.inOrder (findings.flatMap (·.fixes)),
    characterReplacement_check_eq_ok_iff.mpr ⟨findings, hfindings, rfl⟩, ?_, ?_, ?_, hspliced, ?_⟩
  · rwa [fixes_map_issue]
  · rwa [applyFixes_eq_applyAll, edits_map_issue rfl]
  · rwa [fixes_map_issue]
  · intro node receiver pattern replacement hnode hsubstitutes hreceiver houtside
    have hchild := Node.mem_children_of_child? hreceiver
    have hspan := ((hgrammar.nested node hnode).1 receiver hchild).2.1
    have hstop := (haligned receiver ((Node.within_of_mem_children hchild).trans hnode)).2
    apply hspliced.keepsSpan hspan hstop.le_length
    intro edit hedit
    exact receiver_apart_of_mem_fixes hgrammar hlists hfindings hnode hsubstitutes hreceiver
      (hordered.mem_iff.mp hedit) (houtside edit hedit)

end

/-! ## A chain of calls -/

/-- A substitution on the result of a substitution. -/
def chainSource : String := "s.gsub('a', 'b').gsub!(/c/, '')"

/-- The tree of `chainSource`. -/
def chainTree : Node :=
  ⟨0, "call", 0, 31, true, false, false, none,
    [⟨0, "call", 0, 16, true, false, false, some "receiver",
        [.leaf "identifier" 0 1 true (some "receiver"), .leaf "." 1 2 false (some "operator"),
          .leaf "identifier" 2 6 true (some "method"),
          ⟨0, "argument_list", 6, 16, true, false, false, some "arguments",
            [.leaf "(" 6 7 false none, .leaf "string" 7 10 true none,
              .leaf "," 10 11 false none, .leaf "string" 12 15 true none,
              .leaf ")" 15 16 false none]⟩]⟩,
      .leaf "." 16 17 false (some "operator"), .leaf "identifier" 17 22 true (some "method"),
      ⟨0, "argument_list", 22, 31, true, false, false, some "arguments",
        [.leaf "(" 22 23 false none, .leaf "regex" 23 26 true none, .leaf "," 26 27 false none,
          .leaf "string" 28 30 true none, .leaf ")" 30 31 false none]⟩]⟩

theorem grammatical_chainTree : chainTree.Grammatical where
  nested := by decide +kernel
  roles := by decide +kernel
  method_name := by decide +kernel
  part_leaf := by decide +kernel
  leaf := by decide +kernel
  interpolated := Node.callsInterpolated_of_no_call (by decide +kernel)

theorem characterReplacement_fixes_chain_at_once :
    chainTree.Aligned chainSource ∧ chainTree.Grammatical ∧ chainTree.ProperLists ∧
      chainTree.Shallow (bytes chainSource) ∧ ∃ issues result,
        (characterReplacement.check
          ⟨⟨"", ["chain.rb"]⟩, bytes chainSource, chainTree, []⟩).outcome = .ok issues ∧
        (issues.flatMap (·.fixes)).Pairwise Edit.Disjoint ∧
        applyFixes chainSource issues = ⟨[], .ok result⟩ := by
  have haligned : chainTree.Aligned chainSource := by decide +kernel
  have hlists : chainTree.ProperLists := by decide +kernel
  have hshallow : chainTree.Shallow (bytes chainSource) := Node.shallow_of_size_le (by decide)
  obtain ⟨issues, result, ordered, hcheck, hdisjoint, happly, -⟩ :=
    characterReplacement_fixes_at_once ⟨"", ["chain.rb"]⟩ [] haligned grammatical_chainTree hlists
      hshallow
  exact ⟨haligned, grammatical_chainTree, hlists, hshallow, issues, result, hcheck, hdisjoint,
    happly⟩

/-! ## A call in the place of an argument list -/

/-- A substitution whose arguments are the parts of a second substitution. -/
def callAsListSource : String := "s.gsub 'x'.gsub%%\\\n\\\n%\\\n\\\n%"

/-- A tree of `callAsListSource` in which the argument list of the call is a call itself. -/
def callAsListTree : Node :=
  ⟨0, "program", 0, 27, true, false, false, none,
    [⟨0, "call", 0, 27, true, false, false, none,
      [.leaf "identifier" 0 1 true (some "receiver"), .leaf "." 1 2 false (some "operator"),
        .leaf "identifier" 2 6 true (some "method"),
        ⟨0, "call", 7, 27, true, false, false, some "arguments",
          [.leaf "string" 7 10 true (some "receiver"), .leaf "." 10 11 false (some "operator"),
            .leaf "gsub" 11 15 false (some "method"),
            ⟨0, "string", 15, 27, true, false, false, some "arguments",
              [.leaf "string" 16 20 true none, .leaf "string" 21 25 true none]⟩]⟩]⟩]⟩

theorem grammatical_callAsListTree : callAsListTree.Grammatical where
  nested := by decide +kernel
  roles := by decide +kernel
  method_name := by decide +kernel
  part_leaf := by decide +kernel
  leaf := by decide +kernel
  interpolated := Node.callsInterpolated_of_no_call (by decide +kernel)

/-- Without proper argument lists the edits of a tree that follows the grammar can overlap, and then
one of them is skipped. -/
theorem characterReplacement_edits_overlap :
    callAsListTree.Aligned callAsListSource ∧ callAsListTree.Grammatical ∧
      ∃ issues,
        (characterReplacement.check
          ⟨⟨"", ["list.rb"]⟩, bytes callAsListSource, callAsListTree, []⟩).outcome = .ok issues ∧
        ¬ (issues.flatMap (·.fixes)).Pairwise Edit.Disjoint ∧
        (applyFixes callAsListSource issues).log ≠ [] := by
  have hfixes : (List.flatMap (·.fixes)) <$> (characterReplacement.check
      ⟨⟨"", ["list.rb"]⟩, bytes callAsListSource, callAsListTree, []⟩).outcome =
        .ok [⟨2, 27, "tr 'x', \"%\""⟩, ⟨11, 27, "tr \"\\n\", \"\\n\""⟩] := by
    decide +kernel
  obtain ⟨issues, hcheck, hfixes⟩ := Outcome.map_eq_ok_iff.mp hfixes
  refine ⟨by decide +kernel, grammatical_callAsListTree, issues, hcheck, ?_, ?_⟩
  · rw [hfixes]
    decide
  · have hordered : Edit.inOrder
        [⟨2, 27, "tr 'x', \"%\""⟩, ⟨11, 27, "tr \"\\n\", \"\\n\""⟩] =
          [⟨2, 27, "tr 'x', \"%\""⟩, ⟨11, 27, "tr \"\\n\", \"\\n\""⟩] :=
      List.mergeSort_of_pairwise (by decide)
    rw [applyFixes_eq_applyAll, edits_of_characterReplacement_check hcheck, hfixes,
      Edit.applyAll, hordered]
    decide +kernel

end RubyLint
