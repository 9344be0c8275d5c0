import RubyLint.Proofs.ReplacementReports
import RubyLint.Proofs.StableSort
import Mathlib.Data.Prod.Lex
import Mathlib.Data.String.Basic
import Mathlib.Tactic

/-!
# The order of the rules

The issues of a source are sorted by line, column and rule, and the sort is stable.  Two issues of
different rules never tie, because each carries the identifier of its rule, so what ties comes from
one rule and stands in the order in which that rule has found it.  Hence the order in which the
rules are run leaves no trace in the result.
-/

namespace RubyLint

open Text

/-- What issues are sorted by. -/
def Issue.key (issue : Issue) : ℤ ×ₗ ℤ ×ₗ String :=
  toLex (issue.line, toLex (issue.column, issue.ruleId))

/-- The issue with another severity, if one is given. -/
def Issue.rated (severity : Option Severity) (issue : Issue) : Issue :=
  { issue with severity := severity.getD issue.severity }

theorem Issue.precedes_iff (a b : Issue) : a.precedes b = true ↔ a.key ≤ b.key := by
  simp [precedes, key, Prod.Lex.toLex_le_toLex]

theorem Issue.key_eq_iff
    {issue : Issue} {line column : ℤ} {id : String} :
    issue.key = toLex (line, toLex (column, id)) ↔
      issue.line = line ∧ issue.column = column ∧ issue.ruleId = id := by
  simp [key]

theorem SeverityOverrides.apply_eq_map
    (overrides : SeverityOverrides) (rule : Rule) (issues : List Issue) :
    overrides.apply rule issues = issues.map (Issue.rated (overrides.for? rule)) := by
  unfold apply
  cases overrides.for? rule with
  | none => exact (List.map_id issues).symm
  | some severity => rfl

namespace Rule

/-- All that the rule finds carries the identifier of the rule. -/
def SignsFindings (context : Context) (rule : Rule) : Prop :=
  ∀ found, (rule.check context).outcome = .ok found → ∀ issue ∈ found, issue.ruleId = rule.id

theorem signsFindings_reporting
    (context : Context) (id name : String) (severity : Severity) (autoFixable : Bool)
    (description : String) (findings : Context → Traced Failure (List Finding)) :
    (reporting id name severity autoFixable description findings).SignsFindings context := by
  intro found hfound issue hissue
  obtain ⟨own, -, hown⟩ := Traced.bind_outcome_eq_ok_iff.mp hfound
  cases hown
  obtain ⟨finding, -, rfl⟩ := List.mem_map.mp hissue
  rfl

/-- What the rule finds, if it comes to an end. -/
def findings (context : Context) (rule : Rule) : List Issue :=
  (rule.check context).outcome.toOption.getD []

theorem findings_eq
    {context : Context} {rule : Rule} {found : List Issue}
    (hfound : (rule.check context).outcome = .ok found) : rule.findings context = found := by
  rw [findings, hfound]
  rfl

/-- What the rule finds, with overridden severities. -/
def reported (overrides : SeverityOverrides) (context : Context) (rule : Rule) : List Issue :=
  (rule.findings context).map (Issue.rated (overrides.for? rule))

theorem ruleId_of_mem_reported
    {overrides : SeverityOverrides} {context : Context} {rule : Rule} {issue : Issue}
    (hsigns : rule.SignsFindings context) (hissue : issue ∈ rule.reported overrides context) :
    issue.ruleId = rule.id := by
  obtain ⟨found, hmem, rfl⟩ := List.mem_map.mp hissue
  unfold findings at hmem
  cases houtcome : (rule.check context).outcome with
  | error e => simp [houtcome, Except.toOption] at hmem
  | ok own =>
      rw [houtcome] at hmem
      exact hsigns own houtcome found hmem

end Rule

/-! ## One rule among others -/

section Blocks

variable {rules : List Rule} {rule : Rule} {block : Rule → List Issue} {p : Issue → Bool}

theorem filter_flatMap_eq_nil
    (hblock : ∀ rule ∈ rules, ∀ issue ∈ block rule, issue.ruleId = rule.id)
    (hp : ∀ issue, p issue = true → ∀ rule ∈ rules, issue.ruleId ≠ rule.id) :
    (rules.flatMap block).filter p = [] := by
  rw [List.filter_eq_nil_iff]
  intro issue hissue hpissue
  obtain ⟨rule, hrule, hissue⟩ := List.mem_flatMap.mp hissue
  exact hp issue hpissue rule hrule (hblock rule hrule issue hissue)

/-- Among the issues of all rules, those of one rule are found in its own block. -/
theorem filter_flatMap_of_mem
    (hids : rules.Pairwise fun rule other => rule.id ≠ other.id)
    (hblock : ∀ rule ∈ rules, ∀ issue ∈ block rule, issue.ruleId = rule.id) (hrule : rule ∈ rules)
    (hp : ∀ issue, p issue = true → issue.ruleId = rule.id) :
    (rules.flatMap block).filter p = (block rule).filter p := by
  induction rules with
  | nil => cases hrule
  | cons first rest ih =>
      obtain ⟨hfirst, hrest⟩ := List.pairwise_cons.mp hids
      have hblock' : ∀ rule ∈ rest, ∀ issue ∈ block rule, issue.ruleId = rule.id :=
        fun rule hrule => hblock rule (by simp [hrule])
      rw [List.flatMap_cons, List.filter_append]
      rcases List.mem_cons.mp hrule with rfl | hrule
      · have hothers : (rest.flatMap block).filter p = [] := by
          apply filter_flatMap_eq_nil hblock'
          intro issue hpissue other hother hsame
          exact hfirst other hother ((hp issue hpissue).symm.trans hsame)
        rw [hothers, List.append_nil]
      · have hother : (block first).filter p = [] := by
          rw [List.filter_eq_nil_iff]
          intro issue hissue hpissue
          have hsame := (hblock first (by simp) issue hissue).symm.trans (hp issue hpissue)
          exact hfirst rule hrule hsame
        rw [hother, List.nil_append, ih hrest hblock' hrule]

end Blocks

namespace Engine

variable {overrides : SeverityOverrides} {context : Context} {rules rules' : List Rule}
  {issues : List Issue}

theorem runRules_eq_ok_iff_flatMap :
    (runRules overrides rules context).outcome = .ok issues ↔
      (∀ rule ∈ rules, ∃ found, (rule.check context).outcome = .ok found) ∧
        (rules.flatMap (Rule.reported overrides context)).mergeSort Issue.precedes = issues := by
  have hblock : ∀ {rule : Rule} {own : List Issue}, (rule.check context).outcome = .ok own →
      overrides.apply rule own = rule.reported overrides context := by
    intro rule own hown
    rw [overrides.apply_eq_map, Rule.reported, Rule.findings_eq hown]
  rw [runRules_eq_ok_iff]
  constructor
  · rintro ⟨blocks, hblocks, rfl⟩
    have hends : (∀ rule ∈ rules, ∃ found, (rule.check context).outcome = .ok found) ∧
        blocks = rules.map (Rule.reported overrides context) := by
      induction hblocks with
      | nil => simp
      | cons hhead _ ih =>
          obtain ⟨own, hown, rfl⟩ := hhead
          exact ⟨List.forall_mem_cons.mpr ⟨⟨own, hown⟩, ih.1⟩,
            by rw [ih.2, hblock hown, List.map_cons]⟩
    exact ⟨hends.1, by rw [hends.2, List.flatMap]⟩
  · rintro ⟨hends, rfl⟩
    refine ⟨rules.map (Rule.reported overrides context), ?_, by rw [List.flatMap]⟩
    rw [List.forall₂_map_right_iff, List.forall₂_same]
    intro rule hrule
    obtain ⟨own, hown⟩ := hends rule hrule
    exact ⟨own, hown, hblock hown⟩

/-- `issues` puts together what the rules find: in order of line, column and rule, each finding once
and changed in nothing but an overridden severity, and the findings of a rule at one position in the
order in which the rule has found them. -/
structure Merges (overrides : SeverityOverrides) (context : Context) (rules : List Rule)
    (issues : List Issue) : Prop where
  sorted : issues.Pairwise fun a b => a.key ≤ b.key
  signed : ∀ issue ∈ issues, ∃ rule ∈ rules, issue.ruleId = rule.id
  once : ∀ rule ∈ rules, ∀ found, (rule.check context).outcome = .ok found →
    (issues.filter fun issue => issue.ruleId = rule.id).Perm
      (found.map (Issue.rated (overrides.for? rule)))
  stable : ∀ rule ∈ rules, ∀ found, (rule.check context).outcome = .ok found →
    ∀ line column,
      issues.filter (fun issue =>
          issue.line = line ∧ issue.column = column ∧ issue.ruleId = rule.id) =
        (found.filter fun issue => issue.line = line ∧ issue.column = column).map
          (Issue.rated (overrides.for? rule))

section Merging

variable (hsigns : ∀ rule ∈ rules, rule.SignsFindings context)
  (hids : rules.Pairwise fun rule other => rule.id ≠ other.id)

include hsigns

theorem ruleId_of_mem_reported_of_mem
    (rule : Rule) (hrule : rule ∈ rules) (issue : Issue)
    (hissue : issue ∈ rule.reported overrides context) : issue.ruleId = rule.id :=
  Rule.ruleId_of_mem_reported (hsigns rule hrule) hissue

include hids

theorem merges_mergeSort :
    Merges overrides context rules
      ((rules.flatMap (Rule.reported overrides context)).mergeSort Issue.precedes) := by
  have hblock := @ruleId_of_mem_reported_of_mem overrides context rules hsigns
  constructor
  · exact StableSort.pairwise_mergeSort Issue.precedes_iff _
  · intro issue hissue
    rw [List.mem_mergeSort] at hissue
    obtain ⟨rule, hrule, hissue⟩ := List.mem_flatMap.mp hissue
    exact ⟨rule, hrule, hblock rule hrule issue hissue⟩
  · intro rule hrule found hfound
    have hperm := (List.mergeSort_perm (rules.flatMap (Rule.reported overrides context))
      Issue.precedes).filter fun issue => decide (issue.ruleId = rule.id)
    have hown : (rule.reported overrides context).filter
        (fun issue => decide (issue.ruleId = rule.id)) = rule.reported overrides context := by
      rw [List.filter_eq_self]
      simpa using hblock rule hrule
    rw [filter_flatMap_of_mem hids hblock hrule (by simp), hown, Rule.reported,
      Rule.findings_eq hfound] at hperm
    exact hperm
  · intro rule hrule found hfound line column
    have hkept := StableSort.filter_mergeSort Issue.precedes_iff
      (rules.flatMap (Rule.reported overrides context)) (toLex (line, toLex (column, rule.id)))
    simp only [Issue.key_eq_iff] at hkept
    rw [hkept, filter_flatMap_of_mem hids hblock hrule (by simp), Rule.reported,
      Rule.findings_eq hfound, List.filter_map]
    -- all that the rule has found carries its identifier
    congr 1
    apply List.filter_congr
    intro issue hissue
    simp [Issue.rated, hsigns rule hrule found hfound issue hissue]

theorem mergeSort_flatMap_eq_of_perm (hperm : rules.Perm rules') :
    (rules.flatMap (Rule.reported overrides context)).mergeSort Issue.precedes =
      (rules'.flatMap (Rule.reported overrides context)).mergeSort Issue.precedes := by
  have hblock := @ruleId_of_mem_reported_of_mem overrides context rules hsigns
  refine StableSort.mergeSort_flatMap_eq_of_perm Issue.precedes_iff hperm ?_
  -- issues that tie carry the identifier of one rule
  intro rule hrule other hother issue hissue issue' hissue' hkey
  have hid : rule.id = other.id := by
    rw [← hblock rule hrule issue hissue, ← hblock other hother issue' hissue']
    exact (Issue.key_eq_iff.mp hkey).2.2
  exact List.inj_on_of_nodup_map (List.pairwise_map.mpr hids) hrule hother hid

end Merging

/-- Rules with different identifiers that sign what they find may be run in any order: either all
orders come to an end, which they do exactly if every rule does, and with the same issues, or none
does.  The issues put together what the rules find. -/
theorem runRules_ignores_order
    (overrides : SeverityOverrides)
    (hids : rules.Pairwise fun rule other => rule.id ≠ other.id)
    (hsigns : ∀ rule ∈ rules, rule.SignsFindings context) (hperm : rules.Perm rules') :
    (∀ issues, (runRules overrides rules context).outcome = .ok issues ↔
      (runRules overrides rules' context).outcome = .ok issues) ∧
    ((∃ issues, (runRules overrides rules context).outcome = .ok issues) ↔
      ∀ rule ∈ rules, ∃ found, (rule.check context).outcome = .ok found) ∧
    ∀ issues, (runRules overrides rules context).outcome = .ok issues →
      Merges overrides context rules issues := by
  refine ⟨?_, ?_, ?_⟩
  · intro issues
    rw [runRules_eq_ok_iff_flatMap, runRules_eq_ok_iff_flatMap,
      mergeSort_flatMap_eq_of_perm hsigns hids hperm]
    simp only [hperm.mem_iff]
  · simp [runRules_eq_ok_iff_flatMap]
  · intro issues hissues
    obtain ⟨-, rfl⟩ := runRules_eq_ok_iff_flatMap.mp hissues
    exact merges_mergeSort hsigns hids

/-- A rule that has two remarks on the start of the tree. -/
def twoRemarks (id name : String) (severity : Severity) : Rule :=
  .reporting id name severity false "" fun context =>
    pure [⟨context.tree, "first", none, none, []⟩, ⟨context.tree, "second", none, none, []⟩]

theorem signsFindings_twoRemarks (id name : String) (severity : Severity) (context : Context) :
    Rule.SignsFindings context (twoRemarks id name severity) :=
  Rule.signsFindings_reporting context id name severity false "" _

theorem runRules_ignores_order_of_twoRemarks :
    ∃ issues,
      (runRules [("late", .error)] [twoRemarks "B1" "late" .style, twoRemarks "A1" "early" .info]
        ⟨.anonymous, bytes "x", .leaf "program" 0 1 true none, []⟩).outcome = .ok issues ∧
      (runRules [("late", .error)] [twoRemarks "A1" "early" .info, twoRemarks "B1" "late" .style]
        ⟨.anonymous, bytes "x", .leaf "program" 0 1 true none, []⟩).outcome = .ok issues ∧
      issues.map (fun issue => (issue.ruleId, issue.message, issue.severity)) =
        [("A1", "first", .info), ("A1", "second", .info), ("B1", "first", .error),
          ("B1", "second", .error)] ∧
      Merges [("late", .error)] ⟨.anonymous, bytes "x", .leaf "program" 0 1 true none, []⟩
        [twoRemarks "B1" "late" .style, twoRemarks "A1" "early" .info] issues := by
  let context : Context := ⟨.anonymous, bytes "x", .leaf "program" 0 1 true none, []⟩
  let early := twoRemarks "A1" "early" .info
  let late := twoRemarks "B1" "late" .style
  have hids : [late, early].Pairwise fun rule other => rule.id ≠ other.id := by
    simp [late, early, twoRemarks, Rule.reporting]
  have hsigns : ∀ rule ∈ [late, early], rule.SignsFindings context := by
    simp only [List.forall_mem_cons]
    exact ⟨signsFindings_twoRemarks _ _ _ _, signsFindings_twoRemarks _ _ _ _, by simp⟩
  obtain ⟨hsame, hends, hmerges⟩ :=
    runRules_ignores_order [("late", .error)] hids hsigns (.swap early late [])
  have hsorted : ([early, late].flatMap (Rule.reported [("late", .error)] context)).Pairwise
      fun a b => a.precedes b = true := by
    decide +kernel
  have hissues : (runRules [("late", .error)] [early, late] context).outcome =
      .ok ([early, late].flatMap (Rule.reported [("late", .error)] context)) := by
    refine runRules_eq_ok_iff_flatMap.mpr ⟨?_, List.mergeSort_of_pairwise hsorted⟩
    simp only [List.forall_mem_cons]
    exact ⟨⟨_, rfl⟩, ⟨_, rfl⟩, by simp⟩
  have hissues' := (hsame _).mpr hissues
  exact ⟨_, hissues', hissues, by decide +kernel, hmerges _ hissues'⟩

end Engine

end RubyLint
