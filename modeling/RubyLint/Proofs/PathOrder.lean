import RubyLint.Proofs.DryRun
import RubyLint.Proofs.PathNames
import RubyLint.Proofs.RuleOrder
import Mathlib.Tactic

/-!
# The order of the path arguments

The targets of a run are what its path arguments stand for, one argument after the other, so a file
may be a target more than once.  A report is sorted by path, line and column.  Issues of two targets
tie only if the paths are written alike, and then the paths are the same and so are the issues.
Hence the order of the arguments leaves no trace in what a plain lint prints.  How the run ends does
not depend on it either, with one exception: an argument that is missing or a target that cannot be
analysed is met in any order, though perhaps after another one, and of two targets that fail in
different ways the first decides whether the run exits or breaks off.
-/

namespace RubyLint

/-! ## The issues of a target -/

/-- What issues are sorted by in a report. -/
def ReportedIssue.key (issue : ReportedIssue) : String ×ₗ ℤ ×ₗ ℤ :=
  toLex (issue.path, toLex (issue.line, issue.column))

theorem ReportedIssue.precedes_iff (a b : ReportedIssue) :
    a.precedes b = true ↔ a.key ≤ b.key := by
  simp [precedes, key, Prod.Lex.toLex_le_toLex]

namespace Rule

/-- All that the rule finds lies at the path of the source. -/
def KeepsPath (rule : Rule) : Prop :=
  ∀ context found, (rule.check context).outcome = .ok found →
    ∀ issue ∈ found, issue.path = context.path

theorem keepsPath_reporting
    (id name : String) (severity : Severity) (autoFixable : Bool)
    (description : String) (findings : Context → Traced Failure (List Finding)) :
    (reporting id name severity autoFixable description findings).KeepsPath := by
  intro context found hfound issue hissue
  obtain ⟨own, -, hown⟩ := Traced.bind_outcome_eq_ok_iff.mp hfound
  cases hown
  obtain ⟨finding, -, rfl⟩ := List.mem_map.mp hissue
  rfl

end Rule

theorem Config.keepsPath_of_mem_enabledRules [StackRoom]
    {config : Config} {rule : Rule} (hrule : rule ∈ config.enabledRules .builtin) :
    rule.KeepsPath := by
  rw [eq_of_mem_enabledRules hrule]
  exact Rule.keepsPath_reporting _ _ _ _ _ _

namespace Engine

variable {engine : Engine} {rules : List Rule} {files : FileSystem} {path : Path}
  {issues : List Issue}

theorem path_of_mem_analyze
    {source : String} (hrules : ∀ rule ∈ rules, rule.KeepsPath)
    (hissues : (engine.analyze rules path source).outcome = .ok issues) :
    ∀ issue ∈ issues, issue.path = path := by
  rw [analyze_outcome, runRules_eq_ok_iff_flatMap] at hissues
  obtain ⟨hends, rfl⟩ := hissues
  intro issue hissue
  rw [List.mem_mergeSort] at hissue
  obtain ⟨rule, hrule, hissue⟩ := List.mem_flatMap.mp hissue
  obtain ⟨found, hfound⟩ := hends rule hrule
  rw [Rule.reported, Rule.findings_eq hfound] at hissue
  obtain ⟨own, hown, rfl⟩ := List.mem_map.mp hissue
  exact hrules rule hrule _ found hfound own hown

/-- The issues of the file at `path`, if it can be analysed. -/
def found (engine : Engine) (rules : List Rule) (files : FileSystem) (path : Path) : List Issue :=
  (engine.analyzeFile rules files path).outcome.toOption.getD []

theorem found_eq (hissues : (engine.analyzeFile rules files path).outcome = .ok issues) :
    engine.found rules files path = issues := by
  rw [found, hissues]
  rfl

theorem path_of_mem_found
    {issue : Issue} (hrules : ∀ rule ∈ rules, rule.KeepsPath)
    (hissue : issue ∈ engine.found rules files path) : issue.path = path := by
  cases hfile : (engine.analyzeFile rules files path).outcome with
  | error e => simp [found, hfile, Except.toOption] at hissue
  | ok issues =>
      rw [found_eq hfile] at hissue
      obtain ⟨source, -, hissues⟩ := analyzeFile_eq_ok_iff.mp hfile
      exact path_of_mem_analyze hrules hissues issue hissue

/-- A report does not depend on the order of the targets. -/
theorem select_eq_of_perm
    {targets targets' : List Path} (least : Severity) (hrules : ∀ rule ∈ rules, rule.KeepsPath)
    (hperm : targets.Perm targets') (hproper : ∀ target ∈ targets, target.Proper) :
    Report.select least (targets.flatMap (engine.found rules files)) =
      Report.select least (targets'.flatMap (engine.found rules files)) := by
  unfold Report.select
  rw [List.map_flatMap, List.map_flatMap,
    StableSort.mergeSort_flatMap_eq_of_perm ReportedIssue.precedes_iff hperm]
  intro target htarget other hother issue hissue issue' hissue' hkey
  obtain ⟨own, hown, rfl⟩ := List.mem_map.mp hissue
  obtain ⟨own', hown', rfl⟩ := List.mem_map.mp hissue'
  have htext : toString own.path = toString own'.path := congrArg (fun k => (ofLex k).1) hkey
  rw [path_of_mem_found hrules hown, path_of_mem_found hrules hown'] at htext
  exact (hproper target htarget).eq_of_toString_eq (hproper other hother) htext

end Engine

namespace CommandLine

open Text

namespace Progress

variable {engine : Engine} {rules : List Rule} {progress : Progress} {targets : List Path}

theorem lintTargets_lint_of_found
    (hnone : progress.error = none)
    (htargets : ∀ target ∈ targets, ∃ issues,
      (engine.analyzeFile rules progress.files target).outcome = .ok issues) :
    ∃ log, progress.lintTargets engine rules .lint targets =
      { progress with
        log := log
        issues := progress.issues ++ targets.flatMap (engine.found rules progress.files) } := by
  refine lintTargets_lint hnone ?_
  rw [List.forall₂_map_right_iff, List.forall₂_same]
  intro target htarget
  obtain ⟨issues, hissues⟩ := htargets target htarget
  rw [Engine.found_eq hissues, hissues]

/-- The first target that fails stops the run. -/
theorem exists_first_failure
    (hnone : progress.error = none)
    (hfails : ∃ target ∈ targets, ∃ e,
      (engine.analyzeFile rules progress.files target).outcome = .error e) :
    ∃ before target after e, targets = before ++ target :: after ∧
      (∀ path ∈ before, ∃ issues,
        (engine.analyzeFile rules progress.files path).outcome = .ok issues) ∧
      (engine.analyzeFile rules progress.files target).outcome = .error e ∧
      (progress.lintTargets engine rules .lint targets).error = some e := by
  induction targets generalizing progress with
  | nil => simp at hfails
  | cons path rest ih =>
      rw [lintTargets_cons hnone]
      cases hpath : (engine.analyzeFile rules progress.files path).outcome with
      | error e =>
          have herror : (progress.lintTarget engine rules .lint path).error = some e := by
            simp [lintTarget, advance, hpath]
          refine ⟨[], path, rest, e, rfl, by simp, hpath, ?_⟩
          rw [lintTargets_of_isSome (by rw [herror]; rfl), herror]
      | ok issues =>
          obtain ⟨failing, hfailing, e, he⟩ := hfails
          have hrest : failing ∈ rest := by
            rcases List.mem_cons.mp hfailing with rfl | hrest
            · cases hpath.symm.trans he
            · exact hrest
          have hnext : (progress.lintTarget engine rules .lint path).error = none := by
            rw [lintTarget_lint_of_ok hpath]
            exact hnone
          have hfiles : (progress.lintTarget engine rules .lint path).files = progress.files :=
            files_lintTarget (by simp)
          obtain ⟨before, target, after, e', rfl, hbefore, htarget, herror⟩ :=
            ih hnext ⟨failing, hrest, e, by rwa [hfiles]⟩
          rw [hfiles] at hbefore htarget
          refine ⟨path :: before, target, after, e', rfl, ?_, htarget, herror⟩
          exact List.forall_mem_cons.mpr ⟨⟨issues, hpath⟩, hbefore⟩

theorem output_lintTargets_lint :
    (progress.lintTargets engine rules .lint targets).output = progress.output := by
  unfold lintTargets
  induction targets generalizing progress with
  | nil => rfl
  | cons path rest ih =>
      rw [List.foldl_cons, ih]
      split
      · rfl
      · unfold lintTarget advance
        cases (engine.analyzeFile rules progress.files path).outcome <;> rfl

end Progress

/-! ## Collecting the targets -/

section Targets

variable {config : Config} {files : FileSystem} {paths : List Path}

theorem exists_missing?_eq_error
    (hunknown : ∃ path ∈ paths, ∃ e, files.get? path = .error e) :
    ∃ e, missing? files paths = .error e := by
  obtain ⟨path, -, e, -, hmap⟩ := Outcome.exists_mapM_eq_error hunknown
  refine ⟨e, ?_⟩
  rw [missing?, hmap]
  rfl

/-- What stands at `path`; nothing if that cannot be told. -/
def standing (files : FileSystem) (path : Path) : Option FileTree :=
  (files.get? path).toOption.join

theorem missing?_eq (hknown : ∀ path ∈ paths, ∃ found, files.get? path = .ok found) :
    missing? files paths = .ok (paths.find? fun path => (standing files path).isNone) := by
  have hstanding : ∀ path ∈ paths, files.get? path = .ok (standing files path) := by
    intro path hpath
    obtain ⟨found, hfound⟩ := hknown path hpath
    simp [standing, hfound, Except.toOption]
  rw [missing?, Outcome.mapM_eq_ok hstanding]
  simp only [bind, Except.bind, pure, Except.pure, Except.ok.injEq]
  rw [← List.map_prod_left_eq_zip, List.find?_map, Option.map_map]
  exact Option.map_id'

variable [StackRoom]

theorem exists_targets_eq_error_of_unknown
    (hunknown : ∃ path ∈ paths, ∃ e, files.get? path = .error e) :
    ∃ e, targets config files paths = .error e := by
  obtain ⟨e, hmissing⟩ := exists_missing?_eq_error hunknown
  refine ⟨e, ?_⟩
  rw [targets, hmissing]
  rfl

theorem exists_targets_of_missing
    (hknown : ∀ path ∈ paths, ∃ found, files.get? path = .ok found)
    (hmissing : ∃ path ∈ paths, files.get? path = .ok none) :
    ∃ path, targets config files paths = .ok (.error path) := by
  have hfirst : (paths.find? fun path => (standing files path).isNone).isSome = true := by
    rw [List.find?_isSome]
    obtain ⟨path, hpath, hnone⟩ := hmissing
    exact ⟨path, hpath, by simp [standing, hnone, Except.toOption]⟩
  obtain ⟨path, hpath⟩ := Option.isSome_iff_exists.mp hfirst
  refine ⟨path, ?_⟩
  rw [targets, missing?_eq hknown, hpath]
  rfl

section Present

variable (hpresent : ∀ path ∈ paths, ∃ tree, files.get? path = .ok (some tree))

include hpresent

theorem targets_eq_collect : targets config files paths = .ok <$> config.collect files paths := by
  have hknown : ∀ path ∈ paths, ∃ found, files.get? path = .ok found := by
    intro path hpath
    obtain ⟨tree, htree⟩ := hpresent path hpath
    exact ⟨some tree, htree⟩
  have hfirst : (paths.find? fun path => (standing files path).isNone) = none := by
    rw [List.find?_eq_none]
    intro path hpath
    obtain ⟨tree, htree⟩ := hpresent path hpath
    simp [standing, htree, Except.toOption]
  rw [targets, missing?_eq hknown, hfirst]
  rfl

theorem targets_of_present
    (hexpand : ∀ path ∈ paths, ∃ targets, Config.expand files path = .ok targets) :
    targets config files paths = .ok (.ok
      ((paths.flatMap (Config.expansion files)).filter fun path => !config.excludes path)) := by
  rw [targets_eq_collect hpresent, Config.collect_eq hexpand]
  rfl

theorem exists_targets_eq_error_of_expand
    (hfails : ∃ path ∈ paths, ∃ e, Config.expand files path = .error e) :
    ∃ e, targets config files paths = .error e := by
  obtain ⟨path, -, e, -, hcollect⟩ := @Config.exists_collect_eq_error _ _ config _ hfails
  refine ⟨e, ?_⟩
  rw [targets_eq_collect hpresent, hcollect]
  rfl

end Present

end Targets

/-! ## Planning with other arguments -/

/-- The endings are the same, or both runs break off. -/
inductive Ending.Alike : Ending → Ending → Prop
  | same (ending : Ending) : Alike ending ending
  | broken (reason reason' : Breakdown) : Alike (.abort reason) (.abort reason')

/-- Both plans are refused and the runs end alike, or they agree up to the order of the targets. -/
inductive PlannedAlike : Except Refusal Plan → Except Refusal Plan → Prop
  | refused {refusal refusal' : Refusal}
      (hending : ∀ texts, (refusal.ending texts).Alike (refusal'.ending texts)) :
      PlannedAlike (.error refusal) (.error refusal')
  | planned {config : Config} {targets targets' : List Path} (hperm : targets.Perm targets') :
      PlannedAlike (.ok ⟨config, targets⟩) (.ok ⟨config, targets'⟩)

namespace LintOptions

/-- Nothing stands at some argument. -/
def Missing (options : LintOptions) (files : FileSystem) : Prop :=
  ∃ path ∈ options.files, files.get? (Path.ofString path) = .ok none

variable [StackRoom] {options : LintOptions} {files : FileSystem} {config : Config}
  {paths : List String}

/-- Whether anything stands at some argument cannot be told or, where none is missing, what lies
below it. -/
def Unsearchable (options : LintOptions) (files : FileSystem) : Prop :=
  (∃ path ∈ options.files, ∃ e, files.get? (Path.ofString path) = .error e) ∨
    ¬ options.Missing files ∧
      ∃ path ∈ options.files, ∃ e, Config.expand files (Path.ofString path) = .error e

omit [StackRoom] in
theorem missing_iff_of_perm (hpaths : options.files.Perm paths) :
    { options with files := paths }.Missing files ↔ options.Missing files := by
  simp only [Missing, hpaths.mem_iff]

theorem unsearchable_iff_of_perm (hpaths : options.files.Perm paths) :
    { options with files := paths }.Unsearchable files ↔ options.Unsearchable files := by
  simp only [Unsearchable, missing_iff_of_perm hpaths, hpaths.mem_iff]

theorem exists_get?_of_searchable (hsearchable : ¬ options.Unsearchable files) :
    ∀ path ∈ options.files.map Path.ofString, ∃ found, files.get? path = .ok found := by
  rw [List.forall_mem_map]
  intro path hpath
  cases hfound : files.get? (Path.ofString path) with
  | error e => exact absurd (.inl ⟨path, hpath, e, hfound⟩) hsearchable
  | ok found => exact ⟨found, rfl⟩

omit [StackRoom] in
theorem exists_tree_of_present
    (hmissing : ¬ options.Missing files)
    (hknown : ∀ path ∈ options.files.map Path.ofString, ∃ found, files.get? path = .ok found) :
    ∀ path ∈ options.files.map Path.ofString, ∃ tree, files.get? path = .ok (some tree) := by
  rw [List.forall_mem_map] at hknown ⊢
  intro path hpath
  obtain ⟨found, hfound⟩ := hknown path hpath
  cases found with
  | none => exact absurd ⟨path, hpath, hfound⟩ hmissing
  | some tree => exact ⟨tree, hfound⟩

theorem exists_targets_of_unsearchable (config : Config) (hfails : options.Unsearchable files) :
    ∃ e, targets config files (options.files.map Path.ofString) = .error e := by
  by_cases hunknown : ∃ path ∈ options.files, ∃ e, files.get? (Path.ofString path) = .error e
  · obtain ⟨path, hpath, e, he⟩ := hunknown
    exact exists_targets_eq_error_of_unknown ⟨_, List.mem_map_of_mem hpath, e, he⟩
  · obtain ⟨hmissing, path, hpath, e, he⟩ := hfails.resolve_left hunknown
    have hknown : ∀ path ∈ options.files.map Path.ofString,
        ∃ found, files.get? path = .ok found := by
      rw [List.forall_mem_map]
      intro path hpath
      cases hfound : files.get? (Path.ofString path) with
      | error e => exact absurd ⟨path, hpath, e, hfound⟩ hunknown
      | ok found => exact ⟨found, rfl⟩
    exact exists_targets_eq_error_of_expand (exists_tree_of_present hmissing hknown)
      ⟨_, List.mem_map_of_mem hpath, e, he⟩

theorem exists_planTargets_of_unsearchable
    (config : Config) (hfails : options.Unsearchable files) :
    ∃ e, options.planTargets files config = .error (.path e) := by
  have hsome : options.files.isEmpty = false := by
    obtain ⟨path, hpath, -⟩ | ⟨-, path, hpath, -⟩ := hfails
    all_goals simp [List.ne_nil_of_mem hpath]
  obtain ⟨e, htargets⟩ :=
    exists_targets_of_unsearchable (config.override options.select options.ignore) hfails
  refine ⟨e, ?_⟩
  simp only [planTargets, hsome, htargets]
  rfl

theorem exists_planTargets_of_missing
    (config : Config) (hmissing : options.Missing files)
    (hsearchable : ¬ options.Unsearchable files) :
    ∃ message, options.planTargets files config = .error (.reported message) := by
  obtain ⟨path, hpath, hmissing⟩ := hmissing
  have hsome : options.files.isEmpty = false := by
    simp [List.ne_nil_of_mem hpath]
  obtain ⟨first, hfirst⟩ := @exists_targets_of_missing
    (config.override options.select options.ignore) files _ _
    (exists_get?_of_searchable hsearchable) ⟨_, List.mem_map_of_mem hpath, hmissing⟩
  refine ⟨"No such file or directory: " ++ toString first, ?_⟩
  simp only [planTargets, hsome, hfirst]
  rfl

theorem exists_expand_of_searchable
    (hmissing : ¬ options.Missing files) (hsearchable : ¬ options.Unsearchable files) :
    ∀ path ∈ options.files.map Path.ofString,
      ∃ targets, Config.expand files path = .ok targets := by
  rw [List.forall_mem_map]
  intro path hpath
  cases hexpand : Config.expand files (Path.ofString path) with
  | error e => exact absurd (.inr ⟨hmissing, path, hpath, e, hexpand⟩) hsearchable
  | ok targets => exact ⟨targets, rfl⟩

theorem planTargets_of_present
    (config : Config) (hsome : options.files ≠ []) (hmissing : ¬ options.Missing files)
    (hsearchable : ¬ options.Unsearchable files) :
    options.planTargets files config = .ok
      ⟨config.override options.select options.ignore,
        ((options.files.map Path.ofString).flatMap (Config.expansion files)).filter fun path =>
          !(config.override options.select options.ignore).excludes path⟩ := by
  have hpresent := exists_tree_of_present hmissing (exists_get?_of_searchable hsearchable)
  have hexpand := exists_expand_of_searchable hmissing hsearchable
  exact planTargets_eq_ok_iff.mpr
    ⟨by simpa using hsome, targets_of_present hpresent hexpand, rfl⟩

theorem planTargets_alike (config : Config) (hpaths : options.files.Perm paths) :
    PlannedAlike (options.planTargets files config)
      ({ options with files := paths }.planTargets files config) := by
  by_cases hsome : options.files = []
  · rw [hsome] at hpaths
    simp only [planTargets, hsome, hpaths.symm.eq_nil]
    exact .refused fun _ => .same _
  have hsome' : paths ≠ [] := by
    rintro rfl
    exact hsome hpaths.eq_nil
  have hsearchable' := @unsearchable_iff_of_perm _ options files paths hpaths
  by_cases hfails : options.Unsearchable files
  · obtain ⟨e, hplan⟩ := exists_planTargets_of_unsearchable config hfails
    obtain ⟨e', hplan'⟩ := exists_planTargets_of_unsearchable config (hsearchable'.mpr hfails)
    rw [hplan, hplan']
    exact .refused fun _ => .broken _ _
  have hfails' := mt hsearchable'.mp hfails
  by_cases hmissing : options.Missing files
  · obtain ⟨message, hplan⟩ := exists_planTargets_of_missing config hmissing hfails
    obtain ⟨message', hplan'⟩ := exists_planTargets_of_missing config
      ((missing_iff_of_perm hpaths).mpr hmissing) hfails'
    rw [hplan, hplan']
    exact .refused fun _ => .same _
  · rw [planTargets_of_present config hsome hmissing hfails,
      planTargets_of_present config hsome' (mt (missing_iff_of_perm hpaths).mp hmissing) hfails']
    exact .planned (((hpaths.map _).flatMap_right _).filter _)

theorem outcome_plan (hconfig : (options.loadConfig files).outcome = .ok config) :
    (options.plan files).outcome = options.planTargets files config := by
  rw [plan, Traced.outcome_bind, hconfig]
  rfl

theorem plan_alike (files : FileSystem) (hpaths : options.files.Perm paths) :
    PlannedAlike (options.plan files).outcome
      ({ options with files := paths }.plan files).outcome := by
  -- the configuration is found and loaded before any argument is looked at
  have hconfig : { options with files := paths }.loadConfig files = options.loadConfig files := rfl
  simp only [plan, Traced.outcome_bind, Traced.outcome_ofExcept, hconfig]
  cases (options.loadConfig files).outcome with
  | error refusal => exact .refused fun _ => .same _
  | ok config => exact planTargets_alike config hpaths

theorem present_of_planTargets
    {plan : Plan} (hplan : options.planTargets files config = .ok plan) :
    options.files ≠ [] ∧ ¬ options.Missing files ∧ ¬ options.Unsearchable files := by
  have hsearchable : ¬ options.Unsearchable files := by
    intro hfails
    obtain ⟨e, hrefused⟩ := exists_planTargets_of_unsearchable config hfails
    cases hplan.symm.trans hrefused
  refine ⟨by simpa using (planTargets_eq_ok_iff.mp hplan).1, ?_, hsearchable⟩
  intro hmissing
  obtain ⟨message, hrefused⟩ := exists_planTargets_of_missing config hmissing hsearchable
  cases hplan.symm.trans hrefused

theorem proper_of_mem_targets
    {plan : Plan} {target : Path} (hfiles : files.root.ProperNames)
    (hplan : (options.plan files).outcome = .ok plan) (htarget : target ∈ plan.targets) :
    target.Proper := by
  obtain ⟨_, config, -, -, hplan⟩ := plan_eq_ok_iff.mp hplan
  obtain ⟨hsome, hmissing, hsearchable⟩ := present_of_planTargets hplan
  rw [planTargets_of_present config hsome hmissing hsearchable] at hplan
  cases hplan
  obtain ⟨path, hpath, htarget⟩ := List.mem_flatMap.mp (List.mem_of_mem_filter htarget)
  obtain ⟨targets, hexpand⟩ := exists_expand_of_searchable hmissing hsearchable path hpath
  obtain ⟨text, -, rfl⟩ := List.mem_map.mp hpath
  exact Config.proper_of_mem_expand hfiles (Path.proper_ofString text) (Config.expand_eq hexpand)
    htarget

end LintOptions

/-! ## Running with other arguments -/

section

variable [StackRoom]

namespace Plan

variable {plan : Plan} {tools : Tools} {files : FileSystem} {e : LintError}

/-- The file at `target` cannot be read or analysed. -/
def FailsWith (plan : Plan) (tools : Tools) (files : FileSystem) (target : Path) (e : LintError) :
    Prop :=
  ((plan.engine tools).analyzeFile plan.rules files target).outcome = .error e

def Fails (plan : Plan) (tools : Tools) (files : FileSystem) (target : Path) : Prop :=
  ∃ e, plan.FailsWith tools files target e

/-- The first target that fails does so with `e`. -/
def FailsFirst (plan : Plan) (tools : Tools) (files : FileSystem) (e : LintError) : Prop :=
  ∃ before target after, plan.targets = before ++ target :: after ∧
    (∀ path ∈ before, ¬ plan.Fails tools files path) ∧ plan.FailsWith tools files target e

/-- One target fails with an error that is reported, and another with one that is not. -/
def FailsBothWays (plan : Plan) (tools : Tools) (files : FileSystem) : Prop :=
  (∃ target ∈ plan.targets, ∃ e, plan.FailsWith tools files target e ∧ e.report?.isSome = true) ∧
    ∃ target ∈ plan.targets, ∃ e, plan.FailsWith tools files target e ∧ e.report? = none

/-- The issues of all targets, one target after the other. -/
def issues (plan : Plan) (tools : Tools) (files : FileSystem) : List Issue :=
  plan.targets.flatMap ((plan.engine tools).found plan.rules files)

theorem exists_error_progress
    (hfails : ∃ target ∈ plan.targets, plan.Fails tools files target) :
    ∃ e, plan.FailsFirst tools files e ∧ (plan.progress tools .lint files).error = some e := by
  obtain ⟨before, target, after, e, htargets, hbefore, htarget, herror⟩ :=
    @Progress.exists_first_failure _ _ (.start files) _ rfl hfails
  refine ⟨e, ⟨before, target, after, htargets, ?_, htarget⟩, herror⟩
  rintro path hpath ⟨e', he'⟩
  obtain ⟨issues, hissues⟩ := hbefore path hpath
  cases he'.symm.trans hissues

theorem FailsFirst.mem (hfirst : plan.FailsFirst tools files e) :
    ∃ target ∈ plan.targets, plan.FailsWith tools files target e := by
  obtain ⟨before, target, after, htargets, -, htarget⟩ := hfirst
  exact ⟨target, by simp [htargets], htarget⟩

theorem progress_of_analyzed
    (hanalyzed : ∀ target ∈ plan.targets, ¬ plan.Fails tools files target) :
    ∃ log, plan.progress tools .lint files =
      { Progress.start files with log := log, issues := plan.issues tools files } := by
  have hissues : ∀ target ∈ plan.targets, ∃ issues,
      ((plan.engine tools).analyzeFile plan.rules files target).outcome = .ok issues := by
    intro target htarget
    cases houtcome : ((plan.engine tools).analyzeFile plan.rules files target).outcome with
    | error e => exact absurd ⟨e, houtcome⟩ (hanalyzed target htarget)
    | ok issues => exact ⟨issues, rfl⟩
  exact @Progress.lintTargets_lint_of_found _ _ (.start files) _ rfl hissues

/-- Targets that do not fail in both ways make two runs end alike, whichever comes first. -/
theorem alike_of_fails
    {target target' : Path} {e' : LintError} (hone : ¬ plan.FailsBothWays tools files)
    (htarget : target ∈ plan.targets) (hfails : plan.FailsWith tools files target e)
    (htarget' : target' ∈ plan.targets) (hfails' : plan.FailsWith tools files target' e') :
    (Ending.ofError e).Alike (.ofError e') := by
  unfold Ending.ofError
  cases hreport : e.report? with
  | some message =>
      cases hreport' : e'.report? with
      | some message' => exact .same _
      | none =>
          exact absurd ⟨⟨target, htarget, e, hfails, by simp [hreport]⟩,
            target', htarget', e', hfails', hreport'⟩ hone
  | none =>
      cases hreport' : e'.report? with
      | some message' =>
          exact absurd ⟨⟨target', htarget', e', hfails', by simp [hreport']⟩,
            target, htarget, e, hfails, hreport⟩ hone
      | none => exact .broken _ _

section Alike

variable {config : Config} {targets targets' : List Path} (hperm : targets.Perm targets')

include hperm

theorem select_issues_eq (least : Severity) (hproper : ∀ target ∈ targets, target.Proper) :
    Report.select least (issues ⟨config, targets⟩ tools files) =
      Report.select least (issues ⟨config, targets'⟩ tools files) :=
  Engine.select_eq_of_perm least (fun _ hrule => Config.keepsPath_of_mem_enabledRules hrule) hperm
    hproper

theorem length_issues_eq :
    (issues ⟨config, targets⟩ tools files).length =
      (issues ⟨config, targets'⟩ tools files).length :=
  (hperm.flatMap_right _).length_eq

end Alike

end Plan

variable {tools : Tools} {verbose : Bool} {options : LintOptions} {least : Severity}
  {files : FileSystem} {words words' paths : List String} {plan : Plan}

section Run

variable (hwords : invocation? false words = some ⟨verbose, .lint options least⟩)

include hwords

theorem run_of_planTargets
    {config : Config} {refusal : Refusal}
    (hconfig : (options.loadConfig files).outcome = .ok config)
    (hrefused : options.planTargets files config = .error refusal) :
    (run tools words files).ending = refusal.ending tools.texts ∧
      (run tools words files).output = "" := by
  rw [run_of_refusal hwords ((LintOptions.outcome_plan hconfig).trans hrefused)]
  exact ⟨rfl, rfl⟩

variable (hmode : options.mode = .lint) (hplan : (options.plan files).outcome = .ok plan)

include hmode hplan

theorem run_stops (hfails : ∃ target ∈ plan.targets, plan.Fails tools files target) :
    ∃ e, plan.FailsFirst tools files e ∧ (run tools words files).ending = .ofError e ∧
      (run tools words files).output = "" := by
  obtain ⟨e, hfirst, herror⟩ := Plan.exists_error_progress hfails
  refine ⟨e, hfirst, ?_⟩
  rw [run_of_plan hwords hplan, hmode]
  refine ⟨Progress.ending_outcome_of_error _ _ _ _ _ _ herror, ?_⟩
  simp only [Progress.outcome, herror]
  exact Progress.output_lintTargets_lint

theorem run_concludes (hanalyzed : ∀ target ∈ plan.targets, ¬ plan.Fails tools files target) :
    (run tools words files).Concludes options.format least "" (plan.issues tools files)
      plan.targets.length 0 := by
  obtain ⟨log, hprogress⟩ := Plan.progress_of_analyzed hanalyzed
  rw [run_of_plan hwords hplan, hmode, hprogress]
  exact Progress.concludes_outcome _ _ _ _ _ _ rfl

end Run

/-- Runs whose plans differ in the order of the targets print the same, and they end alike if the
targets do not fail in both ways. -/
theorem run_alike_of_plannedAlike
    (hwords : invocation? false words = some ⟨verbose, .lint options least⟩)
    (hwords' : invocation? false words' =
      some ⟨verbose, .lint { options with files := paths } least⟩)
    (hmode : options.mode = .lint) (hfiles : files.root.ProperNames)
    (halike : PlannedAlike (options.plan files).outcome
      ({ options with files := paths }.plan files).outcome) :
    (run tools words files).output = (run tools words' files).output ∧
      ((∀ plan, (options.plan files).outcome = .ok plan → ¬ plan.FailsBothWays tools files) →
        (run tools words files).ending.Alike (run tools words' files).ending) := by
  generalize hplan : (options.plan files).outcome = planned at halike
  generalize hplan' : ({ options with files := paths }.plan files).outcome = planned' at halike
  cases halike with
  | refused hending =>
      rw [run_of_refusal hwords hplan, run_of_refusal hwords' hplan']
      exact ⟨rfl, fun _ => hending tools.texts⟩
  | @planned config targets targets' hperm =>
      -- one failing target stops both runs, wherever it stands among the others
      by_cases hfails : ∃ target ∈ targets, Plan.Fails ⟨config, targets⟩ tools files target
      · have hfails' : ∃ target ∈ targets', Plan.Fails ⟨config, targets'⟩ tools files target := by
          obtain ⟨target, htarget, hfails⟩ := hfails
          exact ⟨target, hperm.mem_iff.mp htarget, hfails⟩
        obtain ⟨e, hfirst, hending, houtput⟩ := run_stops hwords hmode hplan hfails
        obtain ⟨e', hfirst', hending', houtput'⟩ := run_stops hwords' hmode hplan' hfails'
        refine ⟨houtput.trans houtput'.symm, ?_⟩
        intro hone
        obtain ⟨target, htarget, hwith⟩ := hfirst.mem
        obtain ⟨target', htarget', hwith'⟩ := hfirst'.mem
        rw [hending, hending']
        exact Plan.alike_of_fails (hone _ rfl) htarget hwith (hperm.mem_iff.mpr htarget') hwith'
      · have hanalyzed : ∀ target ∈ targets, ¬ Plan.Fails ⟨config, targets⟩ tools files target :=
          fun target htarget hfail => hfails ⟨target, htarget, hfail⟩
        have hends := run_concludes hwords hmode hplan hanalyzed
        have hends' := run_concludes hwords' hmode hplan' fun target htarget =>
          hanalyzed target (hperm.mem_iff.mpr htarget)
        have hproper : ∀ target ∈ targets, target.Proper :=
          fun target => LintOptions.proper_of_mem_targets hfiles hplan
        have hselect := @Plan.select_issues_eq _ tools files config _ _ hperm least hproper
        have hlength := @Plan.length_issues_eq _ tools files config _ _ hperm
        constructor
        · rw [hends.output, hends'.output, hselect, hlength, hperm.length_eq]
        · intro _
          rw [hends.ending, hends'.ending, hselect]
          exact .same _

end

/-! ## Arguments in another order -/

/-- A file and a directory with a second one. -/
def nestedFiles : FileSystem where
  root := .directory [("work", .directory
    [("line.rb", .file (bytes "s.gsub('a', 'b')\r\n")),
      ("sub", .directory [("x.rb", .file (bytes "s.gsub('a', 'b')\n"))])])]
  workingDirectory := ["work"]
  access _ := .full

def nestedPath : Path := ⟨"/", ["work", "sub", "x.rb"]⟩

def parentPath : Path := ⟨"", ["..", "work", "line.rb"]⟩

def nestedIssue : Issue := { lineIssue with path := nestedPath }

def parentIssue : Issue := { lineIssue with path := parentPath }

def nestedOptions : LintOptions :=
  ⟨["/work/sub", "../work/line.rb", "/work/sub"], none, "STYLE", false, false, [], [], "text"⟩

def nestedPlan : Plan := ⟨Config.default.override [] [], [nestedPath, parentPath, nestedPath]⟩

theorem analyzeFile_nestedFiles :
    (Engine.analyzeFile ⟨fun _ => lineTree, []⟩ Registry.builtin.rules nestedFiles
        parentPath).outcome = .ok [parentIssue] ∧
      (Engine.analyzeFile ⟨fun _ => lineTree, []⟩ Registry.builtin.rules nestedFiles
        nestedPath).outcome = .ok [nestedIssue] := by
  constructor
  · refine Engine.analyzeFile_eq_ok_iff.mpr ⟨"s.gsub('a', 'b')\n", by decide +kernel, ?_⟩
    exact Engine.analyze_builtin_eq_ok_iff.mpr
      ⟨[parentIssue], by decide +kernel, List.mergeSort_singleton parentIssue⟩
  · refine Engine.analyzeFile_eq_ok_iff.mpr ⟨"s.gsub('a', 'b')\n", by decide +kernel, ?_⟩
    exact Engine.analyze_builtin_eq_ok_iff.mpr
      ⟨[nestedIssue], by decide +kernel, List.mergeSort_singleton nestedIssue⟩

theorem find_nestedFiles :
    nestedFiles.find (Path.ofString "/work/sub") =
      .ok (["work", "sub"], .directory [("x.rb", .file (bytes "s.gsub('a', 'b')\n"))]) :=
  FileSystem.find_eq_ok_iff.mpr ⟨by decide +kernel, rfl⟩

theorem get_nestedFiles :
    nestedFiles.get (Path.ofString "../work/line.rb") =
      .ok (.file (bytes "s.gsub('a', 'b')\r\n")) :=
  FileSystem.get_eq_ok_iff.mpr
    ⟨["work", "line.rb"], FileSystem.find_eq_ok_iff.mpr ⟨by decide +kernel, rfl⟩⟩

theorem expand_nestedFiles :
    Config.expand nestedFiles (Path.ofString "/work/sub") = .ok [nestedPath] ∧
      Config.expand nestedFiles (Path.ofString "../work/line.rb") = .ok [parentPath] := by
  constructor
  · have hwalk : nestedFiles.walk ["work", "sub"]
        (.directory [("x.rb", .file (bytes "s.gsub('a', 'b')\n"))]) =
          [(["x.rb"], .file (bytes "s.gsub('a', 'b')\n"))] := rfl
    have hnames : FileSystem.rubyNames [(["x.rb"], .file (bytes "s.gsub('a', 'b')\n"))] =
        [["x.rb"]] := List.mergeSort_singleton ["x.rb"]
    rw [Config.expand_of_directory find_nestedFiles, hwalk, hnames]
    decide +kernel
  · rw [Config.expand_of_file get_nestedFiles]
    decide

theorem plan_nestedOptions : (nestedOptions.plan nestedFiles).outcome = .ok nestedPlan := by
  obtain ⟨hsub, hline⟩ := expand_nestedFiles
  have hfound := FileSystem.get?_eq_ok_some_iff.mpr
    (FileSystem.get_eq_ok_iff.mpr ⟨_, find_nestedFiles⟩)
  have hfound' := FileSystem.get?_eq_ok_some_iff.mpr get_nestedFiles
  refine LintOptions.plan_eq_ok_iff.mpr ⟨none, Config.default, by decide +kernel, rfl, ?_⟩
  refine LintOptions.planTargets_eq_ok_iff.mpr ⟨rfl, ?_, rfl⟩
  rw [targets_of_present]
  · simp only [nestedOptions, List.map_cons, List.map_nil, List.flatMap_cons, List.flatMap_nil,
      Config.expansion, hsub, hline]
    rfl
  · simp [nestedOptions, hfound, hfound']
  · simp [nestedOptions, hsub, hline]

def overlongLetters : List Char := List.replicate 256 'a'

/-- A name with one byte more than a name may have. -/
def overlongName : String := String.ofList overlongLetters

theorem toList_overlongName : overlongName.toList = overlongLetters :=
  String.toList_ofList

def overlongOptions : LintOptions :=
  ⟨["none.rb", overlongName], none, "STYLE", false, false, [], [], "text"⟩

def emptyFiles : FileSystem where
  root := .directory [("work", .directory [])]
  workingDirectory := ["work"]
  access _ := .full

theorem unsearchable_overlongOptions : overlongOptions.Unsearchable emptyFiles := by
  have hletters : ∀ c ∈ overlongName.toList, c = 'a' := by
    rw [toList_overlongName]
    exact fun _ => List.eq_of_mem_replicate
  have hnull : '\x00' ∉ overlongName.toList := fun hmem => absurd (hletters _ hmem) (by decide)
  have hslash : '/' ∉ overlongName.toList := fun hmem => absurd (hletters _ hmem) (by decide)
  have hlong : FileSystem.isTooLong overlongName = true := by
    rw [FileSystem.isTooLong, bytes, toList_overlongName]
    decide +kernel
  have hname : Path.IsName overlongName := by
    refine ⟨?_, ?_, hslash⟩
    all_goals
      intro hsame
      rw [hsame] at hlong
      exact absurd hlong (by decide)
  exact .inl ⟨overlongName, .tail _ (.head _), _,
    FileSystem.get?_of_isTooLong rfl rfl hname hnull hlong⟩

end CommandLine

end RubyLint
