import RubyLint.Proofs.ConfigProblems
import RubyLint.Proofs.LintPlan
import RubyLint.Proofs.RuleOrder
import Mathlib.Tactic

/-!
# What severities can change

Overridden severities change what an issue is reported as and nothing else of it.  Two analyses of
one source under different overrides find issues that correspond one by one and differ at most in
their severity; sorting, picking those that can be fixed and taking their edits respect this.  So
fixing makes the same passes over the same texts, and two reports choose from corresponding issues.
In a configuration the levels are set apart from all else: what rules are run and which targets are
found does not depend on them.
-/

namespace RubyLint

open Text

/-! ## Issues that differ in their severity -/

def Issue.SameButSeverity (issue issue' : Issue) : Prop :=
  issue' = { issue with severity := issue'.severity }

section Issues

variable {issues issues' : List Issue}
  (hissues : List.Forall₂ Issue.SameButSeverity issues issues')

theorem Issue.SameButSeverity.precedes_eq
    {a b a' b' : Issue} (ha : a.SameButSeverity a') (hb : b.SameButSeverity b') :
    a.precedes b = a'.precedes b' := by
  rw [ha, hb]
  rfl

theorem SeverityOverrides.forall₂_apply
    (overrides overrides' : SeverityOverrides) (rule : Rule) (issues : List Issue) :
    List.Forall₂ Issue.SameButSeverity (overrides.apply rule issues)
      (overrides'.apply rule issues) := by
  rw [apply_eq_map, apply_eq_map, List.forall₂_map_left_iff, List.forall₂_map_right_iff,
    List.forall₂_same]
  intro issue _
  rfl

include hissues

theorem forall₂_filter_autoFixable :
    List.Forall₂ Issue.SameButSeverity (issues.filter (·.autoFixable))
      (issues'.filter (·.autoFixable)) := by
  refine List.rel_filter ?_ hissues
  intro issue issue' hissue
  rw [hissue]

theorem edits_eq_of_forall₂ : Issue.edits issues = Issue.edits issues' := by
  have hfixes : ∀ {found found' : List Issue}, List.Forall₂ Issue.SameButSeverity found found' →
      found.flatMap (·.fixes) = found'.flatMap (·.fixes) := by
    intro found found' hfound
    induction hfound with
    | nil => rfl
    | cons hhead _ ih => rw [List.flatMap_cons, List.flatMap_cons, ih, hhead]
  exact hfixes (forall₂_filter_autoFixable hissues)

theorem applyFixes_eq_of_forall₂ (source : String) :
    applyFixes source issues = applyFixes source issues' := by
  unfold applyFixes
  rw [edits_eq_of_forall₂ hissues]

end Issues

/-! ## Fixing in step -/

namespace Engine

variable (parse : String → Node) (overrides overrides' : SeverityOverrides) (rules : List Rule)

theorem agree_runRules (context : Context) :
    Traced.Agree (List.Forall₂ Issue.SameButSeverity) (runRules overrides rules context)
      (runRules overrides' rules context) := by
  have hrule : ∀ rule : Rule, Traced.Agree (List.Forall₂ Issue.SameButSeverity)
      (do return overrides.apply rule (← rule.check context))
      (do return overrides'.apply rule (← rule.check context)) := by
    intro rule
    refine .bind_left (rule.check context) fun issues => ?_
    exact .pure (overrides.forall₂_apply overrides' rule issues)
  refine (Traced.Agree.collect hrule rules).bind fun found found' hfound => .pure ?_
  exact StableSort.forall₂_mergeSort (List.rel_flatten hfound)
    fun a b a' b' ha hb => ha.precedes_eq hb

theorem agree_analyze (path : Path) (source : String) :
    Traced.Agree (List.Forall₂ Issue.SameButSeverity)
      (analyze ⟨parse, overrides⟩ rules path source)
      (analyze ⟨parse, overrides'⟩ rules path source) := by
  refine .bind_left (parseSource ⟨parse, overrides⟩ path source) fun context => ?_
  exact .bind_left _ fun _ => agree_runRules overrides overrides' rules context

end Engine

namespace FixRun

structure SameButSeverity (run run' : FixRun) : Prop where
  source : run.source = run'.source
  passes : run.passes = run'.passes
  fixedCount : run.fixedCount = run'.fixedCount
  issues : List.Forall₂ Issue.SameButSeverity run.issues run'.issues
  analysed : run.analysed = run'.analysed

namespace SameButSeverity

variable {run run' : FixRun} {analysis analysis' : Analysis}

theorem modified_eq (hsame : run.SameButSeverity run') (source : String) :
    run.modified source = run'.modified source := by
  unfold modified
  rw [hsame.source]

/-- Analyses that agree up to severities lead both runs through the same passes. -/
theorem agree_resume
    (hanalysis : ∀ earlier source, Traced.Agree (List.Forall₂ Issue.SameButSeverity)
      (analysis earlier source) (analysis' earlier source))
    (path : Path) (budget : Nat) (hsame : run.SameButSeverity run') :
    Traced.Agree SameButSeverity (resume analysis path budget run)
      (resume analysis' path budget run') := by
  induction budget generalizing run run' with
  | zero => exact .pure hsame
  | succ budget ih =>
      obtain ⟨source, passes, fixedCount, issues, analysed⟩ := run
      obtain ⟨source', passes', fixedCount', issues', analysed'⟩ := run'
      obtain ⟨rfl, rfl, rfl, hissues, rfl⟩ := hsame
      have hfixable := forall₂_filter_autoFixable hissues
      have hempty : (issues.filter (·.autoFixable)).isEmpty =
          (issues'.filter (·.autoFixable)).isEmpty := by
        rw [Bool.eq_iff_iff, List.isEmpty_iff_length_eq_zero, List.isEmpty_iff_length_eq_zero,
          hfixable.length_eq]
      rw [resume, resume]
      -- from here on both loops branch on the same tests and apply the same edits
      simp only [hempty, applyFixes_eq_of_forall₂ hfixable]
      split
      · exact .pure ⟨rfl, rfl, rfl, hissues, rfl⟩
      · refine .bind_left _ fun text => ?_
        split
        · exact .pure ⟨rfl, rfl, rfl, hissues, rfl⟩
        · refine (hanalysis _ text).bind fun found found' hfound => ?_
          have hnext : SameButSeverity
              ⟨text, passes + 1, fixedCount + (issues.length - found.length), found,
                analysed ++ [text]⟩
              ⟨text, passes + 1, fixedCount + (issues'.length - found'.length), found',
                analysed ++ [text]⟩ :=
            ⟨rfl, rfl, by rw [hissues.length_eq, hfound.length_eq], hfound, rfl⟩
          split
          · exact .bind_left _ fun _ => ih hnext
          · exact ih hnext

end SameButSeverity

end FixRun

theorem Engine.agree_fix
    (parse : String → Node) (overrides overrides' : SeverityOverrides) (rules : List Rule)
    (path : Path) (maxPasses : Int) (source : String) :
    Traced.Agree FixRun.SameButSeverity (fix ⟨parse, overrides⟩ rules path maxPasses source)
      (fix ⟨parse, overrides'⟩ rules path maxPasses source) := by
  have hanalyze := agree_analyze parse overrides overrides' rules path
  refine (hanalyze source).bind fun issues issues' hissues => ?_
  exact FixRun.SameButSeverity.agree_resume (fun _ text => hanalyze text) path maxPasses.toNat
    ⟨rfl, rfl, rfl, hissues, rfl⟩

/-! ## Configurations that differ in their severities -/

def Settings.SameButSeverity (settings settings' : Settings) : Prop :=
  settings' = { settings with severity := settings'.severity }

def Config.SameButSeverity (config config' : Config) : Prop :=
  config'.source = config.source ∧ config.settings.SameButSeverity config'.settings

/-- The tables differ at most in the levels under `severity`, and all of these are proper. -/
structure Toml.Table.SameButLevels (table table' : Toml.Table) : Prop where
  lookup : ∀ key, key ≠ "severity" → table'.lookup key = table.lookup key
  levels : Settings.IsLevels (table.lookup "severity")
  levels' : Settings.IsLevels (table'.lookup "severity")

theorem Settings.agree_ofTable
    {table table' : Toml.Table} (hsame : table.SameButLevels table') :
    Outcome.Agree SameButSeverity (ofTable table) (ofTable table') := by
  have hlevels := (readLevels_snd_eq_nil_iff "severity" _).mpr hsame.levels
  have hlevels' := (readLevels_snd_eq_nil_iff "severity" _).mpr hsame.levels'
  unfold ofTable
  simp only [hsame.lookup "select" (by decide), hsame.lookup "ignore" (by decide),
    hsame.lookup "exclude" (by decide), hlevels, hlevels']
  split
  · exact .ok rfl
  · exact .error _

namespace Config

/-- The table that the file at `path` holds settings in. -/
def readSection (files : FileSystem) (path : Path) : Except ConfigError Toml.Table := do
  let content ← (files.read path).mapError (.unreadable path)
  let text ← (decode content).mapError .illFormedText
  match Toml.parse text with
  | .error .malformed => throw (.malformed path text)
  | .error e => throw (.beyondLimit e)
  | .ok document => sectionOf document

theorem readSettings_eq (files : FileSystem) (path : Path) :
    readSettings files path =
      readSection files path >>= fun table =>
        (Settings.ofTable table).mapError (.invalid path) := by
  unfold readSettings readSection
  cases files.read path with
  | error e => rfl
  | ok content =>
      simp only [Except.mapError, bind, Except.bind]
      cases decode content with
      | error e => rfl
      | ok text =>
          simp only
          cases Toml.parse text with
          | error e => cases e <;> rfl
          | ok document => rfl

namespace SameButSeverity

variable {config config' : Config} (hsame : config.SameButSeverity config')

include hsame

theorem override (select ignore : List String) :
    (config.override select ignore).SameButSeverity (config'.override select ignore) := by
  refine ⟨hsame.1, ?_⟩
  unfold Settings.SameButSeverity Config.override
  rw [hsame.2]

theorem collect_eq [StackRoom] (files : FileSystem) (paths : List Path) :
    config'.collect files paths = config.collect files paths := by
  unfold collect excludes
  rw [hsame.2]

theorem enabledRules_eq (registry : Registry) :
    config'.enabledRules registry = config.enabledRules registry := by
  unfold enabledRules
  rw [hsame.2]

end SameButSeverity

theorem agree_load
    {files files' : FileSystem} {configPath : Option Path}
    (houtline : files'.outline = files.outline)
    (hsection : ∀ path, configPath = some path →
      Outcome.Agree Toml.Table.SameButLevels (readSection files path) (readSection files' path)) :
    Traced.Agree SameButSeverity (load files configPath) (load files' configPath) := by
  have hrefl : SameButSeverity default default := ⟨rfl, rfl⟩
  cases configPath with
  | none => exact .pure hrefl
  | some path =>
      rw [load_some, load_some, isSome_get?_eq_of_outline_eq houtline]
      refine .bind_left _ fun found => ?_
      split
      · have hsettings : Outcome.Agree Settings.SameButSeverity (readSettings files path)
            (readSettings files' path) := by
          rw [readSettings_eq, readSettings_eq]
          refine (hsection path rfl).bind fun table table' htable => ?_
          exact (Settings.agree_ofTable htable).mapError (ConfigError.invalid path)
        refine (Traced.Agree.ofExcept hsettings).bind fun settings settings' hsame => ?_
        exact .bind_left _ fun _ => .pure ⟨rfl, hsame⟩
      · exact .pure hrefl

end Config

namespace CommandLine

structure Plan.SameButSeverity (plan plan' : Plan) : Prop where
  config : plan.config.SameButSeverity plan'.config
  targets : plan'.targets = plan.targets

namespace LintOptions

variable {options : LintOptions} {files files' : FileSystem} {config config' : Config}

theorem agree_planTargets [StackRoom]
    (houtline : files'.outline = files.outline) (hsame : config.SameButSeverity config') :
    Outcome.Agree Plan.SameButSeverity (options.planTargets files config)
      (options.planTargets files' config') := by
  have hoverride := hsame.override options.select options.ignore
  have htargets : ∀ paths,
      targets (config'.override options.select options.ignore) files' paths =
        targets (config.override options.select options.ignore) files paths := by
    intro paths
    rw [← targets_outline, houtline, targets_outline]
    unfold targets
    simp only [hoverride.collect_eq]
  simp only [planTargets, htargets]
  split
  · exact .error _
  · split
    · exact .error _
    · exact .error _
    · exact .ok ⟨hoverride, rfl⟩

theorem agree_plan [StackRoom]
    (houtline : files'.outline = files.outline)
    (hsection : ∀ path, options.configPath files = .ok (some path) →
      Outcome.Agree Toml.Table.SameButLevels (Config.readSection files path)
        (Config.readSection files' path)) :
    Traced.Agree Plan.SameButSeverity (options.plan files) (options.plan files') := by
  have hload : Traced.Agree Config.SameButSeverity (options.loadConfig files)
      (options.loadConfig files') := by
    unfold loadConfig
    rw [configPath_eq_of_outline_eq houtline]
    cases hpath : options.configPath files with
    | error e => exact .ofExcept (.error _)
    | ok configPath =>
        refine (Config.agree_load houtline ?_).mapError Refusal.config
        rintro path rfl
        exact hsection path hpath
  refine hload.bind fun config config' hsame => .ofExcept ?_
  exact agree_planTargets houtline hsame

end LintOptions

end CommandLine

/-! ## Reports that differ in severities -/

def ReportedIssue.SameButSeverity (issue issue' : ReportedIssue) : Prop :=
  issue' = { issue with severity := issue'.severity }

theorem Report.select_info (issues : List Issue) :
    select .info issues = (issues.map ReportedIssue.ofIssue).mergeSort ReportedIssue.precedes := by
  rw [select, List.filter_eq_self]
  intro issue _
  exact decide_eq_true (Nat.zero_le issue.severity.rank)

/-- Reports that leave nothing out list corresponding issues in the same order. -/
theorem Report.forall₂_select_info
    {issues issues' : List Issue} (hissues : List.Forall₂ Issue.SameButSeverity issues issues') :
    List.Forall₂ ReportedIssue.SameButSeverity (select .info issues) (select .info issues') := by
  have hshown : List.Forall₂ ReportedIssue.SameButSeverity (issues.map ReportedIssue.ofIssue)
      (issues'.map ReportedIssue.ofIssue) := by
    rw [List.forall₂_map_left_iff, List.forall₂_map_right_iff]
    refine hissues.imp ?_
    intro issue issue' hissue
    rw [ReportedIssue.SameButSeverity, hissue]
    rfl
  rw [select_info, select_info]
  refine StableSort.forall₂_mergeSort hshown ?_
  intro a b a' b' ha hb
  rw [ha, hb]
  rfl

/-- From a level on a report shows the issues of that level and above, out of all. -/
theorem Report.select_eq_filter (least : Severity) (issues : List Issue) :
    select least issues =
      (select .info issues).filter fun issue => least.rank ≤ issue.severity.rank := by
  rw [select_info, select]

end RubyLint
