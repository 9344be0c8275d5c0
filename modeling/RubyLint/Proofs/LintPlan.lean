import RubyLint.Proofs.FixThenLint
import Mathlib.Tactic

/-!
# What a run does before and after its targets

A run first settles on a configuration and on its targets.  This ends with a plan, or the run is
refused and leaves all files alone; whether and how issues are to be fixed has no part in it.  Then
the run works through the targets, and at last it tells what it has come to.  The three stages are
stated here one by one, and the run is put together from them.
-/

namespace RubyLint

open Text

theorem Traced.log_bind_ofExcept
    {ε α β : Type} (x : Traced ε α) (next : α → Except ε β) :
    (x >>= fun a => ofExcept (next a)).log = x.log := by
  show (Traced.bind x _).log = x.log
  unfold Traced.bind ofExcept
  cases x.outcome with
  | error e => rfl
  | ok a => exact List.append_nil x.log

namespace CommandLine

/-- What a run works on. -/
structure Plan where
  config : Config
  targets : List Path

/-- What ends a run before its first target. -/
inductive Refusal where
  | config (e : ConfigError)
  | reported (message : String)
  | path (e : FileError)

namespace Refusal

def ending (texts : ConfigTexts) : Refusal → Ending
  | .config e => if (e.report? texts).isSome then .exit 2 else .abort (.config e)
  | .reported _ => .exit 2
  | .path e => .abort (.path e)

def errors (texts : ConfigTexts) : Refusal → List String
  | .config e => ((e.report? texts).map errorText).toList
  | .reported message => [errorText message]
  | .path _ => []

end Refusal

namespace LintOptions

def loadConfig (options : LintOptions) (files : FileSystem) : Traced Refusal Config := do
  let configPath ← Traced.ofExcept ((options.configPath files).mapError .path)
  (Config.load files configPath).mapError .config

def planTargets [StackRoom] (options : LintOptions) (files : FileSystem) (config : Config) :
    Except Refusal Plan :=
  let config := config.override options.select options.ignore
  if options.files.isEmpty then .error (.reported "Provide files or directories to lint")
  else
    match targets config files (options.files.map Path.ofString) with
    | .error e => .error (.path e)
    | .ok (.error path) => .error (.reported ("No such file or directory: " ++ toString path))
    | .ok (.ok targets) => .ok ⟨config, targets⟩

/-- What a run with these options works on, or what refuses it. -/
def plan [StackRoom] (options : LintOptions) (files : FileSystem) : Traced Refusal Plan := do
  let config ← options.loadConfig files
  Traced.ofExcept (options.planTargets files config)

end LintOptions

namespace Plan

def engine (plan : Plan) (tools : Tools) : Engine :=
  ⟨tools.parse, plan.config.settings.severity⟩

def rules [StackRoom] (plan : Plan) : List Rule :=
  plan.config.enabledRules .builtin

/-- How far a run has come with its last target. -/
def progress [StackRoom] (plan : Plan) (tools : Tools) (mode : Mode) (files : FileSystem) :
    Progress :=
  (Progress.start files).lintTargets (plan.engine tools) plan.rules mode plan.targets

end Plan

/-- What is left of a run that has come so far and then stops. -/
def Progress.outcome (progress : Progress) (verbose : Bool) (format : String) (least : Severity)
    (log : List Log.Entry) (checked : Nat) : Outcome :=
  let errors := shownLog verbose (log ++ progress.log)
  match progress.error with
  | some e =>
    ⟨.ofError e, progress.output, errors ++ (e.report?.map errorText).toList, progress.files⟩
  | none =>
    let reported := Report.select least progress.issues
    ⟨.exit (if reported.isEmpty then 0 else 1),
      (progress.print (reportText format reported progress.issues.length checked
        progress.fixedTotal)).output, errors, progress.files⟩

/-- After `shown` the run ends with the report on `issues`. -/
structure Outcome.Concludes (outcome : Outcome) (format : String) (least : Severity)
    (shown : String) (issues : List Issue) (checked fixed : Nat) : Prop where
  ending : outcome.ending = .exit (if (Report.select least issues).isEmpty then 0 else 1)
  output : outcome.output = shown ++ withoutControlSequences
    (reportText format (Report.select least issues) issues.length checked fixed)

section Outcome

variable (progress : Progress) (verbose : Bool) (format : String) (least : Severity)
  (log : List Log.Entry) (checked : Nat)

theorem Progress.files_outcome :
    (progress.outcome verbose format least log checked).files = progress.files := by
  unfold outcome
  cases progress.error <;> rfl

theorem Progress.ending_outcome_of_error {e : LintError} (herror : progress.error = some e) :
    (progress.outcome verbose format least log checked).ending = .ofError e := by
  unfold outcome
  simp only [herror]

theorem Progress.exists_ending_outcome (hnone : progress.error = none) :
    ∃ code, code ≠ 2 ∧
      (progress.outcome verbose format least log checked).ending = .exit code := by
  unfold outcome
  simp only [hnone]
  refine ⟨_, ?_, rfl⟩
  split <;> decide

theorem Progress.concludes_outcome (hnone : progress.error = none) :
    (progress.outcome verbose format least log checked).Concludes format least progress.output
      progress.issues checked progress.fixedTotal := by
  unfold outcome
  simp only [hnone]
  exact ⟨rfl, rfl⟩

end Outcome

variable [StackRoom] {tools : Tools} {verbose : Bool} {options : LintOptions} {least : Severity}
  {files : FileSystem}

theorem lintTargets_eq_outcome (config : Config) (log : List Log.Entry) (targets : List Path) :
    lintTargets tools verbose options least config log files targets =
      ((⟨config, targets⟩ : Plan).progress tools options.mode files).outcome verbose options.format
        least log targets.length := by
  unfold lintTargets Progress.outcome
  simp only [Plan.progress, Plan.engine, Plan.rules]
  cases ((Progress.start files).lintTargets ⟨tools.parse, config.settings.severity⟩
      (config.enabledRules .builtin) options.mode targets).error with
  | none => rfl
  | some e =>
      simp only [Ending.ofError]
      cases e.report? with
      | none => simp
      | some message => rfl

theorem lintWith_eq (configPath : Option Path) :
    lintWith tools verbose options least files configPath =
      match (Config.load files configPath).outcome with
      | .error e => ⟨(Refusal.config e).ending tools.texts, "",
          shownLog verbose (Config.load files configPath).log ++
            (Refusal.config e).errors tools.texts, files⟩
      | .ok config =>
        match options.planTargets files config with
        | .error refusal => ⟨refusal.ending tools.texts, "",
            shownLog verbose (Config.load files configPath).log ++ refusal.errors tools.texts,
            files⟩
        | .ok plan => (plan.progress tools options.mode files).outcome verbose options.format least
            (Config.load files configPath).log plan.targets.length := by
  unfold lintWith
  cases hload : (Config.load files configPath).outcome with
  | error e =>
      simp only [hload, Refusal.ending, Refusal.errors]
      cases e.report? tools.texts with
      | some message => rfl
      | none => simp
  | ok config =>
      simp only [hload, LintOptions.planTargets]
      cases options.files.isEmpty with
      | true => rfl
      | false =>
          cases targets (config.override options.select options.ignore) files
              (options.files.map Path.ofString) with
          | error e => simp [Refusal.ending, Refusal.errors]
          | ok found =>
              cases found with
              | error path => rfl
              | ok targets =>
                  simp only [Bool.false_eq_true, if_false]
                  exact lintTargets_eq_outcome _ _ _

theorem LintOptions.log_plan (options : LintOptions) (files : FileSystem) :
    (options.plan files).log = (options.loadConfig files).log :=
  Traced.log_bind_ofExcept _ _

theorem LintOptions.planTargets_eq_ok_iff
    {config : Config} {plan : Plan} :
    options.planTargets files config = .ok plan ↔
      options.files.isEmpty = false ∧
        targets (config.override options.select options.ignore) files
          (options.files.map Path.ofString) = .ok (.ok plan.targets) ∧
        config.override options.select options.ignore = plan.config := by
  obtain ⟨config', targets'⟩ := plan
  simp only [planTargets]
  cases options.files.isEmpty with
  | true => simp
  | false =>
      cases targets (config.override options.select options.ignore) files
          (options.files.map Path.ofString) with
      | error e => simp
      | ok found =>
          cases found with
          | error path => simp
          | ok targets => simp [and_comm]

theorem LintOptions.plan_eq_ok_iff
    {plan : Plan} :
    (options.plan files).outcome = .ok plan ↔
      ∃ configPath config, options.configPath files = .ok configPath ∧
        (Config.load files configPath).outcome = .ok config ∧
        options.planTargets files config = .ok plan := by
  simp only [LintOptions.plan, loadConfig, Traced.bind_outcome_eq_ok_iff, Traced.outcome_ofExcept,
    Traced.outcome_mapError, Outcome.mapError_eq_ok_iff]
  constructor
  · rintro ⟨config, ⟨configPath, hpath, hload⟩, hplan⟩
    exact ⟨configPath, config, hpath, hload, hplan⟩
  · rintro ⟨configPath, config, hpath, hload, hplan⟩
    exact ⟨config, ⟨configPath, hpath, hload⟩, hplan⟩

/-- A run is refused, or it works through its targets and tells what it has come to. -/
theorem lint_eq_of_plan :
    lint tools verbose options least files =
      match (options.plan files).outcome with
      | .error refusal => ⟨refusal.ending tools.texts, "",
          shownLog verbose (options.plan files).log ++ refusal.errors tools.texts, files⟩
      | .ok plan => (plan.progress tools options.mode files).outcome verbose options.format least
          (options.plan files).log plan.targets.length := by
  rw [lint_eq, LintOptions.log_plan]
  unfold LintOptions.plan LintOptions.loadConfig
  cases options.configPath files with
  | error e => rfl
  | ok configPath =>
      have hlog : (Traced.ofExcept (Except.mapError Refusal.path (.ok configPath)) >>=
          fun configPath => (Config.load files configPath).mapError .config).log =
            (Config.load files configPath).log := rfl
      rw [hlog]
      simp only [lintWith_eq, Traced.outcome_bind, Traced.outcome_mapError, Traced.outcome_ofExcept,
        Except.mapError, Except.bind]
      cases (Config.load files configPath).outcome with
      | error e => rfl
      | ok config => rfl

section Run

variable {words : List String}
  (hwords : invocation? false words = some ⟨verbose, .lint options least⟩)

include hwords

theorem run_of_refusal
    {refusal : Refusal} (hplan : (options.plan files).outcome = .error refusal) :
    run tools words files = ⟨refusal.ending tools.texts, "",
      shownLog verbose (options.plan files).log ++ refusal.errors tools.texts, files⟩ := by
  simp only [run, hwords, lint_eq_of_plan, hplan]

theorem run_of_plan
    {plan : Plan} (hplan : (options.plan files).outcome = .ok plan) :
    run tools words files = (plan.progress tools options.mode files).outcome verbose options.format
      least (options.plan files).log plan.targets.length := by
  simp only [run, hwords, lint_eq_of_plan, hplan]

end Run

end CommandLine

end RubyLint
