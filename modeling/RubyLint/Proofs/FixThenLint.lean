import RubyLint.Proofs.TargetRuns
import Mathlib.Tactic

/-!
# A plain lint confirms the report of a fix

A run that fixes files reports the issues that it has kept in mind while fixing, and a later plain
lint finds its issues in the files.  The two agree.  Between the runs only the contents of targets
have changed.  So the second run finds the same configuration file with the same settings, the same
paths below the same directories, and hence the same targets, and in each target the issues that
fixing has left there.
-/

namespace RubyLint

open Text FileSystem

/-! ## What is read before the targets -/

namespace Config

variable {before after : FileSystem}

theorem firstFile_outline (files : FileSystem) (paths : List Path) :
    firstFile files.outline paths = firstFile files paths := by
  induction paths with
  | nil => rfl
  | cons path rest ih =>
      rw [firstFile, firstFile, get?_outline, ih]
      cases files.get? path with
      | error e => rfl
      | ok found =>
          cases found with
          | none => rfl
          | some tree => cases tree <;> rfl

theorem expand_outline [StackRoom] (files : FileSystem) (path : Path) :
    expand files.outline path = expand files path := by
  unfold expand
  rw [get?_outline, rubyPaths_outline]
  cases files.get? path with
  | error e => rfl
  | ok found =>
      cases found with
      | none => rfl
      | some tree => cases tree <;> rfl

theorem collect_outline [StackRoom] (config : Config) (files : FileSystem) (paths : List Path) :
    config.collect files.outline paths = config.collect files paths := by
  unfold collect
  rw [funext (expand_outline files)]

/-- Of the file itself loading looks at its settings only. -/
theorem load_some (files : FileSystem) (path : Path) :
    load files (some path) =
      Traced.ofExcept (((files.get? path).map Option.isSome).mapError .unknownFile) >>=
        fun found => if found then do
          let settings ← Traced.ofExcept (readSettings files path)
          Traced.write .debug .configuration ("Loaded configuration from " ++ toString path)
          return ⟨settings, some path⟩
        else return default := by
  unfold load
  simp only
  cases files.get? path with
  | error e => rfl
  | ok found =>
      cases found with
      | none => rfl
      | some tree => rfl

theorem isSome_get?_eq_of_outline_eq
    (houtline : after.outline = before.outline) (path : Path) :
    (after.get? path).map Option.isSome = (before.get? path).map Option.isSome := by
  have hsome : ∀ files : FileSystem, (files.outline.get? path).map Option.isSome =
      (files.get? path).map Option.isSome := by
    intro files
    rw [get?_outline]
    cases files.get? path with
    | error e => rfl
    | ok found => simp [Except.map]
  rw [← hsome after, houtline, hsome]

theorem load_eq_of_outline_eq
    {configPath : Option Path} (houtline : after.outline = before.outline)
    (hread : ∀ path, configPath = some path → after.read path = before.read path) :
    load after configPath = load before configPath := by
  cases configPath with
  | none => rfl
  | some path =>
      have hsettings : readSettings after path = readSettings before path := by
        unfold readSettings
        rw [hread path rfl]
      rw [load_some, load_some, hsettings, isSome_get?_eq_of_outline_eq houtline]

end Config

namespace CommandLine

theorem mapM_get?_outline (files : FileSystem) (paths : List Path) :
    paths.mapM files.outline.get? =
      (List.map (Option.map FileTree.outline)) <$> paths.mapM files.get? := by
  induction paths with
  | nil => rfl
  | cons path rest ih =>
      rw [List.mapM_cons, List.mapM_cons, ih, get?_outline]
      cases files.get? path with
      | error e => rfl
      | ok found =>
          cases rest.mapM files.get? with
          | error e => rfl
          | ok others => rfl

theorem missing?_outline (files : FileSystem) (paths : List Path) :
    missing? files.outline paths = missing? files paths := by
  unfold missing?
  rw [mapM_get?_outline]
  cases paths.mapM files.get? with
  | error e => rfl
  | ok found =>
      have hnone : (fun place : Path × Option FileTree => place.2.isNone) ∘
          Prod.map id (Option.map FileTree.outline) = fun place => place.2.isNone := by
        funext place
        simp
      simp only [Functor.map, Except.map, bind, Except.bind, List.zip_map_right, List.find?_map,
        hnone, Option.map_map]
      rfl

theorem targets_outline [StackRoom] (config : Config) (files : FileSystem) (paths : List Path) :
    targets config files.outline paths = targets config files paths := by
  unfold targets
  rw [missing?_outline, Config.collect_outline]

/-- The configuration file that a run with these options looks at. -/
def LintOptions.configPath (options : LintOptions) (files : FileSystem) :
    Except FileError (Option Path) :=
  match options.config with
  | some path => .ok (some (Path.ofString path))
  | none => Config.find files (Path.ofString ".")

theorem lint_eq [StackRoom] (tools : Tools) (verbose : Bool) (options : LintOptions)
    (least : Severity) (files : FileSystem) :
    lint tools verbose options least files =
      match options.configPath files with
      | .ok configPath => lintWith tools verbose options least files configPath
      | .error e => ⟨.abort (.path e), "", [], files⟩ := by
  unfold lint LintOptions.configPath
  cases options.config with
  | none => rfl
  | some path => rfl

theorem LintOptions.configPath_eq_of_outline_eq
    {before after : FileSystem} (houtline : after.outline = before.outline)
    (options : LintOptions) :
    options.configPath after = options.configPath before := by
  unfold configPath Config.find
  rw [← Config.firstFile_outline after, houtline, Config.firstFile_outline]

/-- With these options a run works on `targets`. -/
def LintOptions.Targets [StackRoom] (options : LintOptions) (files : FileSystem)
    (targets : List Path) : Prop :=
  ∃ configPath config, options.configPath files = .ok configPath ∧
    (Config.load files configPath).outcome = .ok config ∧
    CommandLine.targets (config.override options.select options.ignore) files
      (options.files.map Path.ofString) = .ok (.ok targets)

/-- No file is named by two targets, and the configuration file by none. -/
structure LintOptions.Apart (options : LintOptions) (files : FileSystem) (targets : List Path) :
    Prop where
  pairwise : targets.Pairwise fun target other => ¬ files.SamePlace target other
  configFile : ∀ path, options.configPath files = .ok (some path) →
    ∀ target ∈ targets, ¬ files.SamePlace target path

/-! ## The two reports -/

section

variable [StackRoom] {tools : Tools} {verbose : Bool} {options : LintOptions} {least : Severity}
  {config : Config} {log : List Log.Entry} {files : FileSystem} {targets : List Path}

/-- A run ends with the report on `issues`, after the notices about the fixed files. -/
structure Outcome.Reports (outcome : Outcome) (format : String) (least : Severity)
    (issues : List Issue) (checked : Nat) (fixed : List (Path × Nat)) : Prop where
  ending : outcome.ending = .exit (if (Report.select least issues).isEmpty then 0 else 1)
  output : outcome.output = Progress.noticeText fixed ++ withoutControlSequences
    (reportText format (Report.select least issues) issues.length checked (fixed.map (·.2)).sum)

theorem lintTargets_reports
    {final : Progress} {issues : List Issue} {fixed : List (Path × Nat)}
    (hfinal : (Progress.start files).lintTargets ⟨tools.parse, config.settings.severity⟩
      (config.enabledRules .builtin) options.mode targets = final)
    (herror : final.error = none) (hissues : final.issues = issues)
    (houtput : final.output = Progress.noticeText fixed)
    (htotal : final.fixedTotal = (fixed.map (·.2)).sum) :
    (lintTargets tools verbose options least config log files targets).Reports options.format least
        issues targets.length fixed ∧
      (lintTargets tools verbose options least config log files targets).files = final.files := by
  unfold lintTargets
  simp only [hfinal, herror]
  subst hissues
  refine ⟨⟨rfl, ?_⟩, trivial⟩
  simp only [Progress.print, houtput, htotal]

/-- How a run ends that a target stops. -/
def Ending.ofError (e : LintError) : Ending :=
  if e.report?.isSome then .exit 2 else .abort (.target e)

theorem lintTargets_ending_of_error
    {e : LintError}
    (herror : ((Progress.start files).lintTargets ⟨tools.parse, config.settings.severity⟩
      (config.enabledRules .builtin) options.mode targets).error = some e) :
    (lintTargets tools verbose options least config log files targets).ending = .ofError e := by
  unfold lintTargets Ending.ofError
  simp only [herror]
  cases e.report? <;> rfl

/-- A run that is not stopped has come through all its targets. -/
theorem error_eq_none_of_ending
    (hending : (lintTargets tools verbose options least config log files targets).ending ≠ .exit 2)
    (hfailed : ∀ e, (lintTargets tools verbose options least config log files targets).ending ≠
      .abort (.target e)) :
    ((Progress.start files).lintTargets ⟨tools.parse, config.settings.severity⟩
      (config.enabledRules .builtin) options.mode targets).error = none := by
  cases herror : ((Progress.start files).lintTargets ⟨tools.parse, config.settings.severity⟩
      (config.enabledRules .builtin) options.mode targets).error with
  | none => rfl
  | some e =>
      rw [lintTargets_ending_of_error herror] at hending hfailed
      unfold Ending.ofError at hending hfailed
      split at hending
      next => exact absurd rfl hending
      next hbroken => exact absurd (if_neg hbroken) (hfailed e)

theorem lintTargets_exits
    (hnone : ((Progress.start files).lintTargets ⟨tools.parse, config.settings.severity⟩
      (config.enabledRules .builtin) options.mode targets).error = none) :
    ∃ code, code ≠ 2 ∧
      (lintTargets tools verbose options least config log files targets).ending = .exit code := by
  unfold lintTargets
  simp only [hnone]
  refine ⟨_, ?_, rfl⟩
  split <;> decide

/-- Fixing targets and linting them again gives the same report. -/
theorem lintTargets_fix_then_lint
    {first : Outcome} (log' : List Log.Entry) (hfix : options.fix = true)
    (hdiff : options.diff = false)
    (hapart : targets.Pairwise fun target other => ¬ files.SamePlace target other)
    (hfirst : lintTargets tools verbose options least config log files targets = first)
    (hending : first.ending ≠ .exit 2) (hfailed : ∀ e, first.ending ≠ .abort (.target e)) :
    ∃ issues fixed, (fixed.map (·.1)).Sublist targets ∧ Rewritten targets files first.files ∧
      first.Reports options.format least issues targets.length fixed ∧
      (lintTargets tools verbose { options with fix := false } least config log' first.files
        targets).Reports options.format least issues targets.length [] ∧
      (lintTargets tools verbose { options with fix := false } least config log' first.files
        targets).files = first.files := by
  have hmode : options.mode = .fix := by simp [LintOptions.mode, hfix, hdiff]
  have hmode' : LintOptions.mode { options with fix := false } = .lint := by
    simp [LintOptions.mode, hdiff]
  let engine : Engine := ⟨tools.parse, config.settings.severity⟩
  let rules := config.enabledRules .builtin
  have hrules : ∀ rule ∈ rules, rule.WritesUnified :=
    fun rule hrule => Config.writesUnified_of_mem_enabledRules hrule
  have herror : ((Progress.start files).lintTargets engine rules .fix targets).error = none := by
    rw [← hfirst] at hending hfailed
    rw [← hmode]
    exact error_eq_none_of_ending hending hfailed
  obtain ⟨found, fixed, hfixes⟩ :=
    @Progress.exists_fixes engine rules (.start files) targets hrules hapart herror
  obtain ⟨hreports, hfiles⟩ := @lintTargets_reports _ tools verbose options least config log files
    targets _ found.flatten fixed (by rw [hmode]) herror
    (by simpa [Progress.start] using hfixes.issues)
    (by simpa [Progress.start] using hfixes.output)
    (by simpa [Progress.start] using hfixes.fixedTotal)
  rw [hfirst] at hreports hfiles
  have hanalyzed := hfixes.analyzed
  have hrewritten := hfixes.files
  rw [← hfiles] at hanalyzed hrewritten
  obtain ⟨log'', hlint⟩ := @Progress.lintTargets_lint engine rules (.start first.files) targets
    found rfl hanalyzed
  rw [← hmode'] at hlint
  obtain ⟨hreports', hfiles'⟩ := @lintTargets_reports _ tools verbose { options with fix := false }
    least config log' first.files targets _ found.flatten [] hlint rfl rfl rfl rfl
  exact ⟨found.flatten, fixed, hfixes.targets, hrewritten, hreports, hreports', hfiles'⟩

/-- `second` says the same as `first`, which has fixed its targets: both come to no report, or both
report the same issues. -/
inductive Outcome.Repeats [StackRoom] (options : LintOptions) (least : Severity)
    (files : FileSystem) (first second : Outcome) : Prop
  | aborted {reason : Breakdown} (hending : first.ending = .abort reason) (hsame : second = first)
  | reported {targets : List Path} {issues : List Issue} {fixed : List (Path × Nat)}
      (htargets : options.Targets files targets) (hfixed : (fixed.map (·.1)).Sublist targets)
      (hfirst : first.Reports options.format least issues targets.length fixed)
      (hsecond : second.Reports options.format least issues targets.length [])
      (hfiles : second.files = first.files)

theorem Outcome.Repeats.ending_eq
    {first second : Outcome}
    (hrepeats : Outcome.Repeats options least files first second) :
    second.ending = first.ending := by
  cases hrepeats with
  | aborted _ hsame => rw [hsame]
  | reported _ _ hfirst hsecond _ => rw [hfirst.ending, hsecond.ending]

theorem lintWith_of_targets
    {configPath : Option Path} (hload : (Config.load files configPath).outcome = .ok config)
    (hfiles : options.files.isEmpty = false)
    (htargets : CommandLine.targets (config.override options.select options.ignore) files
      (options.files.map Path.ofString) = .ok (.ok targets)) :
    lintWith tools verbose options least files configPath =
      lintTargets tools verbose options least (config.override options.select options.ignore)
        (Config.load files configPath).log files targets := by
  unfold lintWith
  simp only [hload, hfiles, htargets, Bool.false_eq_true, if_false]

/-- A run comes to its targets, or it ends before in a way that fixing has no part in. -/
theorem lintWith_cases
    (tools : Tools) (verbose : Bool) (options : LintOptions) (least : Severity)
    (files : FileSystem) (configPath : Option Path) :
    (∃ reason errors, ∀ fix, lintWith tools verbose { options with fix := fix } least files
        configPath = ⟨.abort reason, "", errors, files⟩) ∨
      (lintWith tools verbose options least files configPath).ending = .exit 2 ∨
      ∃ config targets, (Config.load files configPath).outcome = .ok config ∧
        options.files.isEmpty = false ∧
        CommandLine.targets (config.override options.select options.ignore) files
          (options.files.map Path.ofString) = .ok (.ok targets) := by
  cases hload : (Config.load files configPath).outcome with
  | error e =>
      cases hreport : e.report? tools.texts with
      | some message => exact .inr (.inl (by simp [lintWith, hload, hreport]))
      | none =>
          refine .inl ⟨.config e, shownLog verbose (Config.load files configPath).log, ?_⟩
          intro fix
          simp only [lintWith, hload, hreport]
  | ok config =>
      by_cases hfiles : options.files.isEmpty = true
      · exact .inr (.inl (by simp [lintWith, hload, hfiles]))
      · rw [Bool.not_eq_true] at hfiles
        cases htargets : CommandLine.targets (config.override options.select options.ignore) files
            (options.files.map Path.ofString) with
        | error e =>
            refine .inl ⟨.path e, shownLog verbose (Config.load files configPath).log, ?_⟩
            intro fix
            simp only [lintWith, hload, hfiles, htargets, Bool.false_eq_true, if_false]
        | ok found =>
            cases found with
            | error path =>
                refine .inr (.inl ?_)
                simp only [lintWith, hload, hfiles, htargets, Bool.false_eq_true, if_false]
            | ok targets => exact .inr (.inr ⟨config, targets, rfl, hfiles, htargets⟩)

theorem lintWith_fix_then_lint
    {configPath : Option Path} {first : Outcome} (hfix : options.fix = true)
    (hdiff : options.diff = false)
    (hconfig : options.configPath files = .ok configPath)
    (hapart : ∀ targets, options.Targets files targets → options.Apart files targets)
    (hfirst : lintWith tools verbose options least files configPath = first)
    (hending : first.ending ≠ .exit 2) (hfailed : ∀ e, first.ending ≠ .abort (.target e)) :
    first.files.outline = files.outline ∧
      Outcome.Repeats options least files first
        (lintWith tools verbose { options with fix := false } least first.files configPath) := by
  rcases lintWith_cases tools verbose options least files configPath with
    ⟨reason, errors, habort⟩ | hrefused | ⟨config, targets, hload, hfiles, htargets⟩
  · have hfirst' : first = ⟨.abort reason, "", errors, files⟩ := by
      rw [← hfirst]
      exact habort options.fix
    subst hfirst'
    exact ⟨rfl, .aborted rfl (habort false)⟩
  · rw [hfirst] at hrefused
    exact absurd hrefused hending
  · have hworksOn : options.Targets files targets := ⟨configPath, config, hconfig, hload, htargets⟩
    obtain ⟨hpairwise, hconfigFile⟩ := hapart targets hworksOn
    rw [lintWith_of_targets hload hfiles htargets] at hfirst
    obtain ⟨issues, fixed, hfixed, hrewritten, hreports, hagain⟩ :=
      lintTargets_fix_then_lint (Config.load first.files configPath).log hfix hdiff hpairwise hfirst
        hending hfailed
    have hload' : Config.load first.files configPath = Config.load files configPath := by
      apply Config.load_eq_of_outline_eq hrewritten.outline
      rintro path rfl
      exact hrewritten.read (hconfigFile path hconfig)
    have htargets' : CommandLine.targets (config.override options.select options.ignore) first.files
        (options.files.map Path.ofString) = .ok (.ok targets) := by
      rw [← targets_outline, hrewritten.outline, targets_outline, htargets]
    have hsecond := @lintWith_of_targets _ tools verbose { options with fix := false } least config
      first.files targets configPath (by rw [hload', hload]) hfiles htargets'
    rw [hsecond]
    exact ⟨hrewritten.outline, .reported hworksOn hfixed hreports hagain.1 hagain.2⟩

end

/-! ## A line with a carriage return -/

/-- The tree of a line that is a call of `gsub`. -/
def lineTree : Node :=
  ⟨0, "program", 0, 17, true, false, false, none,
    [⟨0, "call", 0, 16, true, false, false, none,
      [.leaf "identifier" 0 1 true (some "receiver"), .leaf "." 1 2 false (some "operator"),
        .leaf "identifier" 2 6 true (some "method"),
        ⟨0, "argument_list", 6, 16, true, false, false, some "arguments",
          [.leaf "(" 6 7 false none, .leaf "string" 7 10 true none, .leaf "," 10 11 false none,
            .leaf "string" 12 15 true none, .leaf ")" 15 16 false none]⟩]⟩]⟩

def lineTools : Tools := ⟨fun _ => lineTree, fun _ => "", fun _ => ""⟩

def lineFiles : FileSystem where
  root := .directory [("work", .directory [("line.rb", .file (bytes "s.gsub('a', 'b')\r\n"))])]
  workingDirectory := ["work"]
  access _ := .full

def linePath : Path := ⟨"/", ["work", "line.rb"]⟩

def lineIssue : Issue :=
  ⟨linePath, 1, 3, "P001", "Use `tr` instead of `gsub`.", .warning, true,
    some "gsub('a', 'b')", 2, 16, [⟨2, 16, "tr('a', 'b')"⟩]⟩

/-- The first pass writes the call anew, and then there is nothing left to fix. -/
theorem fix_of_lineIssue
    {engine : Engine} {before after : String}
    (hbefore : (engine.analyze Registry.builtin.rules linePath before).outcome = .ok [lineIssue])
    (hafter : (engine.analyze Registry.builtin.rules linePath after).outcome = .ok [])
    (happly : (applyFixes before [lineIssue]).outcome = .ok after) (hne : after ≠ before) :
    (engine.fix Registry.builtin.rules linePath FixRun.defaultMaxPasses before).outcome =
      .ok ((FixRun.initial before [lineIssue]).afterPass after []) := by
  refine FixRun.start_eq_ok_iff.mpr ⟨[lineIssue], hbefore, ?_⟩
  have hpass : FixRun.Pass (engine.analysis Registry.builtin.rules linePath)
      (.initial before [lineIssue]) _ := .intro happly hne hafter
  exact (FixRun.resume_of_pass linePath hpass).trans
    (by rw [FixRun.resume_of_nothingFixable linePath rfl]; rfl)

theorem exists_fix_line :
    ∃ run, (Engine.fix ⟨fun _ => lineTree, []⟩ Registry.builtin.rules linePath
      FixRun.defaultMaxPasses "s.gsub('a', 'b')\n").outcome = .ok run := by
  have hordered : Edit.inOrder lineIssue.fixes = lineIssue.fixes := List.mergeSort_singleton _
  have hedits : Issue.edits [lineIssue] = lineIssue.fixes := rfl
  refine ⟨_, @fix_of_lineIssue _ _ "s.tr('a', 'b')\n" ?_ ?_ ?_ (by decide)⟩
  · exact Engine.analyze_builtin_eq_ok_iff.mpr
      ⟨[lineIssue], by decide +kernel, List.mergeSort_singleton lineIssue⟩
  · exact Engine.analyze_builtin_eq_ok_iff.mpr ⟨[], by decide +kernel, List.mergeSort_nil⟩
  · rw [applyFixes_eq_applyAll, hedits]
    simp only [Edit.applyAll, hordered]
    decide +kernel

theorem exists_fixFile_lineFiles :
    ∃ run after, (Engine.fixFile ⟨fun _ => lineTree, []⟩ Registry.builtin.rules lineFiles
      linePath).outcome = .ok ("s.gsub('a', 'b')\n", run, after) := by
  obtain ⟨run, hrun⟩ := exists_fix_line
  have htext := Engine.fixText_eq_ok_iff.mpr
    ⟨(by decide +kernel : lineFiles.readText linePath = .ok "s.gsub('a', 'b')\n"), hrun⟩
  have hlocate : lineFiles.locate linePath = .ok ["work", "line.rb"] := by decide +kernel
  obtain ⟨after, hwritten⟩ :=
    Engine.exists_written hlocate rfl rfl "s.gsub('a', 'b')\n" run
  exact ⟨run, after, Engine.fixFile_eq_ok_iff.mpr ⟨htext, hwritten⟩⟩

def lineOptions : LintOptions :=
  ⟨["/work/line.rb"], none, "STYLE", true, false, [], [], "text"⟩

end CommandLine

end RubyLint
