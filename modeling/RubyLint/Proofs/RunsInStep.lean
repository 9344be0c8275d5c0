import RubyLint.Proofs.SeverityIndependence
import RubyLint.Proofs.WrittenTargets
import Mathlib.Tactic

/-!
# Runs that differ in severities

Two runs whose configurations differ only in their severities stay in step from target to target.
Each finds the same text in a target, fixes it in the same way and writes the same; what it says
about that is the same too, and the issues that it keeps for the report correspond to those of the
other run.  Only in the end the levels part them: in what severities the issues have, which of them
are reported, and with what code the run exits.
-/

namespace RubyLint

open Text FileSystem

/-! ## Files written in step -/

namespace FileSystem

/-- The file systems have the same outline and the same files at `targets`. -/
structure AgreeAt (targets : List Path) (files files' : FileSystem) : Prop where
  outline : files'.outline = files.outline
  read : ∀ target ∈ targets, files'.read target = files.read target

variable {targets : List Path} {files files' after after' : FileSystem} {path : Path}
  {text : String}

theorem AgreeAt.of_writeText
    (hagree : AgreeAt targets files files') (hwrite : files.writeText path text = .ok after)
    (hwrite' : files'.writeText path text = .ok after') : AgreeAt targets after after' := by
  have houtline : after'.outline = after.outline := by
    rw [outline_writeText hwrite', outline_writeText hwrite, hagree.outline]
  refine ⟨houtline, ?_⟩
  intro target htarget
  -- several targets may name one file, so the written text can show up at another target
  have hiff := @samePlace_iff_of_outline_eq _ _ path target hagree.outline
  by_cases hsame : files.SamePlace path target
  · refine read_eq_of_content?_eq houtline ?_
    intro place hplace
    rw [locate_eq_of_outline_eq (outline_writeText hwrite)] at hplace
    obtain ⟨place', hpath, htarget'⟩ := hsame
    cases hplace.symm.trans htarget'
    have hpath' := (locate_eq_of_outline_eq hagree.outline path).trans hpath
    rw [lookup_writeText hwrite hpath, lookup_writeText hwrite' hpath']
  · rw [read_writeText_of_not_samePlace hwrite hsame,
      read_writeText_of_not_samePlace hwrite' (hsame ∘ hiff.mp), hagree.read target htarget]

/-- A text is written to both or to none. -/
theorem AgreeAt.agree_writeText
    (hagree : AgreeAt targets files files') (path : Path) (text : String) :
    Outcome.Agree
      (fun after after' => AgreeAt targets after after' ∧
        files.writeText path text = .ok after ∧ files'.writeText path text = .ok after')
      (files.writeText path text) (files'.writeText path text) := by
  have hsame : (files'.writeText path text).map (fun _ => ()) =
      (files.writeText path text).map fun _ => () := by
    rw [← writeText_outline, hagree.outline, writeText_outline]
  cases hwrite : files.writeText path text with
  | error e =>
      cases hwrite' : files'.writeText path text with
      | error e' =>
          simp only [hwrite, hwrite', Except.map, Except.error.injEq] at hsame
          rw [hsame]
          exact .error e
      | ok after' => simp [hwrite, hwrite', Except.map] at hsame
  | ok after =>
      cases hwrite' : files'.writeText path text with
      | error e' => simp [hwrite, hwrite', Except.map] at hsame
      | ok after' => exact .ok ⟨hagree.of_writeText hwrite hwrite', rfl, rfl⟩

/-- Writes texts to paths, one after the other. -/
def writeAll (files : FileSystem) (writes : List (Path × String)) : Except FileError FileSystem :=
  writes.foldlM (fun files write => files.writeText write.1 write.2) files

theorem writeAll_singleton (files : FileSystem) (path : Path) (text : String) :
    files.writeAll [(path, text)] = files.writeText path text := by
  simp [writeAll]

theorem writeAll_append
    {middle : FileSystem} {writes : List (Path × String)}
    (hfirst : files.writeAll writes = .ok middle) (writes' : List (Path × String)) :
    files.writeAll (writes ++ writes') = middle.writeAll writes' := by
  unfold writeAll at hfirst ⊢
  rw [List.foldlM_append, hfirst]
  rfl

/-- The same texts lead from `files` to `after` and from `files'` to `after'`. -/
def WrittenAlike (files after files' after' : FileSystem) : Prop :=
  ∃ writes, files.writeAll writes = .ok after ∧ files'.writeAll writes = .ok after'

theorem WrittenAlike.refl (files files' : FileSystem) : WrittenAlike files files files' files' :=
  ⟨[], rfl, rfl⟩

theorem WrittenAlike.trans
    {middle middle' : FileSystem} (hfirst : WrittenAlike files middle files' middle')
    (hsecond : WrittenAlike middle after middle' after') :
    WrittenAlike files after files' after' := by
  obtain ⟨writes, hmiddle, hmiddle'⟩ := hfirst
  obtain ⟨writes', hafter, hafter'⟩ := hsecond
  exact ⟨writes ++ writes', (writeAll_append hmiddle writes').trans hafter,
    (writeAll_append hmiddle' writes').trans hafter'⟩

end FileSystem

namespace Engine

variable {parse : String → Node} {overrides overrides' : SeverityOverrides} {rules : List Rule}
  {files files' : FileSystem} {path : Path}

theorem agree_analyzeFile (hread : files'.readText path = files.readText path) :
    Traced.Agree (List.Forall₂ Issue.SameButSeverity)
      (analyzeFile ⟨parse, overrides⟩ rules files path)
      (analyzeFile ⟨parse, overrides'⟩ rules files' path) := by
  unfold analyzeFile
  rw [hread]
  refine .bind_left _ fun _ => .bind_left _ fun source => ?_
  exact (agree_analyze parse overrides overrides' rules path source).mapError LintError.failed

theorem agree_fixText (hread : files'.readText path = files.readText path) :
    Traced.Agree (fun fixed fixed' => fixed.1 = fixed'.1 ∧ fixed.2.SameButSeverity fixed'.2)
      (fixText ⟨parse, overrides⟩ rules files path)
      (fixText ⟨parse, overrides'⟩ rules files' path) := by
  unfold fixText
  rw [hread]
  refine .bind_left _ fun source => ?_
  refine ((agree_fix parse overrides overrides' rules path _ source).mapError
    LintError.failed).bind fun run run' hrun => ?_
  exact .pure ⟨rfl, hrun⟩

theorem agree_written
    {targets : List Path} {run run' : FixRun} (hagree : AgreeAt targets files files')
    (hrun : run.SameButSeverity run') (path : Path) (source : String) :
    Outcome.Agree
      (fun after after' => AgreeAt targets after after' ∧ WrittenAlike files after files' after')
      (written files path source run) (written files' path source run') := by
  unfold written
  rw [← hrun.source, ← hrun.modified_eq]
  split
  · refine (hagree.agree_writeText path run.source).imp ?_
    rintro after after' ⟨hafter, hwrite, hwrite'⟩
    refine ⟨hafter, [(path, run.source)], ?_, ?_⟩
    · rw [writeAll_singleton, hwrite]
    · rw [writeAll_singleton, hwrite']
  · exact .ok ⟨hagree, .refl files files'⟩

/-- Two fixed files have got the same text. -/
structure FixedAlike (targets : List Path) (files files' : FileSystem)
    (fixed fixed' : String × FixRun × FileSystem) : Prop where
  source : fixed'.1 = fixed.1
  run : fixed.2.1.SameButSeverity fixed'.2.1
  agreeAt : AgreeAt targets fixed.2.2 fixed'.2.2
  written : WrittenAlike files fixed.2.2 files' fixed'.2.2

theorem agree_fixFile
    {targets : List Path} (hagree : AgreeAt targets files files')
    (hread : files'.readText path = files.readText path) :
    Traced.Agree (FixedAlike targets files files') (fixFile ⟨parse, overrides⟩ rules files path)
      (fixFile ⟨parse, overrides'⟩ rules files' path) := by
  unfold fixFile
  refine (agree_fixText hread).bind ?_
  rintro ⟨source, run⟩ ⟨_, run'⟩ ⟨rfl, hrun⟩
  have hwritten := (agree_written hagree hrun path source).mapError (LintError.unwritable path)
  refine (Traced.Agree.ofExcept hwritten).bind fun after after' hafter => ?_
  exact .pure ⟨rfl, hrun, hafter.1, hafter.2⟩

end Engine

namespace CommandLine

namespace Progress

/-- Two runs, one on `files` and one on `files'`, have done the same so far, and the issues that
they have kept differ in nothing but severities. -/
structure InStep (targets : List Path) (files files' : FileSystem) (first second : Progress) :
    Prop where
  agreeAt : AgreeAt targets first.files second.files
  written : WrittenAlike files first.files files' second.files
  output : first.output = second.output
  log : first.log = second.log
  issues : List.Forall₂ Issue.SameButSeverity first.issues second.issues
  fixedTotal : first.fixedTotal = second.fixedTotal
  error : first.error = second.error

namespace InStep

variable {targets : List Path} {files files' : FileSystem} {first second : Progress} {path : Path}
  (hstep : InStep targets files files' first second)

include hstep

theorem addIssues
    {issues issues' : List Issue} (hissues : List.Forall₂ Issue.SameButSeverity issues issues') :
    InStep targets files files' (first.addIssues issues) (second.addIssues issues') :=
  { hstep with issues := List.rel_append hstep.issues hissues }

theorem print (message : String) :
    InStep targets files files' (first.print message) (second.print message) :=
  { hstep with output := congrArg (· ++ withoutControlSequences message) hstep.output }

theorem noteFix
    {run run' : FixRun} {after after' : FileSystem} (hrun : run.SameButSeverity run')
    (hagree : AgreeAt targets after after')
    (hwritten : WrittenAlike first.files after second.files after') :
    InStep targets files files' (first.noteFix path run after)
      (second.noteFix path run' after') := by
  unfold Progress.noteFix
  rw [← hrun.fixedCount]
  exact { hstep.print _ with
    agreeAt := hagree
    written := hstep.written.trans hwritten
    fixedTotal := congrArg (· + run.fixedCount) hstep.fixedTotal }

theorem advance
    {α α' : Type} {R : α → α' → Prop} {x : Traced LintError α} {x' : Traced LintError α'}
    {next : Progress → α → Progress} {next' : Progress → α' → Progress} (hagree : x.Agree R x')
    (hnext : ∀ log a a', R a a' →
      InStep targets files files' { first with log := log } { second with log := log } →
      InStep targets files files' (next { first with log := log } a)
        (next' { second with log := log } a')) :
    InStep targets files files' (first.advance x next) (second.advance x' next') := by
  obtain ⟨log, outcome⟩ := x
  obtain ⟨log', outcome'⟩ := x'
  obtain ⟨hlog, houtcome⟩ := hagree
  unfold Progress.advance
  simp only at hlog houtcome ⊢
  rw [← hlog, ← hstep.log]
  have hlogged : InStep targets files files' { first with log := first.log ++ log }
      { second with log := first.log ++ log } := { hstep with log := rfl }
  cases houtcome with
  | error e => exact { hlogged with error := rfl }
  | ok hrelated => exact hnext _ _ _ hrelated hlogged

theorem advance_addIssues
    {x x' : Traced LintError (List Issue)}
    (hagree : x.Agree (List.Forall₂ Issue.SameButSeverity) x') :
    InStep targets files files' (first.advance x Progress.addIssues)
      (second.advance x' Progress.addIssues) := by
  refine hstep.advance hagree ?_
  intro log issues issues' hissues hlogged
  exact hlogged.addIssues hissues

variable {parse : String → Node} {overrides overrides' : SeverityOverrides} {rules : List Rule}
  {mode : Mode}

theorem lintTarget (hpath : path ∈ targets) :
    InStep targets files files' (first.lintTarget ⟨parse, overrides⟩ rules mode path)
      (second.lintTarget ⟨parse, overrides'⟩ rules mode path) := by
  have hread : second.files.readText path = first.files.readText path := by
    unfold readText
    rw [hstep.agreeAt.read path hpath]
  unfold Progress.lintTarget
  cases mode with
  | lint => exact hstep.advance_addIssues (Engine.agree_analyzeFile hread)
  | fix =>
      refine hstep.advance (Engine.agree_fixFile hstep.agreeAt hread) ?_
      rintro log ⟨source, run, after⟩ ⟨_, run', after'⟩ ⟨rfl, hrun, hagree, hwritten⟩ hlogged
      simp only [hrun.modified_eq]
      split
      · exact (hlogged.noteFix hrun hagree hwritten).addIssues hrun.issues
      · exact hlogged.addIssues hrun.issues
  | diff =>
      refine hstep.advance (Engine.agree_fixText hread) ?_
      rintro log ⟨source, run⟩ ⟨_, run'⟩ ⟨rfl, hrun⟩ hlogged
      simp only [hrun.modified_eq]
      refine advance_addIssues ?_
        ((Engine.agree_analyze parse overrides overrides' rules path source).mapError _)
      split
      · rw [hrun.source]
        exact hlogged.print _
      · exact hlogged

theorem lintTargets
    {rest : List Path} (hrest : ∀ path ∈ rest, path ∈ targets) :
    InStep targets files files' (first.lintTargets ⟨parse, overrides⟩ rules mode rest)
      (second.lintTargets ⟨parse, overrides'⟩ rules mode rest) := by
  induction rest generalizing first second with
  | nil => exact hstep
  | cons path rest ih =>
      obtain ⟨hpath, hrest⟩ := List.forall_mem_cons.mp hrest
      cases herror : first.error with
      | none =>
          rw [lintTargets_cons herror, lintTargets_cons (hstep.error.symm.trans herror)]
          exact ih (hstep.lintTarget hpath) hrest
      | some e =>
          have hsome : first.error.isSome = true := by rw [herror]; rfl
          rw [lintTargets_of_isSome hsome, lintTargets_of_isSome (hstep.error ▸ hsome)]
          exact hstep

end InStep

end Progress

theorem Plan.SameButSeverity.inStep [StackRoom]
    {plan plan' : Plan} {files files' : FileSystem} (hsame : plan.SameButSeverity plan')
    (houtline : files'.outline = files.outline)
    (hread : ∀ target ∈ plan.targets, files'.read target = files.read target)
    (tools : Tools) (mode : Mode) :
    Progress.InStep plan.targets files files' (plan.progress tools mode files)
      (plan'.progress tools mode files') := by
  have hstart : Progress.InStep plan.targets files files' (.start files) (.start files') :=
    ⟨⟨houtline, hread⟩, .refl files files', rfl, rfl, .nil, rfl, rfl⟩
  have hrules : plan'.rules = plan.rules := hsame.config.enabledRules_eq .builtin
  unfold Plan.progress
  rw [hsame.targets, hrules]
  exact hstart.lintTargets fun path hpath => hpath

/-- Both runs end alike without a report, or they say the same and then report, each from its own
level on, out of lists of issues that differ in nothing but severities. -/
inductive Outcome.SameButSeverity (format : String) (least least' : Severity)
    (first second : Outcome) : Prop
  | unreported (hending : second.ending = first.ending) (houtput : second.output = first.output)
  | reported {shown : String} {issues issues' : List Issue} {checked fixed : Nat}
      (hissues : List.Forall₂ Issue.SameButSeverity issues issues')
      (hfirst : first.Concludes format least shown issues checked fixed)
      (hsecond : second.Concludes format least' shown issues' checked fixed)
      (hlists : List.Forall₂ ReportedIssue.SameButSeverity (Report.select .info issues)
        (Report.select .info issues'))
      (hselect : Report.select least issues =
        (Report.select .info issues).filter fun issue => least.rank ≤ issue.severity.rank)
      (hselect' : Report.select least' issues' =
        (Report.select .info issues').filter fun issue => least'.rank ≤ issue.severity.rank)

theorem Progress.InStep.outcome
    {targets : List Path} {files files' : FileSystem} {first second : Progress}
    (hstep : Progress.InStep targets files files' first second) (verbose : Bool) (format : String)
    (least least' : Severity) (log : List Log.Entry) (checked : Nat) :
    (second.outcome verbose format least' log checked).errors =
        (first.outcome verbose format least log checked).errors ∧
      Outcome.SameButSeverity format least least'
        (first.outcome verbose format least log checked)
        (second.outcome verbose format least' log checked) := by
  cases herror : first.error with
  | some e =>
      have herror' : second.error = some e := hstep.error.symm.trans herror
      simp only [Progress.outcome, herror, herror', hstep.log]
      exact ⟨trivial, .unreported rfl hstep.output.symm⟩
  | none =>
      have herror' : second.error = none := hstep.error.symm.trans herror
      have hfirst := first.concludes_outcome verbose format least log checked herror
      have hsecond := second.concludes_outcome verbose format least' log checked herror'
      rw [← hstep.output, ← hstep.fixedTotal] at hsecond
      refine ⟨by simp only [Progress.outcome, herror, herror', hstep.log], ?_⟩
      exact .reported hstep.issues hfirst hsecond (Report.forall₂_select_info hstep.issues)
        (Report.select_eq_filter least _) (Report.select_eq_filter least' _)

/-- Severities have no part in what is fixed.  Fixing a source under any two overrides gives the
same text after the same passes and with the same count, and leaves issues that differ in nothing
but severities.  So do two runs that differ in the level from which they report and in the levels
that their configuration sets: they write the same texts to the same files and say the same, but for
the severities of issues, which of them are reported and the exit code that follows from that. -/
theorem fixing_ignores_severities [StackRoom] (tools : Tools) :
    (∀ overrides overrides' rules path maxPasses source,
      Traced.Agree
        (fun run run' => run.SameButSeverity run' ∧ run.modified source = run'.modified source)
        (Engine.fix ⟨tools.parse, overrides⟩ rules path maxPasses source)
        (Engine.fix ⟨tools.parse, overrides'⟩ rules path maxPasses source)) ∧
    ∀ {words words' : List String} {verbose : Bool} {options : LintOptions} {level : String}
      {least least' : Severity} {files files' : FileSystem},
      invocation? false words = some ⟨verbose, .lint options least⟩ →
      invocation? false words' = some ⟨verbose, .lint { options with severity := level } least'⟩ →
      files'.outline = files.outline →
      (∀ path, options.configPath files = .ok (some path) →
        Outcome.Agree Toml.Table.SameButLevels (Config.readSection files path)
          (Config.readSection files' path)) →
      (∀ plan, (options.plan files).outcome = .ok plan →
        ∀ target ∈ plan.targets, files'.read target = files.read target) →
      (∃ writes, files.writeAll writes = .ok (run tools words files).files ∧
        files'.writeAll writes = .ok (run tools words' files').files) ∧
      (run tools words' files').errors = (run tools words files).errors ∧
      Outcome.SameButSeverity options.format least least' (run tools words files)
        (run tools words' files') := by
  refine ⟨?_, ?_⟩
  · intro overrides overrides' rules path maxPasses source
    refine (Engine.agree_fix tools.parse overrides overrides' rules path maxPasses source).imp ?_
    exact fun run run' hrun => ⟨hrun, hrun.modified_eq source⟩
  · intro words words' verbose options level least least' files files' hwords hwords' houtline
      hsection hread
    obtain ⟨hlog, hplans⟩ := LintOptions.agree_plan houtline hsection
    have hlevel : LintOptions.plan { options with severity := level } files' =
        options.plan files' := rfl
    generalize hplan : (options.plan files).outcome = planned,
      hplan' : (options.plan files').outcome = planned' at hplans
    cases hplans with
    | error refusal =>
        rw [run_of_refusal hwords hplan, run_of_refusal hwords' hplan', hlevel, hlog]
        exact ⟨⟨[], rfl, rfl⟩, rfl, .unreported rfl rfl⟩
    | @ok plan plan' hsame =>
        have hstep := hsame.inStep houtline (hread plan hplan) tools options.mode
        have hmode : LintOptions.mode { options with severity := level } = options.mode := rfl
        rw [run_of_plan hwords hplan, run_of_plan hwords' hplan', hlevel, hlog, hmode,
          hsame.targets]
        refine ⟨?_, hstep.outcome verbose options.format least least' _ _⟩
        rw [Progress.files_outcome, Progress.files_outcome]
        exact hstep.written

/-! ## Two levels for one rule -/

/-- A line to fix, and a configuration with some text. -/
def configuredFiles (text : String) : FileSystem where
  root := .directory [("work", .directory [(".rb-lint.toml", .file (bytes text)),
    ("line.rb", .file (bytes "s.gsub('a', 'b')\r\n"))])]
  workingDirectory := ["work"]
  access _ := .full

def errorFiles : FileSystem :=
  configuredFiles "[tool.rb-lint.severity]\nP001 = 'error'\n"

def infoFiles : FileSystem :=
  configuredFiles "[tool.rb-lint.severity]\nP001 = 'info'\n"

def tomlPath : Path := ⟨"", [".rb-lint.toml"]⟩

/-- The section that sets the level of the rule. -/
def levelSection (level : String) : Toml.Table :=
  [("severity", .table [("P001", .string level)])]

theorem outline_configuredFiles (text text' : String) :
    (configuredFiles text').outline = (configuredFiles text).outline :=
  rfl

theorem read_configuredFiles (text : String) :
    (configuredFiles text).read tomlPath = .ok (bytes text) := by
  have hlocate : (configuredFiles text).locate tomlPath = .ok ["work", ".rb-lint.toml"] := by
    rw [locate_eq_of_outline_eq (outline_configuredFiles "" text)]
    decide +kernel
  exact read_eq_ok_iff.mpr ⟨_, hlocate, rfl, rfl⟩

theorem readSection_configuredFiles
    {text : String} {entries : Toml.Table}
    (hparse : Toml.parse text = .ok [("tool", .table [("rb-lint", .table entries)])]) :
    Config.readSection (configuredFiles text) tomlPath = .ok entries := by
  unfold Config.readSection
  rw [read_configuredFiles]
  simp only [Except.mapError, bind, Except.bind, decode_bytes, hparse]
  rfl

theorem sameButLevels_levelSection
    {level level' : String} {severity severity' : Severity}
    (hlevel : severity.name = capitalize level) (hlevel' : severity'.name = capitalize level') :
    (levelSection level).SameButLevels (levelSection level') := by
  have hlevels : ∀ {level : String} {severity : Severity}, severity.name = capitalize level →
      Settings.IsLevels (some (.table [("P001", .string level)])) := by
    rintro level severity hname value ⟨⟩
    exact ⟨_, rfl, by simpa using ⟨severity, hname⟩⟩
  refine ⟨?_, hlevels hlevel, hlevels hlevel'⟩
  intro key hkey
  have hother : (key == "severity") = false := by simpa using hkey
  simp only [levelSection, List.lookup_cons, hother, List.lookup_nil]

theorem fixing_ignores_severities_of_errorFiles :
    ∃ first second,
      run lineTools ["lint", "--fix", "/work/line.rb"] errorFiles = first ∧
      run lineTools ["lint", "--fix", "--severity", "warning", "/work/line.rb"] infoFiles =
        second ∧
      (∃ writes, errorFiles.writeAll writes = .ok first.files ∧
        infoFiles.writeAll writes = .ok second.files) ∧
      second.errors = first.errors ∧
      Outcome.SameButSeverity "text" .style .warning first second := by
  have hwords : invocation? false ["lint", "--fix", "/work/line.rb"] =
      some ⟨false, .lint lineOptions .style⟩ := by decide +kernel
  have hwords' : invocation? false ["lint", "--fix", "--severity", "warning", "/work/line.rb"] =
      some ⟨false, .lint { lineOptions with severity := "warning" } .warning⟩ := by decide +kernel
  have hpath : lineOptions.configPath errorFiles = .ok (some tomlPath) := by decide +kernel
  have hsection : Config.readSection errorFiles tomlPath = .ok (levelSection "error") :=
    readSection_configuredFiles (by decide +kernel)
  have hsection' : Config.readSection infoFiles tomlPath = .ok (levelSection "info") :=
    readSection_configuredFiles (by decide +kernel)
  let config : Config := ⟨⟨["P"], [], [("P001", .error)], []⟩, some tomlPath⟩
  have hload : (Config.load errorFiles (some tomlPath)).outcome = .ok config := by decide +kernel
  have hplan : (lineOptions.plan errorFiles).outcome = .ok ⟨config, [linePath]⟩ := by
    refine LintOptions.plan_eq_ok_iff.mpr ⟨_, config, hpath, hload, ?_⟩
    exact LintOptions.planTargets_eq_ok_iff.mpr ⟨rfl, by decide +kernel, by decide +kernel⟩
  refine ⟨_, _, rfl, rfl, ?_⟩
  refine (fixing_ignores_severities lineTools).2 hwords hwords'
    (outline_configuredFiles _ _) ?_ ?_
  · intro path hsome
    cases hpath.symm.trans hsome
    rw [hsection, hsection']
    exact .ok (@sameButLevels_levelSection _ _ .error .info (by decide +kernel) (by decide +kernel))
  · intro plan hsome target htarget
    cases hplan.symm.trans hsome
    rw [List.mem_singleton] at htarget
    rw [htarget]
    decide +kernel

end CommandLine

end RubyLint
