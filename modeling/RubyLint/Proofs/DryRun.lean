import RubyLint.Proofs.ControlSequences
import RubyLint.Proofs.RuleOrder
import RubyLint.Proofs.WrittenTargets
import Mathlib.Tactic

/-!
# Showing fixes is a dry run

A run that only shows its fixes reads its targets in another way than a plain lint, fixes each of
them in memory, prints the difference and then analyses the text as it was.  On trees whose spans
lie between characters and whose constructors are not nested too deep none of the fixing can fail:
the edits start and end between characters, so what is put together from them is a text again.  Then
the two runs go through the targets side by side.  They stop at the same target, if at all, and
otherwise report the same issues; the one that shows its fixes prints the differences before the
report.  Like all that is printed, the differences lose the control sequences in them.
-/

namespace RubyLint

open Text FileSystem

/-! ## Fixing aligned sources -/

theorem exists_applyFixes
    {source : String} {issues : List Issue}
    (haligned : ∀ issue ∈ issues, ∀ edit ∈ issue.fixes, edit.Aligned source) :
    ∃ text, (applyFixes source issues).outcome = .ok text := by
  have hedits : ∀ edit ∈ Issue.edits issues, edit.Aligned source := by
    intro edit hedit
    obtain ⟨issue, hissue, hedit⟩ := List.mem_flatMap.mp hedit
    exact haligned issue (List.mem_of_mem_filter hissue) edit hedit
  obtain ⟨text, happly, -⟩ := Edit.exists_applyAll hedits
  exact ⟨text, by rw [applyFixes_eq_applyAll, happly]⟩

/-- The tree suits its source: its spans lie between characters, and there is room for its
constructors. -/
structure Node.Suits [StackRoom] (tree : Node) (source : String) : Prop where
  aligned : tree.Aligned source
  shallow : tree.Shallow (bytes source)

section

variable [StackRoom]

/-- On a source with a suitable tree the rule comes to an end, and its edits start and end between
characters. -/
def Rule.KeepsAlignment (rule : Rule) : Prop :=
  ∀ context source, context.source = bytes source → context.tree.Suits source →
    ∃ issues, (rule.check context).outcome = .ok issues ∧
      ∀ issue ∈ issues, ∀ edit ∈ issue.fixes, edit.Aligned source

theorem Rule.characterReplacement_keepsAlignment : characterReplacement.KeepsAlignment := by
  rintro context source hsource ⟨haligned, hshallow⟩
  rw [← hsource] at hshallow
  obtain ⟨findings, hfindings⟩ :=
    (replacementFindings_failsIff hsource haligned).ends (not_overflows_of_shallow context hshallow)
  have hcheck := characterReplacement_check_eq_ok_iff.mpr ⟨findings, hfindings, rfl⟩
  refine ⟨_, hcheck, ?_⟩
  intro issue hissue edit hedit
  obtain ⟨place, hplace, finding, hfinding, rfl⟩ := (mem_check_iff hcheck).mp hissue
  obtain ⟨method, hcovers⟩ := exists_covers hfinding
  have hnode := mem_tree_of_mem_walk hplace
  have hmethod := Node.within_of_mem_children (Node.mem_children_of_child? hcovers.child)
  obtain ⟨hstart, hstop⟩ := hcovers.edit_span edit hedit
  exact ⟨method.start, place.node.stop, hstart, hstop, (haligned method (hmethod.trans hnode)).1,
    (haligned place.node hnode).2⟩

theorem Config.keepsAlignment_of_mem_enabledRules
    {config : Config} {rule : Rule} (hrule : rule ∈ config.enabledRules .builtin) :
    rule.KeepsAlignment := by
  rw [eq_of_mem_enabledRules hrule]
  exact Rule.characterReplacement_keepsAlignment

namespace Engine

variable {engine : Engine} {rules : List Rule}
  (hrules : ∀ rule ∈ rules, rule.KeepsAlignment)
  (hsuits : ∀ source, (engine.parse source).Suits source)

include hrules hsuits

theorem exists_analyze (path : Path) (source : String) :
    ∃ issues, (engine.analyze rules path source).outcome = .ok issues ∧
      ∀ issue ∈ issues, ∀ edit ∈ issue.fixes, edit.Aligned source := by
  obtain ⟨issues, hissues⟩ : ∃ issues, (engine.analyze rules path source).outcome = .ok issues := by
    rw [analyze_outcome]
    simp only [runRules_eq_ok_iff_flatMap, exists_and_left, exists_eq', and_true]
    intro rule hrule
    obtain ⟨own, hown, -⟩ := hrules rule hrule (engine.context path source) source rfl
      (hsuits source)
    exact ⟨own, hown⟩
  refine ⟨issues, hissues, ?_⟩
  intro issue hissue
  obtain ⟨rule, hrule, own, hown, found, hfound, rfl⟩ := exists_found_of_analyze hissues hissue
  obtain ⟨own', hown', hedits⟩ := hrules rule hrule (engine.context path source) source rfl
    (hsuits source)
  rw [hown] at hown'
  cases hown'
  exact hedits found hfound

/-- Fixing never fails. -/
theorem exists_fix (path : Path) (maxPasses : Int) (source : String) :
    ∃ run, (engine.fix rules path maxPasses source).outcome = .ok run := by
  obtain ⟨issues, hissues, -⟩ := exists_analyze hrules hsuits path source
  have hresume : ∃ run, (FixRun.resume (engine.analysis rules path) path maxPasses.toNat
      (.initial source issues)).outcome = .ok run := by
    apply FixRun.exists_resume path
    · intro earlier text
      obtain ⟨found, hfound, -⟩ := exists_analyze hrules hsuits path text
      exact ⟨found, hfound⟩
    · intro n last _ hpasses
      -- the issues of every state are those of its text
      have hlast : (engine.analyze rules path last.source).outcome = .ok last.issues := by
        refine hpasses.invariant
          (fun run => (engine.analyze rules path run.source).outcome = .ok run.issues) ?_ hissues
        rintro run _ ⟨-, -, hfound⟩ -
        exact hfound
      obtain ⟨found, hfound, hedits⟩ := exists_analyze hrules hsuits path last.source
      rw [hlast] at hfound
      cases hfound
      apply exists_applyFixes
      intro issue hissue
      exact hedits issue (List.mem_of_mem_filter hissue)
  obtain ⟨run, hrun⟩ := hresume
  exact ⟨run, FixRun.start_eq_ok_iff.mpr ⟨issues, hissues, hrun⟩⟩

end Engine

end

/-! ## The two runs side by side -/

/-- The difference that the fixes of a text make, if they make one. -/
def FixRun.difference (run : FixRun) (path : Path) (source : String) : String :=
  if run.modified source then Diff.unified (toString path) source run.source else ""

/-- `difference` is what fixing would change in the file at `path`. -/
def Engine.Differs (engine : Engine) (rules : List Rule) (files : FileSystem) (path : Path)
    (difference : String) : Prop :=
  ∃ source run, files.readText path = .ok source ∧
    (engine.fix rules path FixRun.defaultMaxPasses source).outcome = .ok run ∧
    run.difference path source = difference

namespace CommandLine

namespace Progress

variable {engine : Engine} {rules : List Rule} {progress first second : Progress} {path : Path}
  {targets : List Path} {issues : List Issue}

theorem lintTarget_lint_of_ok
    (hissues : (engine.analyzeFile rules progress.files path).outcome = .ok issues) :
    progress.lintTarget engine rules .lint path =
      { progress with
        log := progress.log ++ (engine.analyzeFile rules progress.files path).log
        issues := progress.issues ++ issues } := by
  unfold lintTarget
  simp only [advance, hissues, addIssues]

theorem lintTarget_diff_of_ok
    {source : String} {run : FixRun}
    (hfix : (engine.fixText rules progress.files path).outcome = .ok (source, run))
    (hissues : (engine.analyze rules path source).outcome = .ok issues) :
    progress.lintTarget engine rules .diff path =
      { progress with
        output := progress.output ++ withoutControlSequences (run.difference path source)
        log := progress.log ++ (engine.fixText rules progress.files path).log ++
          (engine.analyze rules path source).log
        issues := progress.issues ++ issues } := by
  have hfailed : ((engine.analyze rules path source).mapError LintError.failed).outcome =
      .ok issues := by
    rw [Traced.outcome_mapError, hissues]
    rfl
  have hempty : withoutControlSequences "" = "" := withoutControlSequences_eq_self (by simp)
  unfold lintTarget FixRun.difference
  simp only [advance, hfix, hfailed, addIssues]
  split
  · rfl
  · simp [Traced.mapError, hempty]

/-- `first`, which shows its fixes, and `second`, a plain lint, have found the same so far. -/
structure SameFinds (first second : Progress) : Prop where
  files : first.files = second.files
  issues : first.issues = second.issues
  fixedTotal : first.fixedTotal = 0
  fixedTotal' : second.fixedTotal = 0
  error : first.error = none
  error' : second.error = none

/-- The two runs have stopped at a file that cannot be read. -/
def StopAtUnread (first second : Progress) : Prop :=
  ∃ path e, first.error = some (.unreadable e) ∧ second.error = some (.ofReadError path e)

section Suits

variable
  (hanalyze : ∀ path source, ∃ issues, (engine.analyze rules path source).outcome = .ok issues)
  (hfix : ∀ path source, ∃ run,
    (engine.fix rules path FixRun.defaultMaxPasses source).outcome = .ok run)

include hanalyze hfix

/-- Both runs stop at the target, or both go on and one of them has shown a fix. -/
theorem SameFinds.lintTarget
    (hfinds : SameFinds first second) :
    StopAtUnread (first.lintTarget engine rules .diff path)
      (second.lintTarget engine rules .lint path) ∨
    ∃ difference, engine.Differs rules first.files path difference ∧
      SameFinds (first.lintTarget engine rules .diff path)
        (second.lintTarget engine rules .lint path) ∧
      (first.lintTarget engine rules .diff path).output =
        first.output ++ withoutControlSequences difference ∧
      (second.lintTarget engine rules .lint path).output = second.output := by
  cases hread : first.files.readText path with
  | error e =>
      left
      have hread' := hread
      rw [hfinds.files] at hread'
      refine ⟨path, e, ?_, ?_⟩
      · simp [Progress.lintTarget, advance, Engine.fixText, hread, Traced.outcome_bind,
          Except.mapError, Except.bind]
      · simp [Progress.lintTarget, advance, Engine.analyzeFile, hread', Traced.outcome_bind,
          Except.mapError, Except.bind]
  | ok source =>
      right
      obtain ⟨issues, hissues⟩ := hanalyze path source
      obtain ⟨run, hrun⟩ := hfix path source
      have hread' := hread
      rw [hfinds.files] at hread'
      rw [lintTarget_diff_of_ok (Engine.fixText_eq_ok_iff.mpr ⟨hread, hrun⟩) hissues,
        lintTarget_lint_of_ok (Engine.analyzeFile_eq_ok_iff.mpr ⟨source, hread', hissues⟩)]
      exact ⟨_, ⟨source, run, hread, hrun, rfl⟩,
        { hfinds with issues := congrArg (· ++ issues) hfinds.issues }, rfl, rfl⟩

theorem SameFinds.lintTargets
    (hfinds : SameFinds first second) :
    StopAtUnread (first.lintTargets engine rules .diff targets)
      (second.lintTargets engine rules .lint targets) ∨
    ∃ differences, List.Forall₂ (engine.Differs rules first.files) targets differences ∧
      SameFinds (first.lintTargets engine rules .diff targets)
        (second.lintTargets engine rules .lint targets) ∧
      (first.lintTargets engine rules .diff targets).output =
        first.output ++ String.join (differences.map withoutControlSequences) ∧
      (second.lintTargets engine rules .lint targets).output = second.output := by
  induction targets generalizing first second with
  | nil => exact .inr ⟨[], .nil, hfinds, by simp [Progress.lintTargets], rfl⟩
  | cons path rest ih =>
      rw [lintTargets_cons hfinds.error, lintTargets_cons hfinds.error']
      rcases hfinds.lintTarget hanalyze hfix with
        ⟨path', e, herror, herror'⟩ | ⟨difference, hdiffers, hnext, hout, hout'⟩
      · left
        rw [lintTargets_of_isSome (by rw [herror]; rfl),
          lintTargets_of_isSome (by rw [herror']; rfl)]
        exact ⟨path', e, herror, herror'⟩
      · rcases ih hnext with hstopped | ⟨differences, hdifferences, hlast, hrest, hrest'⟩
        · exact .inl hstopped
        · rw [files_lintTarget (by simp)] at hdifferences
          refine .inr ⟨difference :: differences, .cons hdiffers hdifferences, hlast, ?_, ?_⟩
          · rw [hrest, hout, List.map_cons, String.join_cons, String.append_assoc]
          · rw [hrest', hout']

end Suits

theorem StopAtUnread.ending_eq
    (hstop : StopAtUnread first second) (verbose : Bool) (format : String) (least : Severity)
    (log : List Log.Entry) (checked : Nat) :
    (first.outcome verbose format least log checked).ending =
      (second.outcome verbose format least log checked).ending := by
  obtain ⟨path, e, herror, herror'⟩ := hstop
  rw [ending_outcome_of_error _ _ _ _ _ _ herror, ending_outcome_of_error _ _ _ _ _ _ herror']
  cases e with
  | illFormedText e => rfl
  | file path' e => cases e <;> rfl

end Progress

/-- What `first` reports after it has shown the differences, `second` reports alone. -/
structure Outcome.ShowsBefore (first second : Outcome) (format : String) (least : Severity)
    (differences : List String) (issues : List Issue) (checked : Nat) : Prop where
  output : first.output =
    String.join (differences.map withoutControlSequences) ++ second.output
  first : first.Concludes format least (String.join (differences.map withoutControlSequences))
    issues checked 0
  second : second.Concludes format least "" issues checked 0

/-- Differences without escape characters are shown as they are. -/
theorem Outcome.ShowsBefore.output_eq
    {first second : Outcome} {format : String} {least : Severity} {differences : List String}
    {issues : List Issue} {checked : Nat}
    (hshows : first.ShowsBefore second format least differences issues checked)
    (hplain : ∀ difference ∈ differences, '\x1b' ∉ difference.toList) :
    first.output = String.join differences ++ second.output := by
  have hsame : differences.map withoutControlSequences = differences := by
    refine (List.map_congr_left fun difference hdifference => ?_).trans (List.map_id differences)
    exact withoutControlSequences_eq_self (hplain difference hdifference)
  rw [hshows.output, hsame]

section

variable [StackRoom] {tools : Tools} {verbose : Bool} {options : LintOptions} {least : Severity}
  {files : FileSystem}

theorem Plan.progress_diff_lint
    (plan : Plan) (files : FileSystem) (hsuits : ∀ source, (tools.parse source).Suits source) :
    Progress.StopAtUnread (plan.progress tools .diff files) (plan.progress tools .lint files) ∨
    ∃ differences,
      List.Forall₂ ((plan.engine tools).Differs plan.rules files) plan.targets differences ∧
      Progress.SameFinds (plan.progress tools .diff files) (plan.progress tools .lint files) ∧
      (plan.progress tools .diff files).output =
        String.join (differences.map withoutControlSequences) ∧
      (plan.progress tools .lint files).output = "" := by
  have hrules : ∀ rule ∈ plan.rules, rule.KeepsAlignment :=
    fun rule hrule => Config.keepsAlignment_of_mem_enabledRules hrule
  have hanalyze : ∀ path source, ∃ issues,
      ((plan.engine tools).analyze plan.rules path source).outcome = .ok issues := by
    intro path source
    obtain ⟨issues, hissues, -⟩ :=
      @Engine.exists_analyze _ (plan.engine tools) plan.rules hrules hsuits path source
    exact ⟨issues, hissues⟩
  have hfix : ∀ path source, ∃ run, ((plan.engine tools).fix plan.rules path
      FixRun.defaultMaxPasses source).outcome = .ok run :=
    fun path source => @Engine.exists_fix _ (plan.engine tools) plan.rules hrules hsuits path
      FixRun.defaultMaxPasses source
  have hstart : Progress.SameFinds (.start files) (.start files) := ⟨rfl, rfl, rfl, rfl, rfl, rfl⟩
  have hlast := @Progress.SameFinds.lintTargets _ _ _ _ plan.targets hanalyze hfix hstart
  simpa [Plan.progress, Progress.start] using hlast

theorem Plan.diff_cases
    (plan : Plan) (files : FileSystem) (hsuits : ∀ source, (tools.parse source).Suits source)
    {first second : Outcome} (log : List Log.Entry)
    (hfirst : (plan.progress tools .diff files).outcome verbose options.format least log
      plan.targets.length = first)
    (hsecond : (plan.progress tools .lint files).outcome verbose options.format least log
      plan.targets.length = second) :
    first.ending = second.ending ∧
      ∀ code, first.ending = .exit code → code ≠ 2 →
        ∃ differences issues,
          List.Forall₂ ((plan.engine tools).Differs plan.rules files) plan.targets differences ∧
          first.ShowsBefore second options.format least differences issues plan.targets.length := by
  rcases plan.progress_diff_lint files hsuits with
    hstop | ⟨differences, hdifferences, hfinds, houtput, houtput'⟩
  · have hending := hstop.ending_eq verbose options.format least log plan.targets.length
    rw [hfirst, hsecond] at hending
    refine ⟨hending, ?_⟩
    intro code hcode htwo
    obtain ⟨path, e, herror, -⟩ := hstop
    have herror' := Progress.ending_outcome_of_error _ verbose options.format least log
      plan.targets.length herror
    rw [hfirst, hcode, Ending.ofError] at herror'
    split at herror'
    next => exact absurd (Ending.exit.inj herror') htwo
    next => cases herror'
  · have hconcludes := (plan.progress tools .diff files).concludes_outcome verbose options.format
      least log plan.targets.length hfinds.error
    have hconcludes' := (plan.progress tools .lint files).concludes_outcome verbose options.format
      least log plan.targets.length hfinds.error'
    rw [houtput, hfinds.fixedTotal, hfinds.issues, hfirst] at hconcludes
    rw [houtput', hfinds.fixedTotal', hsecond] at hconcludes'
    refine ⟨hconcludes.ending.trans hconcludes'.ending.symm, ?_⟩
    intro code _ _
    refine ⟨differences, _, hdifferences, ?_, hconcludes, hconcludes'⟩
    rw [hconcludes.output, hconcludes'.output, String.empty_append]

end

/-! ## A line with and without a control sequence -/

/-- Knows the tree of one line and takes every other source for empty. -/
def lineParser (line source : String) : Node :=
  if source = line then lineTree else .leaf "program" 0 0 true none

def dryTools (line : String) : Tools := ⟨lineParser line, fun _ => "", fun _ => ""⟩

theorem suits_lineParser
    {line : String} (haligned : lineTree.Aligned line) (source : String) :
    ((dryTools line).parse source).Suits source := by
  show (lineParser line source).Suits source
  unfold lineParser
  split
  next hline =>
    subst hline
    exact ⟨haligned, Node.shallow_of_size_le (by decide)⟩
  next =>
    refine ⟨?_, Node.shallow_of_size_le (by decide)⟩
    intro node hnode
    have hstart : Boundary source 0 := ⟨[], source.toList, rfl, rfl⟩
    obtain rfl | ⟨child, hchild, -⟩ := Node.within_iff.mp hnode
    · exact ⟨hstart, hstart⟩
    · cases hchild

def dryOptions : LintOptions := ⟨["/work/line.rb"], none, "STYLE", false, true, [], [], "text"⟩

def dryPlan : Plan := ⟨Config.default.override [] [], [linePath]⟩

theorem invocation?_dryOptions :
    invocation? false ["lint", "--diff", "/work/line.rb"] =
      some ⟨false, .lint dryOptions .style⟩ := by decide +kernel

theorem invocation?_lint_dryOptions :
    invocation? false ["lint", "/work/line.rb"] =
      some ⟨false, .lint { dryOptions with fix := false, diff := false } .style⟩ := by
  decide +kernel

theorem plan_dryOptions
    {files : FileSystem} (hconfig : dryOptions.configPath files = .ok none)
    (htargets : targets dryPlan.config files [.ofString "/work/line.rb"] = .ok (.ok [linePath])) :
    (dryOptions.plan files).outcome = .ok dryPlan :=
  LintOptions.plan_eq_ok_iff.mpr ⟨none, Config.default, hconfig, rfl,
    LintOptions.planTargets_eq_ok_iff.mpr ⟨rfl, htargets, rfl⟩⟩

/-- The plain lint of a file that can be read comes to an end. -/
theorem exists_ending_lint
    {line : String} {files : FileSystem} (haligned : lineTree.Aligned line)
    (hplan : (dryOptions.plan files).outcome = .ok dryPlan)
    (hread : files.readText linePath = .ok line) :
    ∃ code, code ≠ 2 ∧
      (run (dryTools line) ["lint", "/work/line.rb"] files).ending = .exit code := by
  obtain ⟨issues, hissues, -⟩ := @Engine.exists_analyze _ (dryPlan.engine (dryTools line))
    dryPlan.rules (fun rule hrule => Config.keepsAlignment_of_mem_enabledRules hrule)
    (suits_lineParser haligned) linePath line
  have hnext := @Progress.lintTarget_lint_of_ok _ _ (.start files) linePath _
    (Engine.analyzeFile_eq_ok_iff.mpr ⟨_, hread, hissues⟩)
  have herror : (dryPlan.progress (dryTools line) .lint files).error = none :=
    congrArg Progress.error hnext
  rw [run_of_plan invocation?_lint_dryOptions hplan]
  exact Progress.exists_ending_outcome _ _ _ _ _ _ herror

def coloredLine : String := "s.gsub('a', 'b')\x1b[31m\n"

def coloredFiles : FileSystem where
  root := .directory [("work", .directory [("line.rb", .file (bytes coloredLine))])]
  workingDirectory := ["work"]
  access _ := .full

theorem fix_coloredLine :
    (Engine.fix ⟨lineParser coloredLine, []⟩ Registry.builtin.rules linePath
      FixRun.defaultMaxPasses coloredLine).outcome =
      .ok ((FixRun.initial coloredLine [lineIssue]).afterPass "s.tr('a', 'b')\x1b[31m\n" []) := by
  have hordered : Edit.inOrder lineIssue.fixes = lineIssue.fixes := List.mergeSort_singleton _
  have hedits : Issue.edits [lineIssue] = lineIssue.fixes := rfl
  refine fix_of_lineIssue ?_ ?_ ?_ (by decide)
  · exact Engine.analyze_builtin_eq_ok_iff.mpr
      ⟨[lineIssue], by decide +kernel, List.mergeSort_singleton lineIssue⟩
  · exact Engine.analyze_builtin_eq_ok_iff.mpr ⟨[], by decide +kernel, List.mergeSort_nil⟩
  · rw [applyFixes_eq_applyAll, hedits]
    simp only [Edit.applyAll, hordered]
    decide +kernel

end CommandLine

end RubyLint
