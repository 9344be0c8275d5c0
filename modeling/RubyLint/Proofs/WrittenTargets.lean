import RubyLint.Proofs.LintPlan
import Mathlib.Tactic

/-!
# Which files a run writes

Only a run that is to fix its targets writes files.  It takes the targets in turn: a target that
can be read, fixed and written gets its fixed text if that is another one, and then the next target
is read from the files as they are now.  The first target that fails in one of these ends the run,
and the files stay as the targets before it have left them.  So the files at the end are given by
the targets that were reached, whatever the run then reports.
-/

namespace RubyLint

open Text FileSystem

namespace Engine

variable {engine : Engine} {rules : List Rule} {files before after : FileSystem} {path : Path}
  {targets : List Path} {e : LintError}

/-- The file at `path` cannot be read, or its text cannot be fixed, or the fixed text cannot be
written. -/
inductive Raises (engine : Engine) (rules : List Rule) (files : FileSystem) (path : Path) :
    LintError → Prop
  | read {e : ReadError} (hread : files.readText path = .error e) :
      Raises engine rules files path (.unreadable e)
  | fix {source : String} {e : Failure} (hread : files.readText path = .ok source)
      (hfix : (engine.fix rules path FixRun.defaultMaxPasses source).outcome = .error e) :
      Raises engine rules files path (.failed e)
  | write {source : String} {run : FixRun} {e : FileError}
      (hread : files.readText path = .ok source)
      (hfix : (engine.fix rules path FixRun.defaultMaxPasses source).outcome = .ok run)
      (hwritten : written files path source run = .error e) :
      Raises engine rules files path (.unwritable path e)

/-- Fixing the files at `targets` one after the other leads from one file system to another. -/
inductive FixesInOrder (engine : Engine) (rules : List Rule) :
    List Path → FileSystem → FileSystem → Prop
  | nil (files : FileSystem) : FixesInOrder engine rules [] files files
  | cons {path : Path} {targets : List Path} {before middle after : FileSystem} {source : String}
      {run : FixRun} (hread : before.readText path = .ok source)
      (hfix : (engine.fix rules path FixRun.defaultMaxPasses source).outcome = .ok run)
      (hwritten : written before path source run = .ok middle)
      (hrest : FixesInOrder engine rules targets middle after) :
      FixesInOrder engine rules (path :: targets) before after

theorem raises_iff :
    engine.Raises rules files path e ↔ (engine.fixFile rules files path).outcome = .error e := by
  unfold fixFile fixText
  simp only [Traced.bind_outcome_eq_error_iff, Traced.bind_outcome_eq_ok_iff,
    Traced.outcome_ofExcept, Traced.outcome_mapError, Traced.outcome_pure,
    Outcome.mapError_eq_error_iff, Outcome.mapError_eq_ok_iff, reduceCtorEq, and_false,
    exists_false, or_false, Except.ok.injEq]
  constructor
  · rintro (hread | ⟨hread, hfix⟩ | ⟨hread, hfix, hwritten⟩)
    · exact .inl (.inl ⟨_, hread, rfl⟩)
    · exact .inl (.inr ⟨_, hread, _, hfix, rfl⟩)
    · exact .inr ⟨_, ⟨_, hread, _, hfix, rfl⟩, _, hwritten, rfl⟩
  · rintro ((⟨_, hread, rfl⟩ | ⟨_, hread, _, hfix, rfl⟩) |
      ⟨_, ⟨_, hread, _, hfix, rfl⟩, _, hwritten, rfl⟩)
    · exact .read hread
    · exact .fix hread hfix
    · exact .write hread hfix hwritten

theorem FixesInOrder.rewritten (hfixes : engine.FixesInOrder rules targets before after) :
    Rewritten targets before after := by
  induction hfixes with
  | nil files => exact .refl [] files
  | cons _ _ hwritten _ ih => exact (rewritten_written hwritten).trans ih

end Engine

namespace CommandLine

namespace Progress

variable {engine : Engine} {rules : List Rule} {mode : Mode} {progress : Progress} {path : Path}
  {targets : List Path}

theorem files_advance
    {α : Type} (progress : Progress) (x : Traced LintError α) {next : Progress → α → Progress}
    (hnext : ∀ progress a, (next progress a).files = progress.files) :
    (progress.advance x next).files = progress.files := by
  unfold advance
  cases x.outcome with
  | error e => rfl
  | ok a => exact hnext _ a

theorem files_lintTarget (hmode : mode ≠ .fix) :
    (progress.lintTarget engine rules mode path).files = progress.files := by
  have hadd : ∀ (progress : Progress) issues, (progress.addIssues issues).files = progress.files :=
    fun _ _ => rfl
  unfold lintTarget
  cases mode with
  | lint => exact files_advance _ _ hadd
  | fix => exact absurd rfl hmode
  | diff =>
      apply files_advance
      intro progress fixed
      refine (files_advance _ _ hadd).trans ?_
      split <;> rfl

theorem files_lintTargets (hmode : mode ≠ .fix) :
    (progress.lintTargets engine rules mode targets).files = progress.files := by
  unfold lintTargets
  induction targets generalizing progress with
  | nil => rfl
  | cons path rest ih =>
      rw [List.foldl_cons, ih]
      split
      · rfl
      · exact files_lintTarget hmode

theorem lintTarget_fix_of_error
    {e : LintError} (hfix : (engine.fixFile rules progress.files path).outcome = .error e) :
    progress.lintTarget engine rules .fix path =
      { progress with
        log := progress.log ++ (engine.fixFile rules progress.files path).log
        error := some e } := by
  unfold lintTarget
  simp only [advance, hfix]

/-- A run that fixes its targets comes to the end of them, or to the first that cannot be read,
fixed or written, and has fixed those before it. -/
theorem exists_fixesInOrder
    {final : Progress} (hnone : progress.error = none)
    (hfinal : progress.lintTargets engine rules .fix targets = final) :
    ∃ done rest, targets = done ++ rest ∧
      engine.FixesInOrder rules done progress.files final.files ∧
      (rest = [] → final.error = none) ∧
      ∀ path later, rest = path :: later →
        ∃ e, engine.Raises rules final.files path e ∧ final.error = some e := by
  induction targets generalizing progress with
  | nil =>
      subst hfinal
      exact ⟨[], [], rfl, .nil _, fun _ => hnone, by simp⟩
  | cons path rest ih =>
      rw [lintTargets_cons hnone] at hfinal
      cases hfix : (engine.fixFile rules progress.files path).outcome with
      | error e =>
          rw [lintTarget_fix_of_error hfix, lintTargets_of_isSome rfl] at hfinal
          subst hfinal
          refine ⟨[], path :: rest, rfl, .nil _, by simp, ?_⟩
          intro first later hsplit
          cases hsplit
          exact ⟨e, Engine.raises_iff.mpr hfix, rfl⟩
      | ok fixed =>
          obtain ⟨source, run, after⟩ := fixed
          obtain ⟨htext, hwritten⟩ := Engine.fixFile_eq_ok_iff.mp hfix
          obtain ⟨hread, hrun⟩ := Engine.fixText_eq_ok_iff.mp htext
          rw [lintTarget_fix_of_ok hfix] at hfinal
          obtain ⟨done, later, rfl, hfixes, hend, hraises⟩ := ih (by exact hnone) hfinal
          exact ⟨path :: done, later, rfl, .cons hread hrun hwritten hfixes, hend, hraises⟩

end Progress

section

variable [StackRoom]

/-- A run that is not to fix its targets changes no file. -/
theorem run_files_eq
    {tools : Tools} {words : List String} {files : FileSystem} {verbose : Bool}
    {options : LintOptions} {least : Severity}
    (hwords : invocation? false words = some ⟨verbose, .lint options least⟩)
    (hmode : options.mode ≠ .fix) : (run tools words files).files = files := by
  cases hplan : (options.plan files).outcome with
  | error refusal => rw [run_of_refusal hwords hplan]
  | ok plan =>
      rw [run_of_plan hwords hplan, Progress.files_outcome]
      exact Progress.files_lintTargets hmode

end

/-! ## A run that stops in the middle -/

def oddPath : Path := ⟨"", ["..", "odd.rb"]⟩

/-- A file to fix, one that is no text, and another one to fix. -/
def oddFiles : FileSystem where
  root := .directory
    [("odd.rb", .file [0xFF]),
      ("work", .directory [("line.rb", .file (bytes "s.gsub('a', 'b')\r\n")),
        ("rest.rb", .file (bytes "s.gsub('a', 'b')\r\n"))])]
  workingDirectory := ["work"]
  access _ := .full

def oddOptions : LintOptions :=
  ⟨["/work/line.rb", "../odd.rb", "rest.rb"], none, "STYLE", true, false, [], [], "text"⟩

def oddPlan : Plan :=
  ⟨Config.default.override [] [], [linePath, oddPath, ⟨"", ["rest.rb"]⟩]⟩

theorem plan_oddOptions : (oddOptions.plan oddFiles).outcome = .ok oddPlan := by
  refine LintOptions.plan_eq_ok_iff.mpr ⟨none, Config.default, by decide +kernel, rfl, ?_⟩
  exact LintOptions.planTargets_eq_ok_iff.mpr ⟨rfl, by decide +kernel, rfl⟩

theorem not_raises_linePath (e : LintError) :
    ¬ (oddPlan.engine lineTools).Raises oddPlan.rules oddFiles linePath e := by
  obtain ⟨run, hrun⟩ := exists_fix_line
  have hread : oddFiles.readText linePath = .ok "s.gsub('a', 'b')\n" := by decide +kernel
  have hlocate : oddFiles.locate linePath = .ok ["work", "line.rb"] := by decide +kernel
  obtain ⟨after, hwritten⟩ :=
    Engine.exists_written hlocate rfl rfl "s.gsub('a', 'b')\n" run
  have hfix := Engine.fixFile_eq_ok_iff.mpr ⟨Engine.fixText_eq_ok_iff.mpr ⟨hread, hrun⟩, hwritten⟩
  intro hraises
  cases hfix.symm.trans (Engine.raises_iff.mp hraises)

theorem readText_oddPath
    {after : FileSystem} (hrewritten : Rewritten [linePath] oddFiles after) :
    after.readText oddPath = .error (.illFormedText ⟨0, 0xFF, 1, .invalidStart⟩) := by
  have hread : after.read oddPath = oddFiles.read oddPath := by
    apply hrewritten.read
    have hline : oddFiles.locate linePath = .ok ["work", "line.rb"] := by decide +kernel
    have hodd : oddFiles.locate oddPath = .ok ["odd.rb"] := by decide +kernel
    simp [SamePlace, hline, hodd]
  have htext : oddFiles.readText oddPath = .error (.illFormedText ⟨0, 0xFF, 1, .invalidStart⟩) := by
    decide +kernel
  unfold readText at htext ⊢
  rw [hread, htext]

end CommandLine

end RubyLint
