import RubyLint.CommandLine.Run
import RubyLint.Proofs.FileOutline
import RubyLint.Proofs.UnifiedLineEndings
import Mathlib.Tactic

/-!
# Working through the targets

What linting or fixing a file gives depends on the bytes that are read at its path and on nothing
else.  A run that fixes its targets writes each of them at most once and nowhere else, so what a
target holds after its turn is what it holds at the end, unless a later target leads to the same
place.  At the end a plain lint finds in every target just the issues that the run has kept for it.
-/

namespace RubyLint

open Text

namespace FileSystem

/-- The content of the file at a place; a directory stands there without content. -/
def content? (files : FileSystem) (place : List String) : Option (Option (List UInt8)) :=
  (files.root.lookup place).map FileTree.content?

/-- From `before` to `after` nothing has changed but the content of files at `targets`. -/
structure Rewritten (targets : List Path) (before after : FileSystem) : Prop where
  outline : after.outline = before.outline
  content : ∀ place, (∀ target ∈ targets, before.locate target ≠ .ok place) →
    after.content? place = before.content? place

namespace Rewritten

variable {targets targets' : List Path} {before middle after : FileSystem}

theorem refl (targets : List Path) (files : FileSystem) : Rewritten targets files files :=
  ⟨rfl, fun _ _ => rfl⟩

theorem samePlace_iff
    (hrewritten : Rewritten targets before after) {path other : Path} :
    after.SamePlace path other ↔ before.SamePlace path other :=
  samePlace_iff_of_outline_eq hrewritten.outline

theorem read
    (hrewritten : Rewritten targets before after) {path : Path}
    (hpath : ∀ target ∈ targets, ¬ before.SamePlace target path) :
    after.read path = before.read path := by
  refine read_eq_of_content?_eq hrewritten.outline ?_
  intro place hplace
  apply hrewritten.content
  intro target htarget hsame
  exact hpath target htarget ⟨place, hsame, hplace⟩

theorem trans
    (hfirst : Rewritten targets before middle) (hsecond : Rewritten targets' middle after) :
    Rewritten (targets ++ targets') before after := by
  refine ⟨hsecond.outline.trans hfirst.outline, ?_⟩
  intro place hplace
  have hleft : middle.content? place = before.content? place :=
    hfirst.content place fun target htarget => hplace target (by simp [htarget])
  have hright : after.content? place = middle.content? place := by
    apply hsecond.content place
    intro target htarget
    rw [locate_eq_of_outline_eq hfirst.outline]
    exact hplace target (by simp [htarget])
  exact hright.trans hleft

theorem writeText
    {path : Path} {text : String} (hwrite : before.writeText path text = .ok after) :
    Rewritten [path] before after := by
  refine ⟨outline_writeText hwrite, ?_⟩
  intro place hplace
  obtain ⟨place', old, hlocate, hlookup, -, rfl⟩ := writeText_eq_ok_iff.mp hwrite
  have hne : place ≠ place' := by
    rintro rfl
    exact hplace path (by simp) hlocate
  exact FileTree.content?_insert_of_ne hlookup hne

end Rewritten

theorem readText_eq_ok_iff
    {files : FileSystem} {path : Path} {source : String} :
    files.readText path = .ok source ↔
      ∃ text, files.read path = .ok (bytes text) ∧ unifyNewlines text = source := by
  unfold readText
  simp only [Outcome.bind_eq_ok_iff, Outcome.mapError_eq_ok_iff, decode_eq_ok_iff]
  constructor
  · rintro ⟨_, hread, text, rfl, hsource⟩
    cases hsource
    exact ⟨text, hread, rfl⟩
  · rintro ⟨text, hread, rfl⟩
    exact ⟨_, hread, text, rfl, rfl⟩

/-- A text without carriage returns reads back as it was written. -/
theorem readText_writeText
    {files after : FileSystem} {path : Path} {old : List UInt8} {text : String}
    (hold : files.read path = .ok old) (hwrite : files.writeText path text = .ok after)
    (htext : Unified text) : after.readText path = .ok text :=
  readText_eq_ok_iff.mpr ⟨text, read_writeText_self hwrite hold, htext.unifyNewlines_eq⟩

end FileSystem

open FileSystem

/-! ## One file -/

namespace Engine

variable {engine : Engine} {rules : List Rule} {files : FileSystem} {path : Path}

theorem analyzeFile_eq_of_read_eq
    {files' : FileSystem} (hread : files'.read path = files.read path) :
    engine.analyzeFile rules files' path = engine.analyzeFile rules files path := by
  unfold analyzeFile readText
  rw [hread]

theorem analyzeFile_eq_ok_iff
    {issues : List Issue} :
    (engine.analyzeFile rules files path).outcome = .ok issues ↔
      ∃ source, files.readText path = .ok source ∧
        (engine.analyze rules path source).outcome = .ok issues := by
  unfold analyzeFile
  simp only [Traced.bind_outcome_eq_ok_iff, Traced.outcome_write, Traced.outcome_ofExcept,
    Traced.outcome_mapError, Outcome.mapError_eq_ok_iff, true_and, exists_const]

theorem fixText_eq_ok_iff
    {source : String} {run : FixRun} :
    (engine.fixText rules files path).outcome = .ok (source, run) ↔
      files.readText path = .ok source ∧
        (engine.fix rules path FixRun.defaultMaxPasses source).outcome = .ok run := by
  unfold fixText
  simp only [Traced.bind_outcome_eq_ok_iff, Traced.outcome_ofExcept, Traced.outcome_mapError,
    Outcome.mapError_eq_ok_iff, Traced.outcome_pure, Except.ok.injEq, Prod.mk.injEq]
  constructor
  · rintro ⟨_, hread, _, hfix, rfl, rfl⟩
    exact ⟨hread, hfix⟩
  · rintro ⟨hread, hfix⟩
    exact ⟨source, hread, run, hfix, rfl, rfl⟩

theorem fixFile_eq_ok_iff
    {source : String} {run : FixRun} {after : FileSystem} :
    (engine.fixFile rules files path).outcome = .ok (source, run, after) ↔
      (engine.fixText rules files path).outcome = .ok (source, run) ∧
        written files path source run = .ok after := by
  unfold fixFile
  simp only [Traced.bind_outcome_eq_ok_iff, Traced.outcome_ofExcept, Outcome.mapError_eq_ok_iff,
    Traced.outcome_pure, Except.ok.injEq, Prod.mk.injEq]
  constructor
  · rintro ⟨⟨_, _⟩, hfix, _, hwritten, rfl, rfl, rfl⟩
    exact ⟨hfix, hwritten⟩
  · rintro ⟨hfix, hwritten⟩
    exact ⟨(source, run), hfix, after, hwritten, rfl, rfl, rfl⟩

theorem rewritten_written
    {source : String} {run : FixRun} {after : FileSystem}
    (hwritten : written files path source run = .ok after) : Rewritten [path] files after := by
  unfold written at hwritten
  split at hwritten
  next => exact .writeText hwritten
  next =>
    cases hwritten
    exact .refl [path] files

theorem exists_written
    {place : List String} {old : List UInt8} (hlocate : files.locate path = .ok place)
    (hlookup : files.root.lookup place = some (.file old))
    (haccess : (files.access place).write = true) (source : String) (run : FixRun) :
    ∃ after, written files path source run = .ok after := by
  unfold written
  split
  next => exact ⟨_, writeText_eq_ok_iff.mpr ⟨place, old, hlocate, hlookup, haccess, rfl⟩⟩
  next => exact ⟨files, rfl⟩

/-- A plain lint of a fixed file finds the issues that fixing has left. -/
theorem analyzeFile_of_fixFile
    {source : String} {run : FixRun} {after : FileSystem}
    (hrules : ∀ rule ∈ rules, rule.WritesUnified)
    (hfix : (engine.fixFile rules files path).outcome = .ok (source, run, after)) :
    (engine.analyzeFile rules after path).outcome = .ok run.issues := by
  obtain ⟨hfix, hwritten⟩ := fixFile_eq_ok_iff.mp hfix
  obtain ⟨hsource, hfix⟩ := fixText_eq_ok_iff.mp hfix
  obtain ⟨text, hread, rfl⟩ := readText_eq_ok_iff.mp hsource
  obtain ⟨hunified, hanalyze⟩ := unified_of_fix hrules (unified_unifyNewlines text) hfix
  refine analyzeFile_eq_ok_iff.mpr ⟨run.source, ?_, hanalyze⟩
  unfold written at hwritten
  split at hwritten
  next => exact readText_writeText hread hwritten hunified
  next hsame =>
    have hsame' : run.source = unifyNewlines text := by
      simpa [FixRun.modified] using hsame
    cases hwritten
    rw [hsame', hsource]

end Engine

/-! ## All targets -/

namespace CommandLine.Progress

variable {engine : Engine} {rules : List Rule} {mode : Mode} {progress : Progress} {path : Path}
  {targets : List Path}

theorem lintTargets_of_isSome
    (herror : progress.error.isSome = true) :
    progress.lintTargets engine rules mode targets = progress := by
  unfold lintTargets
  induction targets with
  | nil => rfl
  | cons path rest ih => rw [List.foldl_cons, if_pos herror, ih]

theorem lintTargets_cons
    (hnone : progress.error = none) :
    progress.lintTargets engine rules mode (path :: targets) =
      (progress.lintTarget engine rules mode path).lintTargets engine rules mode targets := by
  unfold lintTargets
  rw [List.foldl_cons, hnone]
  rfl

theorem error_eq_none_of_lintTargets
    (hfinal : (progress.lintTargets engine rules mode targets).error = none) :
    progress.error = none := by
  by_contra hsome
  rw [lintTargets_of_isSome (Option.isSome_iff_ne_none.mpr hsome)] at hfinal
  exact hsome hfinal

/-- What is written about the fixed files, each with the number of its fixed issues. -/
def noticeText (fixed : List (Path × Nat)) : String :=
  String.join (fixed.map fun target => withoutControlSequences
    ("  🔧 Fixed " ++ toString target.2 ++ " issue(s) in " ++ toString target.1 ++ "\n"))

/-- The target with the number of its fixed issues if it was changed. -/
def noticed (path : Path) (source : String) (run : FixRun) : List (Path × Nat) :=
  if run.modified source then [(path, run.fixedCount)] else []

theorem noticeText_append (fixed fixed' : List (Path × Nat)) :
    noticeText (fixed ++ fixed') = noticeText fixed ++ noticeText fixed' := by
  unfold noticeText
  rw [List.map_append, String.join_append]

theorem lintTarget_fix_of_ok
    {source : String} {run : FixRun} {after : FileSystem}
    (hfix : (engine.fixFile rules progress.files path).outcome = .ok (source, run, after)) :
    progress.lintTarget engine rules .fix path =
      { files := after
        output := progress.output ++ noticeText (noticed path source run)
        log := progress.log ++ (engine.fixFile rules progress.files path).log
        issues := progress.issues ++ run.issues
        fixedTotal := progress.fixedTotal + ((noticed path source run).map (·.2)).sum
        error := progress.error } := by
  obtain ⟨-, hwritten⟩ := Engine.fixFile_eq_ok_iff.mp hfix
  unfold lintTarget
  simp only [advance, hfix]
  unfold noticed
  unfold Engine.written at hwritten
  split at hwritten
  next hmodified => simp [hmodified, noteFix, print, addIssues, noticeText]
  next hmodified =>
    cases hwritten
    simp [hmodified, addIssues, noticeText]

theorem exists_fixFile_of_lintTarget
    (hnext : (progress.lintTarget engine rules .fix path).error = none) :
    ∃ source run after,
      (engine.fixFile rules progress.files path).outcome = .ok (source, run, after) := by
  cases hfix : (engine.fixFile rules progress.files path).outcome with
  | error e => simp [lintTarget, advance, hfix] at hnext
  | ok fixed => exact ⟨fixed.1, fixed.2.1, fixed.2.2, rfl⟩

/-- A run over `targets` that fixes them leads from `before` to `after`: `found` holds the issues of
each target as a plain lint finds them at the end, and `fixed` tells of the targets that were
changed. -/
structure Fixes (engine : Engine) (rules : List Rule) (targets : List Path)
    (before after : Progress) (found : List (List Issue)) (fixed : List (Path × Nat)) : Prop where
  issues : after.issues = before.issues ++ found.flatten
  analyzed : List.Forall₂
    (fun target issues => (engine.analyzeFile rules after.files target).outcome = .ok issues)
    targets found
  files : Rewritten targets before.files after.files
  output : after.output = before.output ++ noticeText fixed
  fixedTotal : after.fixedTotal = before.fixedTotal + (fixed.map (·.2)).sum
  targets : (fixed.map (·.1)).Sublist targets

theorem Fixes.nil (engine : Engine) (rules : List Rule) (progress : Progress) :
    Fixes engine rules [] progress progress [] [] where
  issues := by simp
  analyzed := .nil
  files := .refl [] progress.files
  output := by simp [noticeText]
  fixedTotal := by simp
  targets := .slnil

theorem Fixes.cons
    {source : String} {run : FixRun} {after : FileSystem} {final : Progress}
    {found : List (List Issue)} {fixed : List (Path × Nat)}
    (hrules : ∀ rule ∈ rules, rule.WritesUnified)
    (hfix : (engine.fixFile rules progress.files path).outcome = .ok (source, run, after))
    (hapart : ∀ target ∈ targets, ¬ progress.files.SamePlace target path)
    (hrest : Fixes engine rules targets (progress.lintTarget engine rules .fix path) final found
      fixed) :
    Fixes engine rules (path :: targets) progress final (run.issues :: found)
      (noticed path source run ++ fixed) := by
  rw [lintTarget_fix_of_ok hfix] at hrest
  have hwritten := Engine.rewritten_written (Engine.fixFile_eq_ok_iff.mp hfix).2
  -- no later target leads to this one, so it stays as it is after its turn
  have hread : final.files.read path = after.read path := by
    apply hrest.files.read
    intro target htarget
    rw [hwritten.samePlace_iff]
    exact hapart target htarget
  constructor
  · simpa using hrest.issues
  · refine .cons ?_ hrest.analyzed
    rw [Engine.analyzeFile_eq_of_read_eq hread]
    exact Engine.analyzeFile_of_fixFile hrules hfix
  · exact hwritten.trans hrest.files
  · rw [noticeText_append, ← String.append_assoc]
    exact hrest.output
  · have htotal := hrest.fixedTotal
    simp only at htotal
    rw [List.map_append, List.sum_append]
    omega
  · rw [List.map_append]
    have hself : ((noticed path source run).map (·.1)).Sublist [path] := by
      unfold noticed
      split <;> simp
    exact hself.append hrest.targets

/-- A run that fixes its targets and comes to the end has found in each of them what a plain lint
finds there afterwards, if no two of them lead to the same place. -/
theorem exists_fixes
    (hrules : ∀ rule ∈ rules, rule.WritesUnified)
    (hapart : targets.Pairwise fun target other => ¬ progress.files.SamePlace target other)
    (hfinal : (progress.lintTargets engine rules .fix targets).error = none) :
    ∃ found fixed, Fixes engine rules targets progress
      (progress.lintTargets engine rules .fix targets) found fixed := by
  induction targets generalizing progress with
  | nil => exact ⟨[], [], .nil engine rules progress⟩
  | cons path rest ih =>
      have hnone := error_eq_none_of_lintTargets hfinal
      rw [lintTargets_cons hnone] at hfinal ⊢
      obtain ⟨source, run, after, hfix⟩ :=
        exists_fixFile_of_lintTarget (error_eq_none_of_lintTargets hfinal)
      have hwritten := Engine.rewritten_written (Engine.fixFile_eq_ok_iff.mp hfix).2
      obtain ⟨hpath, hrest⟩ := List.pairwise_cons.mp hapart
      have hrest' : rest.Pairwise fun target other =>
          ¬ (progress.lintTarget engine rules .fix path).files.SamePlace target other := by
        refine hrest.imp ?_
        intro target other hother
        rw [lintTarget_fix_of_ok hfix, hwritten.samePlace_iff]
        exact hother
      obtain ⟨found, fixed, hfixes⟩ := ih hrest' hfinal
      exact ⟨_, _, hfixes.cons hrules hfix fun target htarget hsame =>
        hpath target htarget hsame.symm⟩

/-- A plain lint of targets that can all be analysed collects their issues and writes nothing. -/
theorem lintTargets_lint
    {found : List (List Issue)} (hnone : progress.error = none)
    (hanalyzed : List.Forall₂
      (fun target issues => (engine.analyzeFile rules progress.files target).outcome = .ok issues)
      targets found) :
    ∃ log, progress.lintTargets engine rules .lint targets =
      { progress with log := log, issues := progress.issues ++ found.flatten } := by
  induction targets generalizing progress found with
  | nil =>
      cases hanalyzed
      exact ⟨progress.log, by simp [lintTargets]⟩
  | cons path rest ih =>
      obtain ⟨issues, found', hissues, hrest, rfl⟩ := List.forall₂_cons_left_iff.mp hanalyzed
      let next : Progress :=
        { progress with
          log := progress.log ++ (engine.analyzeFile rules progress.files path).log
          issues := progress.issues ++ issues }
      have hnext : progress.lintTarget engine rules .lint path = next := by
        simp [lintTarget, advance, hissues, addIssues, next]
      obtain ⟨log, hlog⟩ := @ih next found' hnone hrest
      refine ⟨log, ?_⟩
      rw [lintTargets_cons hnone, hnext, hlog]
      simp [next]

end CommandLine.Progress

end RubyLint
