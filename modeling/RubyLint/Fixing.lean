import RubyLint.Edits
import RubyLint.Engine

/-!
# Fixing in passes

A pass applies the edits of all issues that can be fixed and analyses the result.  Edits that were
skipped because they overlap come again in the next pass.  Fixing ends when nothing can be fixed,
when a pass changes nothing, or when the passes are used up.

The analysis is a parameter: it is told how many analyses came before and answers for a text.
-/

namespace RubyLint

/-- Answers with the issues of a text, given the number of analyses before this one. -/
abbrev Analysis := (earlier : Nat) → (source : String) → Traced Failure (List Issue)

/-- The state of a run between two passes, and its result. -/
structure FixRun where
  /-- The text reached so far. -/
  source : String
  passes : Nat
  /-- By how much the number of issues has gone down, pass by pass. -/
  fixedCount : Nat
  /-- The issues of the text. -/
  issues : List Issue
  /-- The analysed texts in order. -/
  analysed : List String
  deriving DecidableEq, Repr

namespace FixRun

/-- Fixes for at most `budget` more passes. -/
def resume (analysis : Analysis) (path : Path) : (budget : Nat) → FixRun → Traced Failure FixRun
  | 0, run => pure run
  | budget + 1, run => do
    let fixable := run.issues.filter (·.autoFixable)
    if fixable.isEmpty then
      return run
    let source ← applyFixes run.source fixable
    if source == run.source then
      return { run with passes := run.passes + 1 }
    let issues ← analysis run.analysed.length source
    if budget == 0 then
      Traced.write .warning .fixing ("Reached max fix passes for " ++ toString path)
    FixRun.resume analysis path budget {
      source
      passes := run.passes + 1
      fixedCount := run.fixedCount + (run.issues.length - issues.length)
      issues
      analysed := run.analysed ++ [source] }

/-- Analyses `source` and fixes it in at most `maxPasses` passes. -/
def start (analysis : Analysis) (path : Path) (maxPasses : Int) (source : String) :
    Traced Failure FixRun := do
  let issues ← analysis 0 source
  FixRun.resume analysis path maxPasses.toNat ⟨source, 0, 0, issues, [source]⟩

def defaultMaxPasses : Int := 10

/-- Whether fixing `source` has changed it. -/
def modified (run : FixRun) (source : String) : Bool := run.source != source

end FixRun

/-- The analysis of an engine, which does not depend on earlier ones. -/
def Engine.analysis (engine : Engine) (rules : List Rule) (path : Path) : Analysis :=
  fun _ source => engine.analyze rules path source

def Engine.fix (engine : Engine) (rules : List Rule) (path : Path) (maxPasses : Int)
    (source : String) : Traced Failure FixRun :=
  FixRun.start (engine.analysis rules path) path maxPasses source

end RubyLint
