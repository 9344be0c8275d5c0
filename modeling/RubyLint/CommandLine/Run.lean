import RubyLint.CommandLine.Options
import RubyLint.Config
import RubyLint.Diff
import RubyLint.Linting
import RubyLint.Report
import RubyLint.Text.ControlSequence

/-!
# Running a command

A run takes the words of a command line and a file system, and gives what is written to the two
output streams, how the run ends and the file system afterwards.  The targets are worked through in
order.  The first one that cannot be read, analysed or written ends the run; what was written before
stays written.

The output streams are no terminals, so every message is written without the control sequences of
terminals that a path or a line of a source brings into it.  Log entries are written as they are.
-/

namespace RubyLint.CommandLine

open Text

/-- What a run takes from other libraries. -/
structure Tools where
  /-- The parser of Ruby. -/
  parse : String → Node
  texts : ConfigTexts

/-- What ends a run without a message. -/
inductive Breakdown where
  | config (e : ConfigError)
  | path (e : FileError)
  | target (e : LintError)
  deriving Repr

inductive Ending where
  | exit (code : Nat)
  /-- The command line is refused. -/
  | usage
  | abort (reason : Breakdown)
  deriving Repr

structure Outcome where
  ending : Ending
  output : String
  /-- The messages on the error stream. -/
  errors : List String
  files : FileSystem

/-- What to do with the fixes of a target. -/
inductive Mode where
  /-- Nothing: only lint. -/
  | lint
  | fix
  /-- Show them as a diff and write nothing. -/
  | diff
  deriving DecidableEq, Repr

def LintOptions.mode (options : LintOptions) : Mode :=
  if options.diff then .diff else if options.fix then .fix else .lint

structure Progress where
  files : FileSystem
  output : String
  log : List Log.Entry
  issues : List Issue
  fixedTotal : Nat
  /-- What has ended the run before its last target. -/
  error : Option LintError

namespace Progress

def start (files : FileSystem) : Progress := ⟨files, "", [], [], 0, none⟩

/-- Takes over the log of `x`, and its error or what `next` makes of its value. -/
def advance {α : Type} (progress : Progress) (x : Traced LintError α)
    (next : Progress → α → Progress) : Progress :=
  let logged := { progress with log := progress.log ++ x.log }
  match x.outcome with
  | .ok a => next logged a
  | .error e => { logged with error := some e }

def addIssues (progress : Progress) (issues : List Issue) : Progress :=
  { progress with issues := progress.issues ++ issues }

def print (progress : Progress) (message : String) : Progress :=
  { progress with output := progress.output ++ withoutControlSequences message }

/-- Goes on with the files that hold the fixed text of a target. -/
def noteFix (progress : Progress) (path : Path) (run : FixRun) (files : FileSystem) : Progress :=
  { progress.print
      ("  🔧 Fixed " ++ toString run.fixedCount ++ " issue(s) in " ++ toString path ++ "\n") with
    files
    fixedTotal := progress.fixedTotal + run.fixedCount }

def lintTarget (engine : Engine) (rules : List Rule) (mode : Mode) (progress : Progress)
    (path : Path) : Progress :=
  match mode with
  | .lint => progress.advance (engine.analyzeFile rules progress.files path) addIssues
  | .fix =>
    progress.advance (engine.fixFile rules progress.files path) fun progress (source, run, files) =>
      (if run.modified source then progress.noteFix path run files else progress).addIssues
        run.issues
  | .diff =>
    progress.advance (engine.fixText rules progress.files path) fun progress (source, run) =>
      let shown :=
        if run.modified source then progress.print (Diff.unified (toString path) source run.source)
        else progress
      shown.advance ((engine.analyze rules path source).mapError .failed) addIssues

/-- Works on the targets in order, up to the first that ends the run. -/
def lintTargets (engine : Engine) (rules : List Rule) (mode : Mode) (progress : Progress)
    (targets : List Path) : Progress :=
  targets.foldl
    (fun progress path =>
      if progress.error.isSome then progress else progress.lintTarget engine rules mode path)
    progress

end Progress

/-- The log entries that are shown, as lines. -/
def shownLog (verbose : Bool) (log : List Log.Entry) : List String :=
  (log.filter fun entry => verbose || entry.level == .warning).map Log.Entry.line

def errorText (message : String) : String :=
  withoutControlSequences ("Error: " ++ message)

def reportText (format : String) (reported : List ReportedIssue) (found checked fixed : Nat) :
    String :=
  if format == "json" then
    Report.json ⟨reported, checked, fixed⟩ ++ "\n"
  else
    String.join (reported.map fun issue => issue.text ++ "\n") ++
      "\nTotal issues found: " ++ toString found ++ " (" ++ toString reported.length ++
      " reported)\n"

def lintTargets [StackRoom] (tools : Tools) (verbose : Bool) (options : LintOptions)
    (least : Severity) (config : Config) (log : List Log.Entry) (files : FileSystem)
    (targets : List Path) : Outcome :=
  let engine : Engine := ⟨tools.parse, config.settings.severity⟩
  let rules := config.enabledRules .builtin
  let progress := (Progress.start files).lintTargets engine rules options.mode targets
  let errors := shownLog verbose (log ++ progress.log)
  match progress.error with
  | some e =>
    match e.report? with
    | some message => ⟨.exit 2, progress.output, errors ++ [errorText message], progress.files⟩
    | none => ⟨.abort (.target e), progress.output, errors, progress.files⟩
  | none =>
    let reported := Report.select least progress.issues
    let report :=
      reportText options.format reported progress.issues.length targets.length progress.fixedTotal
    ⟨.exit (if reported.isEmpty then 0 else 1), (progress.print report).output, errors,
      progress.files⟩

def missing? (files : FileSystem) (paths : List Path) : Except FileError (Option Path) := do
  let found ← paths.mapM files.get?
  return ((paths.zip found).find? (·.2.isNone)).map (·.1)

def targets [StackRoom] (config : Config) (files : FileSystem) (paths : List Path) :
    Except FileError (Except Path (List Path)) := do
  match ← missing? files paths with
  | some path => return .error path
  | none => return .ok (← config.collect files paths)

def lintWith [StackRoom] (tools : Tools) (verbose : Bool) (options : LintOptions)
    (least : Severity) (files : FileSystem) (configPath : Option Path) : Outcome :=
  let loaded := Config.load files configPath
  let abort (reason : Breakdown) : Outcome :=
    ⟨.abort reason, "", shownLog verbose loaded.log, files⟩
  let refuse (message : String) : Outcome :=
    ⟨.exit 2, "", shownLog verbose loaded.log ++ [errorText message], files⟩
  match loaded.outcome with
  | .error e =>
    match e.report? tools.texts with
    | some message => refuse message
    | none => abort (.config e)
  | .ok config =>
    let config := config.override options.select options.ignore
    if options.files.isEmpty then refuse "Provide files or directories to lint"
    else
      match targets config files (options.files.map Path.ofString) with
      | .error e => abort (.path e)
      | .ok (.error path) => refuse ("No such file or directory: " ++ toString path)
      | .ok (.ok targets) =>
        lintTargets tools verbose options least config loaded.log files targets

/-- Runs the command `lint`; without a configuration path that of the working directory counts. -/
def lint [StackRoom] (tools : Tools) (verbose : Bool) (options : LintOptions) (least : Severity)
    (files : FileSystem) : Outcome :=
  match options.config with
  | some path => lintWith tools verbose options least files (some (Path.ofString path))
  | none =>
    match Config.find files (Path.ofString ".") with
    | .ok configPath => lintWith tools verbose options least files configPath
    | .error e => ⟨.abort (.path e), "", [], files⟩

def ruleText (rule : Rule) : String :=
  rule.id ++ " " ++ rule.name ++ " [" ++ rule.severity.name ++ "]" ++
    (if rule.autoFixable then " (fixable)" else "") ++ "\n" ++
    (if rule.description == "" then "" else "    " ++ rule.description ++ "\n")

def run [StackRoom] (tools : Tools) (words : List String) (files : FileSystem) : Outcome :=
  match invocation? false words with
  | none => ⟨.usage, "", [], files⟩
  | some ⟨verbose, .lint options least⟩ => lint tools verbose options least files
  | some ⟨_, .rules⟩ =>
    ⟨.exit 0, String.join (Registry.builtin.rules.map ruleText), [], files⟩

end RubyLint.CommandLine
