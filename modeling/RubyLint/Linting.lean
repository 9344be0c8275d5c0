import RubyLint.FileSystem
import RubyLint.Fixing

/-!
# Linting and fixing files

Ties the engine to a file system.  A plain lint reports a file that cannot be read as a problem of
that file, unless its path is no path at all; fixing passes the reason on as it is.  Fixing writes a
file only if its text has changed.
-/

namespace RubyLint

inductive LintError where
  /-- The file could not be read for a plain lint. -/
  | unparsable (path : Path) (e : ReadError)
  /-- The file could not be read, for the reason as it is. -/
  | unreadable (e : ReadError)
  | unwritable (path : Path) (e : FileError)
  /-- Its analysis failed. -/
  | failed (e : Failure)
  deriving DecidableEq, Repr

def LintError.message : LintError → String
  | .unparsable path e => "Cannot read " ++ toString path ++ ": " ++ e.message
  | .unreadable e => e.message
  | .unwritable path e => e.message path
  | .failed e => e.message

/-- What is shown for the errors that a run reports; the others end it at once. -/
def LintError.report? : LintError → Option String
  | .failed (.illFormedText e) => some e.message
  | .failed _ => none
  | .unreadable (.file _ .embeddedNull) => none
  | e => some e.message

/-- What a plain lint makes of a file that it cannot read. -/
def LintError.ofReadError (path : Path) : ReadError → LintError
  | .file path' .embeddedNull => .unreadable (.file path' .embeddedNull)
  | e => .unparsable path e

namespace Engine

def analyzeFile (engine : Engine) (rules : List Rule) (files : FileSystem) (path : Path) :
    Traced LintError (List Issue) := do
  Traced.write .info .engine ("Linting " ++ toString path)
  let source ← Traced.ofExcept ((files.readText path).mapError (.ofReadError path))
  (engine.analyze rules path source).mapError .failed

/-- Fixes the text of the file at `path` without writing it; also gives the text as it was. -/
def fixText (engine : Engine) (rules : List Rule) (files : FileSystem) (path : Path) :
    Traced LintError (String × FixRun) := do
  let source ← Traced.ofExcept ((files.readText path).mapError .unreadable)
  let run ← (engine.fix rules path FixRun.defaultMaxPasses source).mapError .failed
  return (source, run)

/-- The files with the fixed text of the one at `path`. -/
def written (files : FileSystem) (path : Path) (source : String) (run : FixRun) :
    Except FileError FileSystem :=
  if run.modified source then files.writeText path run.source else .ok files

def fixFile (engine : Engine) (rules : List Rule) (files : FileSystem) (path : Path) :
    Traced LintError (String × FixRun × FileSystem) := do
  let (source, run) ← engine.fixText rules files path
  let files ← Traced.ofExcept ((written files path source run).mapError (.unwritable path))
  return (source, run, files)

end Engine

end RubyLint
