import RubyLint.FileSystem
import RubyLint.Glob
import RubyLint.Registry
import RubyLint.Text.Casing
import RubyLint.Toml.Document
import RubyLint.Traced

/-!
# Configuration

A configuration selects rules, overrides severities and excludes paths.  It comes from the table
`tool.rb-lint` of a TOML file; what the table does not mention keeps its default.  Every entry of
the wrong type is a problem, and all problems of a file are reported together.  Selections made on
the command line come on top.
-/

namespace RubyLint

open Text

structure Settings where
  /-- Keys of the rules to run. -/
  select : List String
  /-- Keys of the rules to leave out. -/
  ignore : List String
  severity : List (String × Severity)
  /-- Glob patterns of paths to leave out. -/
  exclude : List String
  deriving DecidableEq, Repr

namespace Settings

def default : Settings := ⟨["P"], [], [], []⟩

inductive ProblemKind where
  | notAList
  | notAString
  | notATable
  | unknownLevel
  deriving DecidableEq, Repr

/-- An entry of the wrong type, with the keys and positions that lead to it. -/
structure Problem where
  location : List String
  kind : ProblemKind
  value : Toml.Value
  deriving DecidableEq, Repr

/-- A list of strings under `field`, and what is wrong with it. -/
def readStrings (field : String) (fallback : List String) :
    Option Toml.Value → List String × List Problem
  | none => (fallback, [])
  | some (.array items) =>
    let texts := items.filterMap fun item => match item with
      | .string text => some text
      | _ => none
    let problems := items.zipIdx.filterMap fun (item, index) => match item with
      | .string _ => none
      | _ => some ⟨[field, toString index], .notAString, item⟩
    (texts, problems)
  | some value => ([], [⟨[field], .notAList, value⟩])

def readLevel : Toml.Value → Option Severity
  | .string level => Severity.ofName? (capitalize level)
  | _ => none

/-- The table of levels under `field`, and what is wrong with it. -/
def readLevels (field : String) :
    Option Toml.Value → List (String × Severity) × List Problem
  | none => ([], [])
  | some (.table entries) =>
    let levels := entries.filterMap fun (key, level) => (readLevel level).map (key, ·)
    let problems := entries.filterMap fun (key, level) =>
      if (readLevel level).isSome then none else some ⟨[field, key], .unknownLevel, level⟩
    (levels, problems)
  | some value => ([], [⟨[field], .notATable, value⟩])

def ofTable (table : Toml.Table) : Except (List Problem) Settings :=
  let (select, selectProblems) := readStrings "select" default.select (table.lookup "select")
  let (ignore, ignoreProblems) := readStrings "ignore" default.ignore (table.lookup "ignore")
  let (severity, severityProblems) := readLevels "severity" (table.lookup "severity")
  let (exclude, excludeProblems) := readStrings "exclude" default.exclude (table.lookup "exclude")
  match selectProblems ++ ignoreProblems ++ severityProblems ++ excludeProblems with
  | [] => .ok ⟨select, ignore, severity, exclude⟩
  | problems => .error problems

end Settings

inductive ConfigError where
  | unreadable (path : Path) (e : FileError)
  /-- The text of the file is not TOML. -/
  | malformed (path : Path) (text : String)
  /-- Entries of the section have the wrong type. -/
  | invalid (path : Path) (problems : List Settings.Problem)
  /-- The file is not UTF-8. -/
  | illFormedText (e : Utf8Error)
  | toolNotATable
  | sectionNotATable
  /-- The document goes beyond a limit. -/
  | beyondLimit (e : Toml.Error)
  /-- It cannot be told whether there is such a file. -/
  | unknownFile (e : FileError)
  deriving DecidableEq, Repr

/-- What the libraries that read documents and check entries say about bad ones. -/
structure ConfigTexts where
  /-- About a text that is not TOML. -/
  malformed : String → String
  invalid : List Settings.Problem → String

/-- What is shown for the errors that a run reports; the others end it at once. -/
def ConfigError.report? (texts : ConfigTexts) : ConfigError → Option String
  | .unreadable path e => some ("Cannot read " ++ toString path ++ ": " ++ e.message path)
  | .malformed path text => some ("Cannot read " ++ toString path ++ ": " ++ texts.malformed text)
  | .invalid path problems =>
    some ("Invalid [tool.rb-lint] section in " ++ toString path ++ ":\n" ++ texts.invalid problems)
  | .illFormedText _ => none
  | .toolNotATable => none
  | .sectionNotATable => none
  | .beyondLimit _ => none
  | .unknownFile _ => none

structure Config where
  settings : Settings
  /-- The file that the settings come from. -/
  source : Option Path
  deriving DecidableEq, Repr

namespace Config

def default : Config := ⟨.default, none⟩

/-- The section of a document that holds the settings; it may be absent. -/
def sectionOf (document : Toml.Table) : Except ConfigError Toml.Table :=
  match document.lookup "tool" with
  | none => .ok []
  | some (.table tools) =>
    match tools.lookup "rb-lint" with
    | none => .ok []
    | some (.table entries) => .ok entries
    | some _ => .error .sectionNotATable
  | some _ => .error .toolNotATable

def readSettings (files : FileSystem) (path : Path) : Except ConfigError Settings := do
  let content ← (files.read path).mapError (.unreadable path)
  let text ← (decode content).mapError .illFormedText
  match Toml.parse text with
  | .error .malformed => throw (.malformed path text)
  | .error e => throw (.beyondLimit e)
  | .ok document => (Settings.ofTable (← sectionOf document)).mapError (.invalid path)

/-- The configuration of the file at `path`, or the default one if there is no such file. -/
def load (files : FileSystem) (path : Option Path) : Traced ConfigError Config := do
  match path with
  | none => return default
  | some path =>
    match ← Traced.ofExcept ((files.get? path).mapError .unknownFile) with
    | none => return default
    | some _ =>
      let settings ← Traced.ofExcept (readSettings files path)
      Traced.write .debug .configuration ("Loaded configuration from " ++ toString path)
      return ⟨settings, some path⟩

/-- The names of configuration files, the preferred one first. -/
def fileNames : List String := [".rb-lint.toml", "pyproject.toml"]

def firstFile (files : FileSystem) : (paths : List Path) → Except FileError (Option Path)
  | [] => .ok none
  | path :: rest => do
    match ← files.get? path with
    | some (.file _) => return some path
    | _ => firstFile files rest

def find (files : FileSystem) (directory : Path) : Except FileError (Option Path) :=
  firstFile files (fileNames.map directory.child)

/-- Selected keys take the place of the configured ones, ignored keys are added to them. -/
def override (config : Config) (select ignore : List String) : Config :=
  let settings := config.settings
  { config with settings := { settings with
      select := if select.isEmpty then settings.select else select
      ignore := settings.ignore ++ ignore } }

/-- Whether a pattern matches the path or its last component. -/
def excludes (config : Config) (path : Path) : Bool :=
  config.settings.exclude.any fun pattern =>
    Glob.isMatch pattern (toString path) || Glob.isMatch pattern path.name

def enabledRules (config : Config) (registry : Registry) : List Rule :=
  registry.enabled config.settings.select config.settings.ignore

/-- A directory stands for all below it that is called like a Ruby file; any other path stands for
itself. -/
def expand [StackRoom] (files : FileSystem) (path : Path) : Except FileError (List Path) := do
  match ← files.get? path with
  | some (.directory _) => files.rubyPaths path
  | _ => return [path]

def collect [StackRoom] (config : Config) (files : FileSystem) (paths : List Path) :
    Except FileError (List Path) := do
  let expanded ← paths.mapM (expand files)
  return expanded.flatten.filter (!config.excludes ·)

end Config

end RubyLint
