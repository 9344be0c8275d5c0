import RubyLint.Issue
import RubyLint.Text.Casing

/-!
# The command line

A command line names a command, after options of the whole program, and then the options and
arguments of that command.  Options and arguments of a command may stand in any order; after two
hyphens everything is an argument.  An option that takes a value takes it after an equals sign or
from the next word, whatever that word looks like.  Where an option is repeated, the last one
counts, except that selected and ignored keys add up.  A command line that does not follow these
rules, names an unknown severity or holds a path with a null character is refused as a whole.
-/

namespace RubyLint.CommandLine

open Text

structure LintOptions where
  files : List String
  config : Option String
  severity : String
  fix : Bool
  diff : Bool
  select : List String
  ignore : List String
  format : String
  deriving DecidableEq, Repr

inductive Command where
  /-- Lint files, showing issues from a severity on. -/
  | lint (options : LintOptions) (least : Severity)
  /-- List the rules. -/
  | rules
  deriving DecidableEq, Repr

structure Invocation where
  verbose : Bool
  command : Command
  deriving DecidableEq, Repr

def LintOptions.default : LintOptions :=
  ⟨[], none, "STYLE", false, false, [], [], "text"⟩

def isOption (word : String) : Bool :=
  match word.toList with
  | '-' :: _ :: _ => true
  | _ => false

/-- The name of an option and the value after its equals sign, if there is one. -/
def splitOption (word : String) : String × Option String :=
  let chars := word.toList
  let name := chars.takeWhile (· != '=')
  if name.length < chars.length then
    (String.ofList name, some (String.ofList (chars.drop (name.length + 1))))
  else
    (word, none)

def LintOptions.setFlag? (options : LintOptions) (name : String) : Option LintOptions :=
  match name with
  | "--fix" => some { options with fix := true }
  | "--no-fix" => some { options with fix := false }
  | "--diff" => some { options with diff := true }
  | "--no-diff" => some { options with diff := false }
  | _ => none

def LintOptions.setValue? (options : LintOptions) (name : String) :
    Option (String → LintOptions) :=
  match name with
  | "--config" => some fun value => { options with config := some value }
  | "--severity" => some fun value => { options with severity := value }
  | "--select" => some fun value => { options with select := options.select ++ [value] }
  | "--ignore" => some fun value => { options with ignore := options.ignore ++ [value] }
  | "--format" => some fun value => { options with format := value }
  | _ => none

def LintOptions.read? (options : LintOptions) : (words : List String) → Option LintOptions
  | [] => some options
  | "--" :: rest => some { options with files := options.files ++ rest }
  | word :: rest =>
    if isOption word then
      let (name, value) := splitOption word
      match options.setValue? name, value, rest with
      | some set, some value, rest => (set value).read? rest
      | some set, none, value :: rest => (set value).read? rest
      | some _, none, [] => none
      | none, some _, _ => none
      | none, none, rest =>
        match options.setFlag? name with
        | some options => options.read? rest
        | none => none
    else
      { options with files := options.files ++ [word] }.read? rest

/-- The severity with a name in any case. -/
def severity? (name : String) : Option Severity :=
  Severity.all.find? fun severity => foldCase severity.name == foldCase name

def LintOptions.paths (options : LintOptions) : List String :=
  options.config.toList ++ options.files

/-- Whether no path holds a null character. -/
def LintOptions.hasUsablePaths (options : LintOptions) : Bool :=
  options.paths.all fun path => !path.toList.contains '\x00'

def command? : (words : List String) → Option Command
  | "lint" :: words => do
    let options ← LintOptions.default.read? words
    let least ← severity? options.severity
    if options.hasUsablePaths then some (.lint options least) else none
  | ["rules"] => some .rules
  | ["rules", "--"] => some .rules
  | _ => none

/-- Whether a word is the option that asks for all log entries, perhaps several times. -/
def isVerbose (word : String) : Bool :=
  word == "--verbose" ||
    match word.toList with
    | '-' :: letter :: letters => (letter :: letters).all (· == 'v')
    | _ => false

def invocation? (verbose : Bool) : (words : List String) → Option Invocation
  | [] => none
  | word :: rest =>
    if word == "--" then (command? rest).map (⟨verbose, ·⟩)
    else if isVerbose word then invocation? true rest
    else if isOption word then none
    else (command? (word :: rest)).map (⟨verbose, ·⟩)

end RubyLint.CommandLine
