/-!
# Log entries

A run explains itself by log entries.  Each has a level, the part of the program it comes from
and a message.
-/

namespace RubyLint.Log

inductive Level where
  | debug
  | info
  | warning
  deriving DecidableEq, Repr

def Level.name : Level → String
  | .debug => "DEBUG"
  | .info => "INFO"
  | .warning => "WARNING"

inductive Origin where
  | syntaxTree
  | argument
  | character
  | replacementRule
  | engine
  | fixing
  | configuration
  deriving DecidableEq, Repr

def Origin.name : Origin → String
  | .syntaxTree => "rb_tree_sitter.parser"
  | .argument => "rb_linter.literals.arguments"
  | .character => "rb_linter.literals.characters"
  | .replacementRule => "rb_linter.rules.string_replacement"
  | .engine => "rb_linter.engine"
  | .fixing => "rb_linter.autofix"
  | .configuration => "rb_cli.config"

structure Entry where
  level : Level
  origin : Origin
  message : String
  deriving DecidableEq, Repr

def Entry.line (entry : Entry) : String :=
  entry.level.name ++ " " ++ entry.origin.name ++ ": " ++ entry.message

end RubyLint.Log
