import RubyLint.Path

/-!
# Issues

An issue is one finding of a rule in one source: where it is, what it says, how severe it is, and
the edits that would settle it.  Offsets count bytes.  They are signed, because an edit may come
from elsewhere and counts from the end of the source when its offset is negative.
-/

namespace RubyLint

inductive Severity where
  | error
  | warning
  | style
  | info
  deriving DecidableEq, Repr

namespace Severity

def rank : Severity → Nat
  | .error => 3
  | .warning => 2
  | .style => 1
  | .info => 0

def name : Severity → String
  | .error => "ERROR"
  | .warning => "WARNING"
  | .style => "STYLE"
  | .info => "INFO"

def all : List Severity := [.error, .warning, .style, .info]

/-- The severity with a name in capitals. -/
def ofName? (name : String) : Option Severity :=
  all.find? (·.name == name)

end Severity

/-- Puts `replacement` in the place of the bytes from `start` up to, not including, `stop`. -/
structure Edit where
  start : Int
  stop : Int
  replacement : String
  deriving DecidableEq, Repr

structure Issue where
  path : Path
  line : Int
  column : Int
  ruleId : String
  message : String
  severity : Severity
  autoFixable : Bool
  /-- The text that the issue is about. -/
  context : Option String
  start : Int
  stop : Int
  fixes : List Edit
  deriving DecidableEq, Repr

end RubyLint
