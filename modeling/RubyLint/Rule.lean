import RubyLint.Failure
import RubyLint.Issue
import RubyLint.Text.Position
import RubyLint.Traced
import RubyLint.Tree.SyntaxError

/-!
# Rules

A rule looks at one parsed source and reports issues.  It has an identifier, a name, a severity
for all it reports, and says whether its issues can be fixed.  An issue counts as fixable only if
it brings edits along.
-/

namespace RubyLint

open Text

/-- What a rule can see of one source. -/
structure Context where
  path : Path
  source : List UInt8
  tree : Node
  syntaxErrors : List SyntaxError

/-- Something that a rule has found; the span is that of the node unless it is given. -/
structure Finding where
  node : Node
  message : String
  start : Option Int
  stop : Option Int
  fixes : List Edit

structure Rule where
  id : String
  name : String
  severity : Severity
  autoFixable : Bool
  description : String
  check : Context → Traced Failure (List Issue)

namespace Rule

/-- The issue that a finding of `rule` becomes. -/
def issue (rule : Rule) (context : Context) (finding : Finding) : Issue :=
  let start := finding.start.getD finding.node.start
  let stop := finding.stop.getD finding.node.stop
  let (line, column) := position context.source start
  { path := context.path
    line
    column
    ruleId := rule.id
    message := finding.message
    severity := rule.severity
    autoFixable := rule.autoFixable && !finding.fixes.isEmpty
    context := some (String.ofList (decodeLossy (slice context.source start stop)))
    start
    stop
    fixes := finding.fixes }

/-- A rule with the given properties that reports what `findings` finds. -/
def reporting (id name : String) (severity : Severity) (autoFixable : Bool) (description : String)
    (findings : Context → Traced Failure (List Finding)) : Rule :=
  let bare : Rule := ⟨id, name, severity, autoFixable, description, fun _ => pure []⟩
  { bare with
    check := fun context => do
      let found ← findings context
      return found.map (bare.issue context) }

end Rule

end RubyLint
