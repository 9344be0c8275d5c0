import RubyLint.Issue
import RubyLint.JsonValue

/-!
# Reports

A report lists issues in the form in which they are shown: in order of path, line and column, and
only from a given severity on.  It is written as one line an issue or as JSON.
-/

namespace RubyLint

structure ReportedIssue where
  severity : Severity
  path : String
  line : Int
  column : Int
  ruleId : String
  message : String
  /-- The replacement of the first edit. -/
  suggestion : Option String
  autoFixable : Bool
  deriving DecidableEq, Repr

namespace ReportedIssue

def ofIssue (issue : Issue) : ReportedIssue where
  severity := issue.severity
  path := toString issue.path
  line := issue.line
  column := issue.column
  ruleId := issue.ruleId
  message := issue.message
  suggestion := issue.fixes.head?.map (·.replacement)
  autoFixable := issue.autoFixable

/-- The order of a report. -/
def precedes (a b : ReportedIssue) : Bool :=
  a.path < b.path || (a.path == b.path &&
    (a.line < b.line || (a.line == b.line && a.column ≤ b.column)))

def text (issue : ReportedIssue) : String :=
  issue.severity.name ++ ": " ++ issue.path ++ ":" ++ toString issue.line ++ ":" ++
    toString issue.column ++ " [" ++ issue.ruleId ++ "] - " ++ issue.message

def json (issue : ReportedIssue) : JsonValue :=
  .object [
    ("severity", .text issue.severity.name),
    ("file_path", .text issue.path),
    ("line_number", .integer issue.line),
    ("column", .integer issue.column),
    ("rule_id", .text issue.ruleId),
    ("message", .text issue.message),
    ("suggestion", (issue.suggestion.map JsonValue.text).getD .null),
    ("auto_fixable", .boolean issue.autoFixable)]

end ReportedIssue

structure Report where
  issues : List ReportedIssue
  filesChecked : Int
  fixed : Int

namespace Report

/-- The issues from the severity `least` on, in the order of a report. -/
def select (least : Severity) (issues : List Issue) : List ReportedIssue :=
  ((issues.map ReportedIssue.ofIssue).mergeSort ReportedIssue.precedes).filter fun issue =>
    least.rank ≤ issue.severity.rank

def json (report : Report) : String :=
  JsonValue.render (.object [
    ("issues", .list (report.issues.map ReportedIssue.json)),
    ("files_checked", .integer report.filesChecked),
    ("fixed", .integer report.fixed)])

end Report

end RubyLint
