import RubyLint.Rule

/-!
# Running rules on a source

The syntax tree of a source comes from a parser that is a parameter here.  All rules see the same
tree; their issues are put in order of line, column and rule, and keep their order where these
agree.  A severity may be overridden for a rule by its identifier or else by its name.
-/

namespace RubyLint

open Text

/-- Overridden severities by identifier or name of a rule. -/
abbrev SeverityOverrides := List (String × Severity)

def Issue.precedes (a b : Issue) : Bool :=
  a.line < b.line || (a.line == b.line &&
    (a.column < b.column || (a.column == b.column && a.ruleId ≤ b.ruleId)))

def SeverityOverrides.for? (overrides : SeverityOverrides) (rule : Rule) : Option Severity :=
  (overrides.lookup rule.id).or (overrides.lookup rule.name)

/-- Gives the issues of a rule their overridden severity. -/
def SeverityOverrides.apply (overrides : SeverityOverrides) (rule : Rule) (issues : List Issue) :
    List Issue :=
  match overrides.for? rule with
  | none => issues
  | some severity => issues.map fun issue => { issue with severity }

/-- A parser and the settings of a run. -/
structure Engine where
  parse : String → Node
  overrides : SeverityOverrides

namespace Engine

/-- The issues that the rules find in a parsed source. -/
def runRules (overrides : SeverityOverrides) (rules : List Rule) (context : Context) :
    Traced Failure (List Issue) := do
  let found ← Traced.collect
    (fun rule => do return overrides.apply rule (← rule.check context)) rules
  return found.flatten.mergeSort Issue.precedes

def parseSource (engine : Engine) (path : Path) (source : String) : Traced Failure Context := do
  let tree := engine.parse source
  let syntaxErrors := SyntaxError.ofTree (bytes source) tree
  if !syntaxErrors.isEmpty then
    Traced.write .debug .syntaxTree
      (toString syntaxErrors.length ++ " syntax error(s) in parsed source")
  return ⟨path, bytes source, tree, syntaxErrors⟩

/-- The issues of a source. -/
def analyze (engine : Engine) (rules : List Rule) (path : Path) (source : String) :
    Traced Failure (List Issue) := do
  let context ← engine.parseSource path source
  let _ ← Traced.collect
    (fun e => Traced.write .warning .engine (toString path ++ ": " ++ e.message))
    context.syntaxErrors
  runRules engine.overrides rules context

end Engine

end RubyLint
