import RubyLint.Rule
import RubyLint.Shortcut

/-!
# The rule on replacing single characters

Flags every `gsub` and `gsub!` call that `tr` or `delete` can stand in for.  Calls inside a
syntax error are passed over.  A call with a comment between the name of the method and its end is
reported without an edit, because the edit would drop the comment.
-/

namespace RubyLint.Rule

/-- What the rule has to say about one call node. -/
def replacementFinding? [StackRoom] (context : Context) (place : Place) :
    Traced Failure (Option Finding) := do
  let node := place.node
  match ← liftText (node.callSite? context.source) with
  | none => return none
  | some call =>
    if !call.isSubstitution then
      return none
    if !context.syntaxErrors.isEmpty && place.insideError then
      return none
    match ← Shortcut.ofCall context.source call with
    | .keep reason =>
      Traced.write .debug .replacementRule
        (toString context.path ++ ": " ++ call.methodName ++ " at byte " ++ toString node.start ++
          " kept: " ++ reason)
      return none
    | shortcut =>
      let fixes ←
        if node.hasComment call.span.1 then pure []
        else List.singleton <$> Shortcut.edit context.source call shortcut
      let preferred ← Traced.ofExcept (Shortcut.method call shortcut)
      return some {
        node
        message := "Use `" ++ preferred ++ "` instead of `" ++ call.methodName ++ "`."
        start := some call.span.1
        stop := some call.span.2
        fixes }

def replacementFindings [StackRoom] (context : Context) : Traced Failure (List Finding) := do
  let calls := (Place.ofRoot context.tree).walk.filter (·.node.kind == "call")
  let found ← Traced.collect (replacementFinding? context) calls
  return found.filterMap fun finding => finding

def characterReplacement [StackRoom] : Rule :=
  reporting "P001" "string-replacement" .warning true
    ("Use `tr` instead of `gsub` when replacing one character with another, " ++
      "and `delete` when removing one character.")
    replacementFindings

end RubyLint.Rule
