import RubyLint.Argument.Resolve

/-!
# The one character an argument denotes

A fact says whether an argument is one fixed character, is empty, or cannot be told.  A regular
expression counts only without options and only if it matches one text.  The value of a string
handed to a constructor is the body of a regular expression and is read once more.
-/

namespace RubyLint

inductive Fact where
  | fixed (c : Char)
  | empty
  | indeterminate (reason : String)
  deriving DecidableEq, Repr

namespace Fact

def ofText (text : String) : Fact :=
  match text.toList with
  | [] => .empty
  | [c] => .fixed c
  | _ => .indeterminate "multi-character"

def ofPattern (pattern : String) : Fact :=
  match decodeRegex pattern with
  | .ok text => ofText text
  | .error e => .indeterminate e.message

def ofMissingValue (reason : String) : Fact :=
  .indeterminate (if reason == "" then "undecodable string" else reason)

def ofRegex (literal : RegexLiteral) : Fact :=
  if literal.flags.isEmpty then ofPattern literal.pattern
  else .indeterminate ("regexp options " ++ String.ofList literal.flags)

def ofArgument : Argument → Fact
  | .string literal =>
    match literal.value with
    | .ok text => ofText text
    | .error reason => ofMissingValue reason
  | .regex literal => ofRegex literal
  | .regexOfRegex literal => ofRegex literal
  | .regexOfString literal =>
    match literal.value with
    | .ok pattern => ofPattern pattern
    | .error reason => ofMissingValue reason
  | .dynamic reason => .indeterminate reason

def ofPatternNode [StackRoom] (source : List UInt8) (node : Node) : Traced Failure Fact := do
  let fact := ofArgument (← Argument.resolve source node)
  if let .indeterminate reason := fact then
    Traced.write .debug .character
      ("Pattern at byte " ++ toString node.start ++ " is indeterminate: " ++ reason)
  return fact

/-- The fact about the replacement of a call, which has to be a plain string literal. -/
def ofReplacementNode [StackRoom] (source : List UInt8) (node : Node) : Traced Failure Fact := do
  match ← Argument.resolve source node with
  | .string literal => return ofArgument (.string literal)
  | _ => return .indeterminate "replacement is not a string literal"

end Fact

end RubyLint
