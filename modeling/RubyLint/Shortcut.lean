import RubyLint.Argument.Fact
import RubyLint.Issue

/-!
# Calls of `gsub` that a faster method can stand in for

A call of `gsub` or `gsub!` with two arguments replaces every match of the first by the second.
When the first can only match one fixed character, `tr` does the same for a replacement of one
character, and `delete` for an empty one.  Every other call is kept.  The edit covers the call
from the name of the method to its end, so the receiver stays as it is, and each new argument
keeps the quotes of the string it comes from.
-/

namespace RubyLint

inductive Shortcut where
  /-- Every `source` becomes `target`. -/
  | tr (source target : String)
  /-- Every `source` goes. -/
  | delete (source : String)
  | keep (reason : String)
  deriving DecidableEq, Repr

def CallSite.isSubstitution (call : CallSite) : Bool :=
  call.methodName == "gsub" || call.methodName == "gsub!"

namespace Shortcut

def ofArguments [StackRoom] (source : List UInt8) (pattern replacement : Node) :
    Traced Failure Shortcut := do
  match ← Fact.ofPatternNode source pattern with
  | .empty => return .keep "empty pattern"
  | .indeterminate reason => return .keep ("pattern: " ++ reason)
  | .fixed c =>
    match ← Fact.ofReplacementNode source replacement with
    | .fixed r => return .tr c.toString r.toString
    | .empty => return .delete c.toString
    | .indeterminate reason => return .keep ("replacement: " ++ reason)

def ofCall [StackRoom] (source : List UInt8) (call : CallSite) : Traced Failure Shortcut :=
  if !call.isSubstitution then pure (.keep "not a substitute call")
  else if call.receiver.isNone || call.operator != some "." then pure (.keep "no plain receiver")
  else if call.hasBlock || call.hasBlockPass then pure (.keep "call has a block")
  else
    match call.arguments with
    | [pattern, replacement] => ofArguments source pattern replacement
    | arguments =>
      pure (.keep ("expected 2 arguments, got " ++ toString arguments.length))

/-- The name of the faster method, with an exclamation mark if the call has one. -/
def method (call : CallSite) (shortcut : Shortcut) : Except Failure String :=
  let bang := if call.isBang then "!" else ""
  match shortcut with
  | .tr _ _ => .ok ("tr" ++ bang)
  | .delete _ => .ok ("delete" ++ bang)
  | .keep _ => .error .keptCallHasNoMethod

/-- The quotes that an argument is written with; all but strings prefer single ones. -/
def quotePreference [StackRoom] (source : List UInt8) (node : Node) : Traced Failure Quote := do
  match ← Argument.resolve source node with
  | .string literal => return literal.quote
  | _ => return .single

def literal [StackRoom] (source : List UInt8) (text : String) (node : Node) :
    Traced Failure String := do
  let preference ← quotePreference source node
  let encoded ← Traced.ofExcept ((encodeText text preference).mapError .notOneCharacter)
  return encoded.text

def literals [StackRoom] (source : List UInt8) (shortcut : Shortcut) (pattern replacement : Node) :
    Traced Failure (List String) := do
  match shortcut with
  | .tr c r => return [← literal source c pattern, ← literal source r replacement]
  | .delete c => return [← literal source c pattern]
  | .keep _ => Traced.fail .keptCallHasNoEdit

def edit [StackRoom] (source : List UInt8) (call : CallSite) (shortcut : Shortcut) :
    Traced Failure Edit := do
  match call.arguments with
  | [pattern, replacement] =>
    let arguments := String.intercalate ", " (← literals source shortcut pattern replacement)
    let name ← Traced.ofExcept (method call shortcut)
    let text :=
      if call.parenthesized then name ++ "(" ++ arguments ++ ")" else name ++ " " ++ arguments
    return ⟨call.span.1, call.span.2, text⟩
  | arguments => Traced.fail (.argumentCount arguments.length)

end Shortcut

end RubyLint
