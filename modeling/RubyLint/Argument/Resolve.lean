import RubyLint.Argument.Basic
import RubyLint.Failure
import RubyLint.Literal.Decode
import RubyLint.StackRoom
import RubyLint.Traced
import RubyLint.Tree.CallSite

/-!
# The literal shape of an argument node

Only literal text is looked at.  A string or a regular expression with an interpolation, a
literal written in a form that cannot be split, and every other node are dynamic.  The argument of
a constructor is resolved in turn, as long as the stack has room for the constructors around it.
-/

namespace RubyLint

open Text

def liftText {α : Type} (result : Except Utf8Error α) : Traced Failure α :=
  Traced.ofExcept (result.mapError Failure.illFormedText)

namespace Argument

def ofStringText (text : String) : Traced Failure Argument := do
  match splitString text with
  | none => return .dynamic "unsupported string literal form"
  | some parts =>
    match decodeString parts.body parts.quote parts.delimiters with
    | .error e =>
      Traced.write .debug .argument
        ("Cannot decode string literal " ++ quoted text ++ ": " ++ e.message)
      return .string ⟨text, parts.quote, parts.body, parts.delimiters, .error e.message⟩
    | .ok value => return .string ⟨text, parts.quote, parts.body, parts.delimiters, .ok value⟩

def ofRegexText (text : String) : Argument :=
  match splitRegex text with
  | none => .dynamic "unsupported regexp literal form"
  | some parts => .regex ⟨text, parts.pattern, parts.flags, parts.delimiters⟩

/-- What a constructor makes of its argument. -/
def construct : Argument → Argument
  | .string literal => .regexOfString literal
  | .regex literal => .regexOfRegex literal
  | _ => .dynamic "regexp constructor argument is not a literal"

def ofConstructor (source : List UInt8) (node : Node) : Traced Failure Node := do
  match ← liftText (node.callSite? source) with
  | none => Traced.fail .noCallSite
  | some call =>
    match call.arguments with
    | [] => Traced.fail .noArgument
    | argument :: _ => return argument

/-- The shape of an argument node with room for `room` constructors around literals. -/
def resolveWithin (source : List UInt8) (room : Nat) (node : Node) : Traced Failure Argument := do
  if node.kind == "string" then
    if node.hasInterpolation then
      return .dynamic "string interpolation"
    ofStringText (← liftText (node.text source))
  else if node.kind == "regex" then
    if node.hasInterpolation then
      return .dynamic "regexp interpolation"
    return ofRegexText (← liftText (node.text source))
  else
    if ← liftText (node.isRegexpConstructor source) then
      match room with
      | 0 => Traced.fail .nestedTooDeep
      | room + 1 => return (← resolveWithin source room (← ofConstructor source node)).construct
    else
      return .dynamic ("unsupported argument type '" ++ node.kind ++ "'")

def resolve [StackRoom] (source : List UInt8) (node : Node) : Traced Failure Argument :=
  resolveWithin source StackRoom.constructors node

end Argument

end RubyLint
