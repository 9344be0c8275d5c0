import RubyLint.Literal.Encode
import RubyLint.Text.Utf8

/-!
# What can stop an analysis

Analysing a source fails when a node does not cover well-formed text, and when more constructors are
nested in an argument than the stack has room for.  The other failures belong to steps that the
program never comes to: a constructor without a call site or an argument, a replacement for a call
without exactly two arguments or for one that is to be kept, and a literal for a text that is not
one character.
-/

namespace RubyLint

open Text

inductive Failure where
  | illFormedText (e : Utf8Error)
  | nestedTooDeep
  | noCallSite
  | noArgument
  | argumentCount (count : Nat)
  | keptCallHasNoMethod
  | keptCallHasNoEdit
  | notOneCharacter (e : NotOneCharacter)
  deriving DecidableEq, Repr

def Failure.message : Failure → String
  | .illFormedText e => e.message
  | .nestedTooDeep => "maximum recursion depth exceeded"
  | .noCallSite => "no call of a named method"
  | .noArgument => "no argument"
  | .argumentCount count => "expected 2 arguments, got " ++ toString count
  | .keptCallHasNoMethod => "NoMatch has no replacement method"
  | .keptCallHasNoEdit => "Cannot emit a rewrite for NoMatch"
  | .notOneCharacter e => e.message

end RubyLint
