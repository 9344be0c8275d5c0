import RubyLint.Literal.Split

/-!
# Arguments by their literal shape

An argument of a call is a string literal, a regular expression literal, a regular expression
built from one of the two by a constructor, or something whose value is only known when the
program runs.
-/

namespace RubyLint

/-- A string literal without interpolation. -/
structure StringLiteral where
  /-- The source text. -/
  text : String
  quote : Quote
  body : String
  delimiters : Delimiters
  /-- The value, or the reason why there is none; an empty reason stands for an unknown one. -/
  value : Except String String

/-- A regular expression literal without interpolation. -/
structure RegexLiteral where
  /-- The source text. -/
  text : String
  pattern : String
  /-- The option letters in increasing order, each once. -/
  flags : List Char
  delimiters : Delimiters
  deriving DecidableEq, Repr

inductive Argument where
  | string (literal : StringLiteral)
  | regex (literal : RegexLiteral)
  /-- A constructor around a string literal, whose value is the pattern. -/
  | regexOfString (literal : StringLiteral)
  /-- A constructor around a regular expression literal. -/
  | regexOfRegex (literal : RegexLiteral)
  /-- Anything that has to be evaluated. -/
  | dynamic (reason : String)

end RubyLint
