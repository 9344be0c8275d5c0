import RubyLint.Literal.Quote
import RubyLint.Text.Blank
import RubyLint.Text.Letter

/-!
# Taking literals apart

A string literal is written between quotation marks or, after a `%` with or without a letter,
between delimiters of its own choice; a regular expression stands between slashes or after `%r`
and may carry option letters.  Splitting keeps every character: the parts put together again give
the literal.
-/

namespace RubyLint

open Text

structure StringParts where
  quote : Quote
  body : String
  delimiters : Delimiters
  deriving DecidableEq, Repr

/-- The family and the opening delimiter that begin a string literal, and the text after them. -/
def stringOpening? : List Char → Option (Quote × Char × List Char)
  | '%' :: 'q' :: opening :: rest => some (.single, opening, rest)
  | '%' :: 'Q' :: opening :: rest => some (.double, opening, rest)
  | '%' :: opening :: rest =>
    if isAlphanumeric opening || isBlank opening then none else some (.double, opening, rest)
  | mark :: rest => (Quote.ofDelimiter? mark).map (·, mark, rest)
  | [] => none

def splitString (text : String) : Option StringParts := do
  let (quote, opening, rest) ← stringOpening? text.toList
  if rest.getLast? = some (closingChar opening) then
    some ⟨quote, String.ofList rest.dropLast, .ofOpening opening⟩
  else
    none

structure RegexParts where
  pattern : String
  /-- The option letters in increasing order, each once. -/
  flags : List Char
  delimiters : Delimiters
  deriving DecidableEq, Repr

/-- Puts `c` at its place in an increasing list without repetition. -/
def insertFlag (c : Char) : List Char → List Char
  | [] => [c]
  | first :: rest =>
    if c < first then c :: first :: rest
    else if c == first then first :: rest
    else first :: insertFlag c rest

def flagSet (flags : List Char) : List Char :=
  flags.foldr insertFlag []

/-- The opening delimiter that begins a regular expression, and the text after it. -/
def regexOpening? : List Char → Option (Char × List Char)
  | '/' :: rest => some ('/', rest)
  | '%' :: 'r' :: opening :: rest => some (opening, rest)
  | _ => none

/-- What stands before and after the last occurrence of `c`. -/
def splitAtLast (c : Char) (text : List Char) : Option (List Char × List Char) :=
  if text.contains c then
    let after := (text.reverse.takeWhile (· != c)).reverse
    some (text.take (text.length - after.length - 1), after)
  else
    none

/-- Splits a regular expression literal; all that follows the last closing delimiter has to be
option letters. -/
def splitRegex (text : String) : Option RegexParts := do
  let (opening, rest) ← regexOpening? text.toList
  let (pattern, flags) ← splitAtLast (closingChar opening) rest
  if flags.all isLetter then
    some ⟨String.ofList pattern, flagSet flags, .ofOpening opening⟩
  else
    none

end RubyLint
