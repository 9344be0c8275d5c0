import RubyLint.Text.Hex
import RubyLint.Text.Printable

/-!
# Quoted display of a text

Messages show a piece of source text between quotes so that every character can be told apart.
Single quotes are used unless the text holds a single quote and no double quote.  The backslash,
the quote in use, tab, line feed and carriage return have short escapes; every other character
that is not printable is shown by its code point in two, four or eight hexadecimal digits.
-/

namespace RubyLint.Text

/-- The quote that `quoted` puts around `text`. -/
def displayQuote (text : List Char) : Char :=
  if text.contains '\'' && !text.contains '"' then '"' else '\''

/-- The code point of `c` in the shortest of the three numeric escapes. -/
def numericEscape (c : Char) : List Char :=
  if c.toNat < 0x100 then '\\' :: 'x' :: lowerHexPadded 2 c.toNat
  else if c.toNat < 0x10000 then '\\' :: 'u' :: lowerHexPadded 4 c.toNat
  else '\\' :: 'U' :: lowerHexPadded 8 c.toNat

/-- How one character is shown between two `quote`s. -/
def displayChar (quote c : Char) : List Char :=
  if c == quote || c == '\\' then ['\\', c]
  else if c == '\t' then ['\\', 't']
  else if c == '\n' then ['\\', 'n']
  else if c == '\r' then ['\\', 'r']
  else if isPrintable c then [c]
  else numericEscape c

def quotedChars (text : List Char) : List Char :=
  let quote := displayQuote text
  quote :: text.flatMap (displayChar quote) ++ [quote]

/-- The display of `text`, quotes included. -/
def quoted (text : String) : String :=
  String.ofList (quotedChars text.toList)

end RubyLint.Text
