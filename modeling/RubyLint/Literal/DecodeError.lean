import RubyLint.Text.Quoted

/-!
# Why a literal has no fixed value

Decoding the body of a literal stops at the first construct whose value is not one fixed sequence
of characters.  Each such construct is a cause of its own, and `message` gives its wording.
-/

namespace RubyLint

open Text

inductive DecodeError where
  /-- A character with a meaning of its own in regular expressions. -/
  | metacharacter (c : Char)
  /-- A `#` before an opening brace, `@` or `$`. -/
  | interpolation
  | trailingBackslash
  /-- An octal escape of a byte that is no ASCII character. -/
  | octalBeyondAscii (digits : List Char)
  | hexWithoutDigits
  /-- A hexadecimal escape of a byte that is no ASCII character. -/
  | hexBeyondAscii (digits : List Char)
  /-- A Unicode escape in braces without the closing brace. -/
  | unterminatedUnicode
  /-- A Unicode escape in braces that names no code point. -/
  | emptyUnicode
  /-- A Unicode escape with fewer than four characters after it. -/
  | shortUnicode
  /-- Characters that are not one to six hexadecimal digits. -/
  | malformedCodePoint (digits : List Char)
  /-- A surrogate, or a number above U+10FFFF. -/
  | noScalarValue (code : Nat)
  /-- A control or meta escape of a string. -/
  | controlEscape (c : Char)
  /-- An escape that regular expressions give a meaning other than one character. -/
  | specialEscape (c : Char)
  | escapedNewline
  /-- A text that does not start and end with the same quotation mark. -/
  | notQuoted (text : String)
  deriving DecidableEq, Repr

namespace DecodeError

def message : DecodeError → String
  | .metacharacter c => "metacharacter " ++ quoted c.toString
  | .interpolation => "interpolation"
  | .trailingBackslash => "trailing backslash"
  | .octalBeyondAscii digits => "octal escape \\" ++ String.ofList digits ++ " is not ASCII"
  | .hexWithoutDigits => "invalid hex escape"
  | .hexBeyondAscii digits => "hex escape \\x" ++ String.ofList digits ++ " is not ASCII"
  | .unterminatedUnicode => "unterminated unicode escape"
  | .emptyUnicode => "empty unicode escape"
  | .shortUnicode => "invalid unicode escape"
  | .malformedCodePoint digits => "invalid unicode escape " ++ quoted (String.ofList digits)
  | .noScalarValue code => "invalid code point U+" ++ String.ofList (upperHex code)
  | .controlEscape c => "control/meta escape \\" ++ c.toString
  | .specialEscape c => "escape \\" ++ c.toString
  | .escapedNewline => "escaped newline"
  | .notQuoted text => "not a quoted literal: " ++ quoted text

end DecodeError

end RubyLint
