import RubyLint.Literal.Quote
import RubyLint.Text.Quoted

/-!
# Writing one character as a string literal

The literal keeps the preferred family whenever the character can be written in it.  Control
characters with a short escape and characters that cannot be shown need the double-quoted family,
and a character that is the preferred quotation mark itself goes between the other ones.  So no
quotation mark ever has to be escaped.
-/

namespace RubyLint

open Text

/-- The letter of the short escape of `c` in a double-quoted string. -/
def shortEscape? : Char → Option Char
  | '\n' => some 'n'
  | '\t' => some 't'
  | '\r' => some 'r'
  | '\x0c' => some 'f'
  | '\x0b' => some 'v'
  | '\x07' => some 'a'
  | '\x08' => some 'b'
  | '\x1b' => some 'e'
  | '\x00' => some '0'
  | _ => none

/-- The escape of `c` by its code point in a double-quoted string. -/
def codePointEscape (c : Char) : List Char :=
  if c.toNat < 0x80 then '\\' :: 'x' :: upperHexPadded 2 c.toNat
  else '\\' :: 'u' :: '\x7b' :: upperHex c.toNat ++ ['\x7d']

structure EncodedChar where
  quote : Quote
  /-- The text between the quotation marks. -/
  body : List Char
  deriving DecidableEq, Repr

def EncodedChar.text (encoded : EncodedChar) : String :=
  String.ofList (encoded.quote.wrap encoded.body)

/-- Writes `c` as a literal, where `printable` tells which characters can be shown. -/
def encodeCharWith (printable : Char → Bool) (c : Char) (preference : Quote) : EncodedChar :=
  match shortEscape? c with
  | some letter => ⟨.double, ['\\', letter]⟩
  | none =>
    if printable c then
      let quote := if c == preference.delimiter then preference.other else preference
      ⟨quote, if c == '\\' then ['\\', '\\'] else [c]⟩
    else
      ⟨.double, codePointEscape c⟩

/-- Writes `c` as a literal of the preferred family if possible. -/
def encodeChar (c : Char) (preference : Quote) : EncodedChar :=
  encodeCharWith isPrintable c preference

/-- A text that should have been one character. -/
structure NotOneCharacter where
  text : String
  deriving DecidableEq, Repr

def NotOneCharacter.message (e : NotOneCharacter) : String :=
  "Expected a single character, got " ++ quoted e.text

def encodeText (text : String) (preference : Quote) : Except NotOneCharacter EncodedChar :=
  match text.toList with
  | [c] => .ok (encodeChar c preference)
  | _ => .error ⟨text⟩

end RubyLint
