import RubyLint.Literal.Quote
import RubyLint.Literal.Token

/-!
# Values of literal bodies

Three readings of the text between the delimiters of a Ruby literal.  A single-quoted body is
taken as it stands, except that a backslash before a backslash or a delimiter is dropped.  A
double-quoted body has escapes.  A regular expression has a value only if every piece of it
matches one fixed character, so its metacharacters and classes are refused.
-/

namespace RubyLint

open Text

/-- The characters that the letter of a short escape stands for in a double-quoted string. -/
def stringEscape? : Char → Option Char
  | 'n' => some '\n'
  | 't' => some '\t'
  | 'r' => some '\r'
  | 'f' => some '\x0c'
  | 'v' => some '\x0b'
  | 'a' => some '\x07'
  | 'b' => some '\x08'
  | 'e' => some '\x1b'
  | 's' => some ' '
  | _ => none

/-- The characters that the letter of a short escape stands for in a regular expression, where
`\b` is a word boundary and `\s` a class. -/
def regexEscape? : Char → Option Char
  | 'n' => some '\n'
  | 't' => some '\t'
  | 'r' => some '\r'
  | 'f' => some '\x0c'
  | 'v' => some '\x0b'
  | 'a' => some '\x07'
  | 'e' => some '\x1b'
  | _ => none

/-- Whether `c` has a meaning of its own in a regular expression. -/
def isMetacharacter (c : Char) : Bool :=
  "*+?\x7b\x7d^$.|[]()".toList.contains c

/-- Whether an escaped `c` is a class, an anchor, a property, a control or meta character, an
octal number or a back reference in a regular expression. -/
def isSpecialEscape (c : Char) : Bool :=
  "abcdefghknoprstuvwxzABCDGHKMNOPRSWXZ123456789".toList.contains c

def stringEscape (letter : Char) (rest : List Char) : Except DecodeError Token :=
  match stringEscape? letter with
  | some c => .ok (.char c)
  | none =>
    if letter == '\n' then .ok ⟨[], 0⟩
    else if isOctalDigit letter then Token.octal letter rest
    else if letter == 'x' then Token.hex rest
    else if letter == 'u' then Token.unicode rest
    else if letter == 'c' || letter == 'C' || letter == 'M' then .error (.controlEscape letter)
    else .ok (.char letter)

def regexEscape (letter : Char) (rest : List Char) : Except DecodeError Token :=
  match regexEscape? letter with
  | some c => .ok (.char c)
  | none =>
    if letter == '0' then Token.octal letter rest
    else if letter == 'x' then Token.hex rest
    else if letter == 'u' then Token.unicode rest
    else if isSpecialEscape letter then .error (.specialEscape letter)
    else if letter == '\n' then .error .escapedNewline
    else .ok (.char letter)

def stringToken (c : Char) (rest : List Char) : Except DecodeError Token :=
  Token.withEscapes stringEscape c rest

def regexToken (c : Char) (rest : List Char) : Except DecodeError Token :=
  if isMetacharacter c then .error (.metacharacter c) else Token.withEscapes regexEscape c rest

/-- The value of a single-quoted body between `delimiters`. -/
def decodeSingle (delimiters : Delimiters) : List Char → List Char
  | [] => []
  | [c] => [c]
  | c :: next :: rest =>
    if c == '\\' && (next == '\\' || delimiters.contains next) then
      next :: decodeSingle delimiters rest
    else
      c :: decodeSingle delimiters (next :: rest)

def decodeDouble (body : List Char) : Except DecodeError (List Char) :=
  readTokens stringToken body

def decodeString (body : String) (quote : Quote) (delimiters : Delimiters) :
    Except DecodeError String :=
  match quote with
  | .single => .ok (String.ofList (decodeSingle delimiters body.toList))
  | .double => (decodeDouble body.toList).map String.ofList

/-- The text that a regular expression matches, when it matches only one. -/
def decodeRegex (body : String) : Except DecodeError String :=
  (readTokens regexToken body.toList).map String.ofList

/-- The value of a literal between two equal quotation marks. -/
def decodeLiteral (text : String) : Except DecodeError String :=
  match text.toList with
  | mark :: rest =>
    match Quote.ofDelimiter? mark with
    | some quote =>
      if rest.getLast? = some mark then
        decodeString (String.ofList rest.dropLast) quote ⟨mark.toString, mark.toString⟩
      else
        .error (.notQuoted text)
    | none => .error (.notQuoted text)
  | [] => .error (.notQuoted text)

end RubyLint
