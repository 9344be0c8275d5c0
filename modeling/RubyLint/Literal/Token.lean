import RubyLint.Literal.DecodeError
import RubyLint.Text.Blank

/-!
# Tokens of literal bodies

The body of a literal is read from left to right, one token at a time.  A token is given by the
characters it stands for and by the number of characters it takes from the text after the place
where reading started.  Numeric escapes are greedy: they take as many digits as they may.
-/

namespace RubyLint

open Text

/-- What one token stands for, and how many of the characters that follow belong to it. -/
structure Token where
  value : List Char
  width : Nat
  deriving DecidableEq, Repr

namespace Token

def char (c : Char) : Token := ⟨[c], 0⟩

def widen (token : Token) : Token := ⟨token.value, token.width + 1⟩

/-- An octal escape whose first digit is `first`: up to two more digits belong to it. -/
def octal (first : Char) (rest : List Char) : Except DecodeError Token :=
  let more := (rest.take 2).takeWhile isOctalDigit
  let code := ofDigits 8 (first :: more)
  if code < 0x80 then .ok ⟨[Char.ofNat code], more.length⟩
  else .error (.octalBeyondAscii (first :: more))

def hex (rest : List Char) : Except DecodeError Token :=
  match (rest.take 2).takeWhile isHexDigit with
  | [] => .error .hexWithoutDigits
  | digits =>
    let code := ofDigits 16 digits
    if code < 0x80 then .ok ⟨[Char.ofNat code], digits.length⟩
    else .error (.hexBeyondAscii digits)

/-- The character whose code point `digits` name: one to six hexadecimal digits. -/
def codePoint (digits : List Char) : Except DecodeError Char :=
  if digits.isEmpty || !digits.all isHexDigit || 6 < digits.length then
    .error (.malformedCodePoint digits)
  else
    let code := ofDigits 16 digits
    if code.isValidChar then .ok (Char.ofNat code) else .error (.noScalarValue code)

/-- A Unicode escape: four digits, or code points separated by blanks between braces. -/
def unicode (rest : List Char) : Except DecodeError Token :=
  match rest with
  | '\x7b' :: inner =>
    if inner.contains '\x7d' then
      let group := inner.takeWhile (· != '\x7d')
      match words group with
      | [] => .error .emptyUnicode
      | parts => (parts.mapM codePoint).map (⟨·, group.length + 2⟩)
    else
      .error .unterminatedUnicode
  | _ =>
    let digits := rest.take 4
    if digits.length = 4 then (codePoint digits).map (⟨[·], 4⟩) else .error .shortUnicode

def opensInterpolation (rest : List Char) : Bool :=
  match rest with
  | [] => false
  | c :: _ => c == '\x7b' || c == '@' || c == '$'

/-- Reads a token whose escapes are `escape`: a backslash takes the next character as the escape's
letter, and every other character stands for itself. -/
def withEscapes (escape : Char → List Char → Except DecodeError Token)
    (c : Char) (rest : List Char) : Except DecodeError Token :=
  if c == '#' && opensInterpolation rest then .error .interpolation
  else if c != '\\' then .ok (.char c)
  else
    match rest with
    | [] => .error .trailingBackslash
    | letter :: rest => (escape letter rest).map widen

end Token

/-- The values of all tokens of `body` in order, where `read` reads the token that starts with a
given character. -/
def readTokens (read : Char → List Char → Except DecodeError Token) (body : List Char) :
    Except DecodeError (List Char) :=
  match body with
  | [] => .ok []
  | c :: rest =>
    match read c rest with
    | .error e => .error e
    | .ok token => (readTokens read (rest.drop token.width)).map (token.value ++ ·)
termination_by body.length

end RubyLint
