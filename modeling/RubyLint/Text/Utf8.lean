import RubyLint.Text.Hex

/-!
# UTF-8

Sources and files are sequences of bytes, and offsets count bytes.  `encode` gives the bytes of a
text.  In the other direction a sequence of bytes is cut from left to right into characters and
ill-formed pieces.  An ill-formed piece is as long as some prefix of a well-formed character could
be, so it ends before the first byte that rules a character out.  `decode` stops at the first such
piece and says what is wrong with it; `decodeLossy` puts U+FFFD in its place and goes on.
-/

namespace RubyLint.Text

def encode (text : List Char) : List UInt8 :=
  text.flatMap String.utf8EncodeChar

def bytes (text : String) : List UInt8 :=
  encode text.toList

/-- Why bytes are no character. -/
inductive Utf8Fault where
  /-- The first byte begins no character. -/
  | invalidStart
  /-- A byte that should go on with the character does not. -/
  | invalidContinuation
  /-- The bytes end within the character. -/
  | unexpectedEnd
  deriving DecidableEq, Repr

def Utf8Fault.text : Utf8Fault → String
  | .invalidStart => "invalid start byte"
  | .invalidContinuation => "invalid continuation byte"
  | .unexpectedEnd => "unexpected end of data"

/-- What stands at the front of a sequence of bytes.  The number counts the bytes of the piece
that follow its first byte. -/
inductive Utf8Piece where
  | char (c : Char) (more : Nat)
  | illFormed (fault : Utf8Fault) (more : Nat)
  deriving DecidableEq, Repr

/-- Reads `owed` further bytes of a character, the next of them between `low` and `high`, when
`value` has been put together from its first byte and `more` further ones. -/
def continueChar (more value : Nat) : (owed : Nat) → (low high : Nat) → List UInt8 → Utf8Piece
  | 0, _, _, _ => .char (Char.ofNat value) more
  | _ + 1, _, _, [] => .illFormed .unexpectedEnd more
  | owed + 1, low, high, byte :: rest =>
    if low ≤ byte.toNat ∧ byte.toNat ≤ high then
      continueChar (more + 1) (value * 64 + byte.toNat % 64) owed 0x80 0xBF rest
    else
      .illFormed .invalidContinuation more

/-- The piece that starts with `first`.  The first byte gives the length of the character and
narrows its second byte where a shorter form, a surrogate or a number beyond U+10FFFF has to be
kept out. -/
def pieceAt (first : UInt8) (rest : List UInt8) : Utf8Piece :=
  let b := first.toNat
  if b < 0x80 then .char (Char.ofNat b) 0
  else if b < 0xC2 then .illFormed .invalidStart 0
  else if b < 0xE0 then continueChar 0 (b % 32) 1 0x80 0xBF rest
  else if b = 0xE0 then continueChar 0 0 2 0xA0 0xBF rest
  else if b = 0xED then continueChar 0 13 2 0x80 0x9F rest
  else if b < 0xF0 then continueChar 0 (b % 16) 2 0x80 0xBF rest
  else if b = 0xF0 then continueChar 0 0 3 0x90 0xBF rest
  else if b < 0xF4 then continueChar 0 (b % 8) 3 0x80 0xBF rest
  else if b = 0xF4 then continueChar 0 4 3 0x80 0x8F rest
  else .illFormed .invalidStart 0

/-- The first ill-formed piece of a sequence of bytes. -/
structure Utf8Error where
  /-- The offset of the piece. -/
  start : Nat
  /-- Its first byte. -/
  byte : UInt8
  /-- The number of its bytes. -/
  length : Nat
  fault : Utf8Fault
  deriving DecidableEq, Repr

def Utf8Error.message (e : Utf8Error) : String :=
  let place :=
    if e.length = 1 then
      "byte 0x" ++ String.ofList (lowerHexPadded 2 e.byte.toNat) ++
        " in position " ++ toString e.start
    else
      "bytes in position " ++ toString e.start ++ "-" ++ toString (e.start + e.length - 1)
  "'utf-8' codec can't decode " ++ place ++ ": " ++ e.fault.text

/-- The text of `input`, whose first byte stands at `offset` of the whole sequence. -/
def decodeFrom (offset : Nat) (input : List UInt8) : Except Utf8Error (List Char) :=
  match input with
  | [] => .ok []
  | first :: rest =>
    match pieceAt first rest with
    | .char c more => (decodeFrom (offset + 1 + more) (rest.drop more)).map (c :: ·)
    | .illFormed fault more => .error ⟨offset, first, 1 + more, fault⟩
termination_by input.length

/-- The text whose bytes are `input`, or the first ill-formed piece. -/
def decode (input : List UInt8) : Except Utf8Error String :=
  (decodeFrom 0 input).map String.ofList

/-- The text of `input` with U+FFFD for each ill-formed piece. -/
def decodeLossy (input : List UInt8) : List Char :=
  match input with
  | [] => []
  | first :: rest =>
    match pieceAt first rest with
    | .char c more => c :: decodeLossy (rest.drop more)
    | .illFormed _ more => '\uFFFD' :: decodeLossy (rest.drop more)
termination_by input.length

end RubyLint.Text
