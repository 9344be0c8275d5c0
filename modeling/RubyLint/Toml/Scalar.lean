import RubyLint.Text.Hex
import RubyLint.Toml.Value

/-!
# Strings, numbers and dates of TOML

Each reader takes what it can from the front of a text and gives the rest, or fails.  Strings are
basic, with escapes between double quotes, or literal, between single quotes; either may run over
several lines between three quotes.  Control characters have to be escaped, except the tab and,
in a string of several lines, the line feed.
-/

namespace RubyLint.Toml

open Text

def isSpace (c : Char) : Bool := c == ' ' || c == '\t'

def isSpaceOrNewline (c : Char) : Bool := isSpace c || c == '\n'

/-- Whether `c` may not stand for itself in a comment or in a string of one line. -/
def isControl (c : Char) : Bool := (c < ' ' && c != '\t') || c == '\x7f'

theorem length_dropWhile_le (p : Char → Bool) (text : List Char) :
    (text.dropWhile p).length ≤ text.length :=
  (List.dropWhile_suffix p).length_le

/-- The character that `digits`, exactly `count` of them, name. -/
def hexChar (count : Nat) (text : List Char) : Option Char :=
  let digits := text.take count
  if digits.length = count ∧ digits.all isHexDigit then
    let code := ofDigits 16 digits
    if code.isValidChar then some (Char.ofNat code) else none
  else
    none

/-- The character of the escape that `text` begins with, and the number of its characters. -/
def escape? : (text : List Char) → Option (Char × Nat)
  | 'b' :: _ => some ('\x08', 1)
  | 't' :: _ => some ('\t', 1)
  | 'n' :: _ => some ('\n', 1)
  | 'f' :: _ => some ('\x0c', 1)
  | 'r' :: _ => some ('\r', 1)
  | '"' :: _ => some ('"', 1)
  | '\\' :: _ => some ('\\', 1)
  | 'u' :: rest => (hexChar 4 rest).map (·, 5)
  | 'U' :: rest => (hexChar 8 rest).map (·, 9)
  | _ => none

/-- The rest of a basic string of one line, after its opening quote. -/
def basicString (text : List Char) : Option (List Char × List Char) :=
  match text with
  | [] => none
  | '"' :: rest => some ([], rest)
  | '\\' :: rest =>
    match escape? rest with
    | none => none
    | some (c, width) =>
      (basicString (rest.drop width)).map fun (body, rest) => (c :: body, rest)
  | c :: rest =>
    if isControl c then none
    else (basicString rest).map fun (body, rest) => (c :: body, rest)
termination_by text.length

/-- What follows the blanks after a backslash at the end of a line. -/
def afterLineBreak (text : List Char) : Option (List Char) :=
  match text.dropWhile isSpace with
  | [] => some []
  | '\n' :: rest => some (rest.dropWhile isSpaceOrNewline)
  | _ => none

theorem afterLineBreak_length_le {text rest : List Char} (h : afterLineBreak text = some rest) :
    rest.length ≤ text.length := by
  have shorter := length_dropWhile_le isSpace text
  unfold afterLineBreak at h
  split at h
  · cases h
    simp
  · next inner hinner =>
    cases h
    have := length_dropWhile_le isSpaceOrNewline inner
    rw [hinner, List.length_cons] at shorter
    omega
  · cases h

/-- Up to two quotes after the closing ones belong to the string. -/
def trailingQuotes (quote : Char) : List Char → List Char × List Char
  | a :: b :: rest =>
    if a == quote then if b == quote then ([a, b], rest) else ([a], b :: rest)
    else ([], a :: b :: rest)
  | [a] => if a == quote then ([a], []) else ([], [a])
  | [] => ([], [])

def longBasicString (text : List Char) : Option (List Char × List Char) :=
  match text with
  | [] => none
  | '"' :: '"' :: '"' :: rest => some (trailingQuotes '"' rest)
  | '\\' :: rest =>
    if (rest.head?.map isSpaceOrNewline).getD false then
      match h : afterLineBreak rest with
      | none => none
      | some rest =>
        have := afterLineBreak_length_le h
        longBasicString rest
    else
      match escape? rest with
      | none => none
      | some (c, width) =>
        (longBasicString (rest.drop width)).map fun (body, rest) => (c :: body, rest)
  | c :: rest =>
    if isControl c && c != '\n' then none
    else (longBasicString rest).map fun (body, rest) => (c :: body, rest)
termination_by text.length

def literalString : List Char → Option (List Char × List Char)
  | [] => none
  | c :: rest =>
    if c == '\'' then some ([], rest)
    else if isControl c then none
    else (literalString rest).map fun (body, rest) => (c :: body, rest)

def longLiteralString : List Char → Option (List Char × List Char)
  | [] => none
  | '\'' :: '\'' :: '\'' :: rest => some (trailingQuotes '\'' rest)
  | c :: rest =>
    if isControl c && c != '\n' then none
    else (longLiteralString rest).map fun (body, rest) => (c :: body, rest)

/-- A line feed right after three opening quotes does not belong to the string. -/
def dropNewline : List Char → List Char
  | '\n' :: rest => rest
  | text => text

def string? : List Char → Option (String × List Char)
  | '"' :: '"' :: '"' :: rest =>
    (longBasicString (dropNewline rest)).map fun (body, rest) => (String.ofList body, rest)
  | '"' :: rest => (basicString rest).map fun (body, rest) => (String.ofList body, rest)
  | '\'' :: '\'' :: '\'' :: rest =>
    (longLiteralString (dropNewline rest)).map fun (body, rest) => (String.ofList body, rest)
  | '\'' :: rest => (literalString rest).map fun (body, rest) => (String.ofList body, rest)
  | _ => none

/-- Digits, with single underscores between them, at the front of a text after a first digit. -/
def moreDigits (isDigit : Char → Bool) : List Char → List Char × List Char
  | [] => ([], [])
  | '_' :: c :: rest =>
    if isDigit c then
      let (digits, rest) := moreDigits isDigit rest
      ('_' :: c :: digits, rest)
    else
      ([], '_' :: c :: rest)
  | c :: rest =>
    if isDigit c then
      let (digits, rest) := moreDigits isDigit rest
      (c :: digits, rest)
    else
      ([], c :: rest)

/-- One digit or more. -/
def digits? (isDigit : Char → Bool) : List Char → Option (List Char × List Char)
  | [] => none
  | c :: rest =>
    if isDigit c then
      let (digits, rest) := moreDigits isDigit rest
      some (c :: digits, rest)
    else
      none

def isDecimalDigit (c : Char) : Bool := '0' ≤ c && c ≤ '9'

def isBinaryDigit (c : Char) : Bool := c == '0' || c == '1'

def basedInteger? : List Char → Option (List Char × List Char)
  | '0' :: 'x' :: rest => (digits? isHexDigit rest).map fun (ds, rest) => ('0' :: 'x' :: ds, rest)
  | '0' :: 'b' :: rest =>
    (digits? isBinaryDigit rest).map fun (ds, rest) => ('0' :: 'b' :: ds, rest)
  | '0' :: 'o' :: rest => (digits? isOctalDigit rest).map fun (ds, rest) => ('0' :: 'o' :: ds, rest)
  | _ => none

def sign : List Char → List Char × List Char
  | '+' :: rest => (['+'], rest)
  | '-' :: rest => (['-'], rest)
  | text => ([], text)

/-- The whole part of a decimal number, which has no leading zero. -/
def wholePart? : List Char → Option (List Char × List Char)
  | '0' :: rest => some (['0'], rest)
  | text => digits? isDecimalDigit text

def fraction (text : List Char) : List Char × List Char :=
  match text with
  | '.' :: rest =>
    match digits? isDecimalDigit rest with
    | some (ds, rest) => ('.' :: ds, rest)
    | none => ([], text)
  | _ => ([], text)

def exponent (text : List Char) : List Char × List Char :=
  match text with
  | c :: rest =>
    if c == 'e' || c == 'E' then
      let (mark, rest) := sign rest
      match digits? isDecimalDigit rest with
      | some (ds, rest) => (c :: mark ++ ds, rest)
      | none => ([], text)
    else
      ([], text)
  | [] => ([], [])

def decimal? (text : List Char) : Option (List Char × List Char) := do
  let (mark, rest) := sign text
  let (whole, rest) ← wholePart? rest
  let (places, rest) := fraction rest
  let (power, rest) := exponent rest
  return (mark ++ whole ++ places ++ power, rest)

/-- Infinity and the undefined number, with or without a sign. -/
def specialNumber? (text : List Char) : Option (List Char × List Char) :=
  let (mark, rest) := sign text
  match rest with
  | 'i' :: 'n' :: 'f' :: rest => some (mark ++ ['i', 'n', 'f'], rest)
  | 'n' :: 'a' :: 'n' :: rest => some (mark ++ ['n', 'a', 'n'], rest)
  | _ => none

def number? (text : List Char) : Option (List Char × List Char) :=
  ((basedInteger? text).or (decimal? text)).or (specialNumber? text)

/-- Exactly `count` decimal digits whose number lies between `low` and `high`. -/
def numeral? (count low high : Nat) (text : List Char) : Option (Nat × List Char) :=
  let digits := text.take count
  let value := ofDigits 10 digits
  if digits.length = count ∧ digits.all isDecimalDigit ∧ low ≤ value ∧ value ≤ high then
    some (value, text.drop count)
  else
    none

def after? (c : Char) : List Char → Option (List Char)
  | [] => none
  | first :: rest => if first == c then some rest else none

def afterTime? (text : List Char) : Option (List Char) := do
  let (_, rest) ← numeral? 2 0 23 text
  let (_, rest) ← numeral? 2 0 59 (← after? ':' rest)
  let (_, rest) ← numeral? 2 0 59 (← after? ':' rest)
  match rest with
  | '.' :: c :: more => return if isDecimalDigit c then more.dropWhile isDecimalDigit else rest
  | _ => return rest

def afterOffset (text : List Char) : List Char :=
  match text with
  | 'Z' :: rest => rest
  | 'z' :: rest => rest
  | c :: rest =>
    if c == '+' || c == '-' then
      let hoursAndMinutes := do
        let (_, rest) ← numeral? 2 0 23 rest
        let (_, rest) ← numeral? 2 0 59 (← after? ':' rest)
        return rest
      hoursAndMinutes.getD text
    else
      text
  | [] => text

def daysInMonth (year month : Nat) : Nat :=
  if month = 2 then
    if year % 4 = 0 ∧ (year % 100 ≠ 0 ∨ year % 400 = 0) then 29 else 28
  else if month = 4 ∨ month = 6 ∨ month = 9 ∨ month = 11 then 30
  else 31

def afterDateTime (text : List Char) : List Char :=
  match text with
  | c :: rest =>
    if c == 'T' || c == 't' || c == ' ' then ((afterTime? rest).map afterOffset).getD text
    else text
  | [] => text

/-- A date with or without a time, and whether the calendar has that day. -/
def date? (text : List Char) : Option (Bool × List Char) := do
  let (year, rest) ← numeral? 4 0 9999 text
  let (month, rest) ← numeral? 2 1 12 (← after? '-' rest)
  let (day, rest) ← numeral? 2 1 31 (← after? '-' rest)
  return (0 < year && day ≤ daysInMonth year month, afterDateTime rest)

def consumed (text rest : List Char) : String :=
  String.ofList (text.take (text.length - rest.length))

/-- The number of digits of a decimal integer; other numbers have none that count. -/
def integerDigits (number : List Char) : Nat :=
  let isPart (c : Char) := isDecimalDigit c || c == '_' || c == '+' || c == '-'
  if number.all isPart then number.countP isDecimalDigit else 0

/-- A date, a time or a number.  A date that the calendar does not have is no value at all. -/
def momentOrNumber (text : List Char) : Except Error (Value × List Char) :=
  match date? text with
  | some (valid, rest) =>
    if valid then .ok (.moment (consumed text rest), rest) else .error .malformed
  | none =>
    match afterTime? text with
    | some rest => .ok (.moment (consumed text rest), rest)
    | none =>
      match number? text with
      | none => .error .malformed
      | some (number, rest) =>
        if digitLimit < integerDigits number then .error (.tooManyDigits (integerDigits number))
        else .ok (.number (String.ofList number), rest)

end RubyLint.Toml
