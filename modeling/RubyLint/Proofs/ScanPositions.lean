import RubyLint.Proofs.RegexGrammar
import RubyLint.Proofs.StringGrammar
import Mathlib.Tactic

/-!
# Scanning a body by positions

The body of a literal can also be scanned in place, by a loop that keeps the position reached and
the characters read.  Such a loop can go wrong in ways in which the reading of tokens cannot: it may
look for a character behind the end, take a text for a number that is none, or ask for a character
with a code that no character has.  The loops are written out here with each of these as an ending
of its own.  They agree with the reading of tokens, so no loop ends in one of these ways, and every
pass takes at least one character of the body and none behind its end.
-/

namespace RubyLint.Scan

open Text

/-- What ends a scan before the end of the body. -/
inductive Stop where
  /-- The body has no fixed value. -/
  | refused (e : DecodeError)
  /-- There is no character at the position. -/
  | outside (index : Nat)
  /-- The text is not made of digits. -/
  | noNumber (digits : List Char)
  /-- No character has the code. -/
  | noCharacter (code : Nat)
  deriving DecidableEq, Repr

/-- The characters that a pass has read, and the position after them. -/
abbrev Read := Except Stop (List Char × Nat)

def number (isDigit : Char → Bool) (base : Nat) (digits : List Char) : Except Stop Nat :=
  if digits ≠ [] ∧ digits.all isDigit = true then .ok (ofDigits base digits)
  else .error (.noNumber digits)

def character (code : Nat) : Except Stop Char :=
  if code.isValidChar then .ok (Char.ofNat code) else .error (.noCharacter code)

/-- The character whose code point is written by `digits`. -/
def codePoint (digits : List Char) : Except Stop Char :=
  if digits = [] ∨ digits.all isHexDigit = false ∨ 6 < digits.length then
    .error (.refused (.malformedCodePoint digits))
  else do
    let code ← number isHexDigit 16 digits
    if 0x10FFFF < code ∨ 0xD800 ≤ code ∧ code ≤ 0xDFFF then
      .error (.refused (.noScalarValue code))
    else character code

/-- What reading a token from `index` on amounts to. -/
def atIndex (index : Nat) : Except DecodeError Token → Read
  | .error e => .error (.refused e)
  | .ok token => .ok (token.value, index + token.width)

section Positions

variable (body : List Char)

def charAt (index : Nat) : Except Stop Char :=
  match body[index]? with
  | some c => .ok c
  | none => .error (.outside index)

/-- The character after `index`, if there is one. -/
def charAfter (index : Nat) : Except Stop (Option Char) :=
  if index + 1 < body.length then some <$> charAt body (index + 1) else .ok none

/-- The characters from `start` up to `stop`. -/
def between (start stop : Nat) : List Char :=
  (body.take stop).drop start

/-- The position after the digits at `index`, of which at most `limit` are looked at. -/
def endOfDigits (isDigit : Char → Bool) : (limit index : Nat) → Nat
  | 0, index => index
  | limit + 1, index =>
    if (body[index]?).any isDigit then endOfDigits isDigit limit (index + 1) else index

/-- The ASCII character whose code is written from `start` up to `stop`. -/
def readAscii (isDigit : Char → Bool) (base : Nat) (beyond : List Char → DecodeError)
    (start stop : Nat) : Read := do
  let code ← number isDigit base (between body start stop)
  if code < 0x80 then
    let c ← character code
    return ([c], stop)
  else .error (.refused (beyond (between body start stop)))

/-- Reads up to three octal digits from `start` on. -/
def readOctal (start : Nat) : Read :=
  readAscii body isOctalDigit 8 .octalBeyondAscii start (endOfDigits body isOctalDigit 3 start)

/-- Reads one or two hexadecimal digits from `start` on. -/
def readHex (start : Nat) : Read :=
  let stop := endOfDigits body isHexDigit 2 start
  if stop = start then .error (.refused .hexWithoutDigits)
  else readAscii body isHexDigit 16 .hexBeyondAscii start stop

/-- Reads four digits from `start` on, or code points between braces. -/
def readUnicode (start : Nat) : Read :=
  if body[start]? = some '\x7b' then
    match (body.drop start).idxOf? '\x7d' with
    | none => .error (.refused .unterminatedUnicode)
    | some width =>
      match words (between body (start + 1) (start + width)) with
      | [] => .error (.refused .emptyUnicode)
      | parts => do
        let chars ← parts.mapM codePoint
        return (chars, start + width + 1)
  else
    let digits := between body start (start + 4)
    if digits.length ≠ 4 then .error (.refused .shortUnicode)
    else do
      let c ← codePoint digits
      return ([c], start + 4)

/-- Reads what `letter` escapes in a double-quoted string; `index` is the position after it. -/
def stringEscapeAt (letter : Char) (index : Nat) : Read :=
  match stringEscape? letter with
  | some c => .ok ([c], index)
  | none =>
    if letter == '\n' then .ok ([], index)
    else if isOctalDigit letter then readOctal body (index - 1)
    else if letter == 'x' then readHex body index
    else if letter == 'u' then readUnicode body index
    else if letter == 'c' || letter == 'C' || letter == 'M' then
      .error (.refused (.controlEscape letter))
    else .ok ([letter], index)

/-- Reads what `letter` escapes in a regular expression; `index` is the position after it. -/
def regexEscapeAt (letter : Char) (index : Nat) : Read :=
  match regexEscape? letter with
  | some c => .ok ([c], index)
  | none =>
    if letter == '0' then readOctal body (index - 1)
    else if letter == 'x' then readHex body index
    else if letter == 'u' then readUnicode body index
    else if isSpecialEscape letter then .error (.refused (.specialEscape letter))
    else if letter == '\n' then .error (.refused .escapedNewline)
    else .ok ([letter], index)

/-- One pass at `index`, where `escapeAt` reads escapes. -/
def passWith (escapeAt : Char → Nat → Read) (index : Nat) : Read := do
  let c ← charAt body index
  let next ← charAfter body index
  if c == '#' && next.any (['\x7b', '@', '$'].contains ·) then .error (.refused .interpolation)
  else if c != '\\' then return ([c], index + 1)
  else
    match next with
    | none => .error (.refused .trailingBackslash)
    | some letter => escapeAt letter (index + 2)

def doublePass (index : Nat) : Read :=
  passWith body (stringEscapeAt body) index

def regexPass (index : Nat) : Read := do
  let c ← charAt body index
  if isMetacharacter c then .error (.refused (.metacharacter c))
  else passWith body (regexEscapeAt body) index

def singlePass (delimiters : Delimiters) (index : Nat) : Read := do
  let c ← charAt body index
  let next ← charAfter body index
  match next with
  | none => return ([c], index + 1)
  | some next =>
    if c == '\\' && (next == '\\' || delimiters.contains next) then return ([next], index + 2)
    else return ([c], index + 1)

/-- One pass through the body of a string. -/
def stringPass (quote : Quote) (delimiters : Delimiters) (index : Nat) : Read :=
  match quote with
  | .single => singlePass body delimiters index
  | .double => doublePass body index

/-- The loop over `pass`, begun at a position with some characters read, ends with the result. -/
inductive Ends (pass : Nat → Read) :
    (index : Nat) → (out : List Char) → (result : Except Stop (List Char)) → Prop
  | done {index : Nat} {out : List Char} (hend : body.length ≤ index) :
      Ends pass index out (.ok out)
  | stop {index : Nat} {out : List Char} {stop : Stop} (hinside : index < body.length)
      (hpass : pass index = .error stop) : Ends pass index out (.error stop)
  | next {index next : Nat} {out chars : List Char} {result : Except Stop (List Char)}
      (hinside : index < body.length) (hpass : pass index = .ok (chars, next))
      (hrest : Ends pass next (out ++ chars) result) : Ends pass index out result

/-- `read` refuses the body, or takes a text that is not empty and ends within the body, and
`Stands` relates the text to the characters read. -/
def Takes (Stands : (text value : List Char) → Prop) (start : Nat) (read : Read) : Prop :=
  (∃ e, read = .error (.refused e)) ∨
    ∃ value stop, read = .ok (value, stop) ∧ start < stop ∧ stop ≤ body.length ∧
      Stands (between body start stop) value

/-- Each pass refuses the body or goes on within it, with no more characters read than taken. -/
def Advances (pass : Nat → Read) : Prop :=
  ∀ index < body.length,
    Takes body (fun text value => value.length ≤ text.length) index (pass index)

/-- `pass` reads from each position what `read` reads from the text there. -/
def Follows (pass : Nat → Read) (read : Char → List Char → Except DecodeError Token) : Prop :=
  ∀ index c rest, body.drop index = c :: rest → pass index = atIndex (index + 1) (read c rest)

end Positions

/-! ## Agreement with tokens -/

variable {body rest : List Char} {index start : Nat} {c : Char}

theorem atIndex_map_widen (result : Except DecodeError Token) (index : Nat) :
    atIndex index (result.map Token.widen) = atIndex (index + 1) result := by
  cases result with
  | error e => rfl
  | ok token =>
      simp only [Except.map, atIndex, Token.widen]
      rw [Nat.add_assoc, Nat.add_comm 1]

theorem number_eq
    {isDigit : Char → Bool} {digits : List Char} (base : Nat) (hne : digits ≠ [])
    (hdigits : digits.all isDigit = true) :
    number isDigit base digits = .ok (ofDigits base digits) :=
  if_pos ⟨hne, hdigits⟩

theorem codePoint_eq (digits : List Char) :
    codePoint digits = (Token.codePoint digits).mapError .refused := by
  unfold codePoint Token.codePoint
  by_cases hmalformed : digits = [] ∨ digits.all isHexDigit = false ∨ 6 < digits.length
  · have hmalformed' : (digits.isEmpty || !digits.all isHexDigit || 6 < digits.length) = true := by
      rcases hmalformed with hempty | hother | hlong
      · simp [hempty]
      · simp [hother]
      · simp [hlong]
    rw [if_pos hmalformed, if_pos hmalformed']
    rfl
  · obtain ⟨hne, hdigits, hshort⟩ : digits ≠ [] ∧ digits.all isHexDigit = true ∧
        ¬ 6 < digits.length := by
      simpa using hmalformed
    have hproper : ¬ (digits.isEmpty || !digits.all isHexDigit || 6 < digits.length) = true := by
      simp [hne, hdigits, hshort]
    rw [if_neg hmalformed, if_neg hproper, number_eq 16 hne hdigits]
    simp only [bind, Except.bind, character]
    have hvalid : (0x10FFFF < ofDigits 16 digits ∨
        0xD800 ≤ ofDigits 16 digits ∧ ofDigits 16 digits ≤ 0xDFFF) ↔
          ¬ (ofDigits 16 digits).isValidChar := by
      unfold Nat.isValidChar
      omega
    by_cases hscalar : (ofDigits 16 digits).isValidChar
    · rw [if_neg (by rwa [hvalid, not_not]), if_pos hscalar, if_pos hscalar]
      rfl
    · rw [if_pos (hvalid.mpr hscalar), if_neg hscalar]
      rfl

theorem mapM_codePoint_eq (parts : List (List Char)) :
    parts.mapM codePoint = (parts.mapM Token.codePoint).mapError .refused := by
  induction parts with
  | nil => rfl
  | cons part parts ih =>
      rw [List.mapM_cons, List.mapM_cons, ih, codePoint_eq]
      cases Token.codePoint part with
      | error e => rfl
      | ok c =>
          cases parts.mapM Token.codePoint with
          | error e => rfl
          | ok chars => rfl

theorem between_eq (body : List Char) (start stop : Nat) :
    between body start stop = (body.drop start).take (stop - start) := by
  rw [between, List.drop_take]

theorem length_between {stop : Nat} (hstop : stop ≤ body.length) :
    (between body start stop).length = stop - start := by
  rw [between, List.length_drop, List.length_take, Nat.min_eq_left hstop]

theorem drop_succ (hbody : body.drop index = c :: rest) : body.drop (index + 1) = rest := by
  rw [← List.drop_drop, hbody]
  rfl

theorem lt_length_of_drop (hbody : body.drop index = c :: rest) : index < body.length := by
  by_contra hend
  rw [List.drop_eq_nil_of_le (Nat.not_lt.mp hend)] at hbody
  cases hbody

theorem charAt_eq (hbody : body.drop index = c :: rest) : charAt body index = .ok c := by
  rw [charAt, ← List.head?_drop, hbody]
  rfl

theorem endOfDigits_eq (isDigit : Char → Bool) (limit index : Nat) :
    endOfDigits body isDigit limit index =
      index + (((body.drop index).take limit).takeWhile isDigit).length := by
  induction limit generalizing index with
  | zero => simp [endOfDigits]
  | succ limit ih =>
      rw [endOfDigits, ← List.head?_drop]
      cases hrest : body.drop index with
      | nil => simp
      | cons c rest =>
          cases hdigit : isDigit c with
          | false => simp [hdigit]
          | true =>
              rw [List.head?_cons, Option.any_some, if_pos hdigit, ih, drop_succ hrest,
                List.take_succ_cons, List.takeWhile_cons_of_pos hdigit, List.length_cons]
              omega

theorem between_endOfDigits (isDigit : Char → Bool) (limit start : Nat) :
    between body start (endOfDigits body isDigit limit start) =
      ((body.drop start).take limit).takeWhile isDigit := by
  have hbegins : ((body.drop start).take limit).takeWhile isDigit <+: body.drop start :=
    ( List.takeWhile_prefix isDigit).trans ( List.take_prefix limit _)
  rw [between_eq, endOfDigits_eq, Nat.add_sub_cancel_left]
  exact (List.prefix_iff_eq_take.mp hbegins).symm

theorem readAscii_eq
    {isDigit : Char → Bool} {stop : Nat} {digits : List Char} (base : Nat)
    (beyond : List Char → DecodeError) (hbetween : between body start stop = digits)
    (hne : digits ≠ []) (hdigits : digits.all isDigit = true) :
    readAscii body isDigit base beyond start stop =
      if ofDigits base digits < 0x80 then .ok ([Char.ofNat (ofDigits base digits)], stop)
      else .error (.refused (beyond digits)) := by
  simp only [readAscii, hbetween, number_eq base hne hdigits, bind, Except.bind]
  split
  next hascii =>
    rw [character, if_pos (Grammar.isValidChar_of_lt_128 hascii)]
    rfl
  next => rfl

theorem readOctal_eq (hbody : body.drop start = c :: rest) (hc : isOctalDigit c = true) :
    readOctal body start = atIndex (start + 1) (Token.octal c rest) := by
  -- the letter of the escape is the first of up to three digits
  have hdigits : ((body.drop start).take 3).takeWhile isOctalDigit =
      c :: (rest.take 2).takeWhile isOctalDigit := by
    rw [hbody, List.take_succ_cons, List.takeWhile_cons_of_pos hc]
  have hall : (c :: (rest.take 2).takeWhile isOctalDigit).all isOctalDigit = true := by
    rw [← hdigits]
    exact List.all_takeWhile
  rw [readOctal, readAscii_eq 8 _ ((between_endOfDigits _ _ _).trans hdigits)
    (List.cons_ne_nil _ _) hall, endOfDigits_eq, hdigits, Token.octal]
  split
  next =>
    rw [atIndex, List.length_cons, Nat.add_assoc, Nat.add_comm 1]
  next => rfl

theorem readHex_eq (body : List Char) (start : Nat) :
    readHex body start = atIndex start (Token.hex (body.drop start)) := by
  have hbetween := @between_endOfDigits body isHexDigit 2 start
  have hall : (((body.drop start).take 2).takeWhile isHexDigit).all isHexDigit = true :=
    List.all_takeWhile
  have hstop := @endOfDigits_eq body isHexDigit 2 start
  rw [readHex, Token.hex]
  cases hdigits : ((body.drop start).take 2).takeWhile isHexDigit with
  | nil =>
      rw [hdigits] at hstop
      rw [if_pos (by rw [hstop, List.length_nil, Nat.add_zero])]
      rfl
  | cons digit digits =>
      rw [hdigits] at hbetween hall hstop
      rw [if_neg (by simp [hstop]), readAscii_eq 16 _ hbetween (List.cons_ne_nil _ _) hall, hstop]
      simp only
      split <;> rfl

theorem idxOf?_eq (text : List Char) :
    text.idxOf? c =
      if text.contains c then some (text.takeWhile (· != c)).length else none := by
  induction text with
  | nil => rfl
  | cons d text ih =>
      rw [List.idxOf?_cons]
      by_cases hd : d = c
      · simp [hd]
      · have hd' : c ≠ d := Ne.symm hd
        by_cases hmem : c ∈ text
        · simp [hd, hd', ih, hmem]
        · simp [hd, hd', ih, hmem]

theorem readUnicode_group_eq {inner : List Char} (hbody : body.drop start = '\x7b' :: inner) :
    readUnicode body start = atIndex start (Token.unicode ('\x7b' :: inner)) := by
  have hopen : body[start]? = some '\x7b' := by
    rw [← List.head?_drop, hbody]
    rfl
  -- the closing brace is looked for from the opening one on
  rw [readUnicode, if_pos hopen, hbody, List.idxOf?_cons, if_neg (by decide), idxOf?_eq,
    Token.unicode]
  by_cases hclosed : inner.contains '\x7d' = true
  · have hgroup : between body (start + 1) (start + ((inner.takeWhile (· != '\x7d')).length + 1)) =
        inner.takeWhile (· != '\x7d') := by
      rw [between_eq, drop_succ hbody, show start + ((inner.takeWhile (· != '\x7d')).length + 1) -
        (start + 1) = (inner.takeWhile (· != '\x7d')).length by omega]
      exact (List.prefix_iff_eq_take.mp ( List.takeWhile_prefix _)).symm
    rw [if_pos hclosed, if_pos hclosed]
    simp only [Option.map_some, hgroup]
    cases words (inner.takeWhile (· != '\x7d')) with
    | nil => rfl
    | cons word parts =>
        simp only [mapM_codePoint_eq]
        cases (word :: parts).mapM Token.codePoint with
        | error e => rfl
        | ok chars => rfl
  · rw [if_neg hclosed, if_neg hclosed]
    rfl

theorem readUnicode_eq (body : List Char) (start : Nat) :
    readUnicode body start = atIndex start (Token.unicode (body.drop start)) := by
  by_cases hopen : body[start]? = some '\x7b'
  · rw [← List.head?_drop, List.head?_eq_some_iff] at hopen
    obtain ⟨inner, hinner⟩ := hopen
    rw [hinner, readUnicode_group_eq hinner]
  · have hhead : ∀ c ∈ (body.drop start).head?, c ≠ '\x7b' := by
      rintro _ hc rfl
      exact hopen (List.head?_drop.symm.trans hc)
    rw [readUnicode, if_neg hopen, between_eq, Nat.add_sub_cancel_left,
      Grammar.unicode_eq_of_no_brace hhead]
    by_cases hlength : ((body.drop start).take 4).length = 4
    · rw [if_neg (not_not_intro hlength), if_pos hlength, codePoint_eq]
      cases Token.codePoint ((body.drop start).take 4) with
      | error e => rfl
      | ok c => rfl
    · rw [if_pos hlength, if_neg hlength]
      rfl

theorem charAfter_eq (hbody : body.drop index = c :: rest) :
    charAfter body index = .ok rest.head? := by
  have hrest := drop_succ hbody
  unfold charAfter
  cases rest with
  | nil =>
      rw [if_neg (Nat.not_lt.mpr (List.drop_eq_nil_iff.mp hrest))]
      rfl
  | cons next rest =>
      rw [if_pos (lt_length_of_drop hrest), charAt_eq hrest]
      rfl

theorem stringEscapeAt_eq {letter : Char} (hbody : body.drop index = letter :: rest) :
    stringEscapeAt body letter (index + 1) = atIndex (index + 1) (stringEscape letter rest) := by
  unfold stringEscapeAt stringEscape
  cases stringEscape? letter with
  | some c => rfl
  | none =>
      simp only [Nat.add_sub_cancel, readHex_eq, readUnicode_eq, drop_succ hbody]
      split_ifs with hnewline hoctal hhex hunicode hcontrol
      · rfl
      · exact readOctal_eq hbody hoctal
      · rfl
      · rfl
      · rfl
      · rfl

theorem regexEscapeAt_eq {letter : Char} (hbody : body.drop index = letter :: rest) :
    regexEscapeAt body letter (index + 1) = atIndex (index + 1) (regexEscape letter rest) := by
  unfold regexEscapeAt regexEscape
  cases regexEscape? letter with
  | some c => rfl
  | none =>
      simp only [Nat.add_sub_cancel, readHex_eq, readUnicode_eq, drop_succ hbody]
      split_ifs with hzero hhex hunicode hspecial hnewline
      · have hoctal : isOctalDigit letter = true := by
          rw [beq_iff_eq.mp hzero]
          decide
        exact readOctal_eq hbody hoctal
      · rfl
      · rfl
      · rfl
      · rfl
      · rfl

theorem follows_passWith
    {escapeAt : Char → Nat → Read} {escape : Char → List Char → Except DecodeError Token}
    (hescape : ∀ {index letter rest}, body.drop index = letter :: rest →
      escapeAt letter (index + 1) = atIndex (index + 1) (escape letter rest)) :
    Follows body (passWith body escapeAt) (Token.withEscapes escape) := by
  intro index c rest hbody
  have hopens : rest.head?.any (['\x7b', '@', '$'].contains ·) = Token.opensInterpolation rest := by
    rw [Bool.eq_iff_iff, Grammar.opensInterpolation_iff, Option.any_eq_true]
    simp
  simp only [passWith, charAt_eq hbody, charAfter_eq hbody, bind, Except.bind, hopens,
    Token.withEscapes]
  split_ifs with hinterpolation hplain
  · rfl
  · rfl
  · cases rest with
    | nil => rfl
    | cons letter rest =>
        rw [atIndex_map_widen]
        exact hescape (drop_succ hbody)

theorem follows_doublePass : Follows body (doublePass body) stringToken :=
  follows_passWith stringEscapeAt_eq

theorem follows_regexPass : Follows body (regexPass body) regexToken := by
  intro index c rest hbody
  simp only [regexPass, charAt_eq hbody, bind, Except.bind, regexToken]
  split_ifs with hmeta
  · rfl
  · exact follows_passWith regexEscapeAt_eq index c rest hbody

/-- The token of a single-quoted string that starts with `c`. -/
def singleToken (delimiters : Delimiters) (c : Char) (rest : List Char) :
    Except DecodeError Token :=
  match rest with
  | [] => .ok (.char c)
  | next :: _ =>
    if c == '\\' && (next == '\\' || delimiters.contains next) then .ok ⟨[next], 1⟩
    else .ok (.char c)

theorem follows_singlePass (delimiters : Delimiters) :
    Follows body (singlePass body delimiters) (singleToken delimiters) := by
  intro index c rest hbody
  simp only [singlePass, charAt_eq hbody, charAfter_eq hbody, bind, Except.bind]
  cases rest with
  | nil => rfl
  | cons next rest =>
      simp only [List.head?_cons, singleToken]
      split_ifs <;> rfl

theorem readTokens_singleToken (delimiters : Delimiters) (body : List Char) :
    readTokens (singleToken delimiters) body = .ok (decodeSingle delimiters body) := by
  fun_induction decodeSingle delimiters body with
  | case1 => rw [readTokens]
  | case2 c => simp [readTokens, singleToken, Token.char, Except.map]
  | case3 c next rest hescapes ih =>
      rw [readTokens, singleToken, if_pos hescapes]
      simp only [List.drop_succ_cons, List.drop_zero, ih]
      rfl
  | case4 c next rest hplain ih =>
      rw [readTokens, singleToken, if_neg hplain]
      simp only [Token.char, List.drop_zero, ih]
      rfl

/-! ## Runs of a loop -/

variable {pass : Nat → Read} {read : Char → List Char → Except DecodeError Token}

theorem Ends.unique
    {out : List Char} {result result' : Except Stop (List Char)}
    (hends : Ends body pass index out result) (hends' : Ends body pass index out result') :
    result = result' := by
  induction hends with
  | done hend =>
      cases hends' with
      | done _ => rfl
      | stop hinside _ => omega
      | next hinside _ _ => omega
  | stop hinside hpass =>
      cases hends' with
      | done hend => omega
      | stop _ hpass' =>
          cases hpass.symm.trans hpass'
          rfl
      | next _ hpass' _ => simp [hpass] at hpass'
  | next hinside hpass _ ih =>
      cases hends' with
      | done hend => omega
      | stop _ hpass' => simp [hpass] at hpass'
      | next _ hpass' hrest' =>
          rw [hpass] at hpass'
          cases hpass'
          exact ih hrest'

theorem Follows.ends (hfollows : Follows body pass read) (out : List Char)
    (hbody : body.drop index = rest) :
    Ends body pass index out (((readTokens read rest).map (out ++ ·)).mapError .refused) := by
  -- the tokens still to be read are those of the body from the position reached
  induction rest using readTokens.induct read generalizing index out with
  | case1 =>
      rw [readTokens]
      simpa [Except.map, Except.mapError] using Ends.done (List.drop_eq_nil_iff.mp hbody)
  | case2 c rest e herror =>
      have hpass := hfollows index c rest hbody
      rw [herror] at hpass
      rw [readTokens, herror]
      exact .stop (lt_length_of_drop hbody) hpass
  | case3 c rest token htoken ih =>
      have hpass := hfollows index c rest hbody
      rw [htoken] at hpass
      have hnext : body.drop (index + 1 + token.width) = rest.drop token.width := by
        rw [← List.drop_drop, drop_succ hbody]
      have hvalue : (readTokens read (c :: rest)).map (out ++ ·) =
          (readTokens read (rest.drop token.width)).map (out ++ token.value ++ ·) := by
        simp only [readTokens, htoken]
        cases readTokens read (rest.drop token.width) with
        | error e => rfl
        | ok values => simp [Except.map]
      rw [hvalue]
      exact .next (lt_length_of_drop hbody) hpass (ih (out ++ token.value) hnext)

theorem Advances.length_le
    (hadvances : Advances body pass) {out value : List Char}
    (hends : Ends body pass index out (.ok value)) (hindex : index ≤ body.length) :
    value.length ≤ out.length + (body.length - index) := by
  -- a pass moves characters from the body to those read, and adds none
  generalize hresult : (Except.ok value : Except Stop (List Char)) = result at hends
  induction hends with
  | done _ =>
      cases hresult
      omega
  | stop _ _ => cases hresult
  | next hinside hpass _ ih =>
      obtain ⟨e, herror⟩ | ⟨chars, stop, hok, hafter, hstop, hshorter⟩ := hadvances _ hinside
      · cases hpass.symm.trans herror
      · cases hpass.symm.trans hok
        have hrest := ih hstop hresult
        rw [length_between hstop] at hshorter
        rw [List.length_append] at hrest
        omega

/-! ## What is taken -/

theorem takes_atIndex
    {Stands : (text value : List Char) → Prop} {before : List Char}
    {result : Except DecodeError Token} (hbody : body.drop start = before ++ rest)
    (htoken : ∀ token, result = .ok token → token.width ≤ rest.length ∧
      before ++ rest.take token.width ≠ [] ∧
        Stands (before ++ rest.take token.width) token.value) :
    Takes body Stands start (atIndex (start + before.length) result) := by
  cases result with
  | error e => exact .inl ⟨e, rfl⟩
  | ok token =>
      obtain ⟨hwidth, hne, hstands⟩ := htoken token rfl
      have htext : between body start (start + before.length + token.width) =
          before ++ rest.take token.width := by
        rw [between_eq, Nat.add_assoc, Nat.add_sub_cancel_left, hbody, List.take_length_add_append]
      have hlength : 0 < before.length + token.width := by
        have hpos := List.length_pos_of_ne_nil hne
        rwa [List.length_append, List.length_take_of_le hwidth] at hpos
      have hrest : body.length - start = before.length + rest.length := by
        rw [← List.length_drop, hbody, List.length_append]
      refine .inr ⟨token.value, _, rfl, by omega, by omega, ?_⟩
      rwa [htext]

theorem takes_of_exact
    {Stands : (text value : List Char) → Prop} {before : List Char}
    {read : List Char → Except DecodeError Token} {lexeme : Grammar.Lexeme}
    (hexact : Grammar.Exact read lexeme) (hbody : body.drop start = before ++ rest)
    (hlexeme : ∀ {text rest value}, lexeme text rest value →
      before ++ text ≠ [] ∧ Stands (before ++ text) value) :
    Takes body Stands start (atIndex (start + before.length) (read rest)) := by
  refine takes_atIndex hbody ?_
  intro token htoken
  obtain ⟨text, after, rfl, hwidth, hvalue⟩ := (hexact rest token).mp htoken
  rw [← hwidth, List.take_left]
  refine ⟨?_, hlexeme hvalue⟩
  rw [List.length_append]
  exact Nat.le_add_right _ _

/-- The number that the text writes is the code of an ASCII character. -/
def AsciiCode (base : Nat) (text value : List Char) : Prop :=
  ∃ c : Char, value = [c] ∧ c.toNat = Grammar.numeral base text ∧ c.toNat < 0x80

/-- The text writes the code points of the characters, which are scalar values. -/
def ScalarValues (text value : List Char) : Prop :=
  Grammar.UnicodeDigits text [] value ∧
    ∀ c ∈ value, c.toNat ≤ 0x10FFFF ∧ ¬ (0xD800 ≤ c.toNat ∧ c.toNat ≤ 0xDFFF)

theorem takes_readOctal (hc : body[start]? = some c) (hoctal : isOctalDigit c = true) :
    Takes body (AsciiCode 8) start (readOctal body start) := by
  rw [← List.head?_drop, List.head?_eq_some_iff] at hc
  obtain ⟨rest, hbody⟩ := hc
  rw [readOctal_eq hbody hoctal]
  refine @takes_of_exact body rest start _ [c] _ _ (Grammar.exact_octal c) hbody ?_
  rintro digits _ value ⟨-, hvalue⟩
  exact ⟨by simp, hvalue⟩

theorem takes_readHex (body : List Char) (start : Nat) :
    Takes body (AsciiCode 16) start (readHex body start) := by
  rw [readHex_eq]
  refine @takes_of_exact body _ start _ [] _ _ Grammar.exact_hex rfl ?_
  rintro digits _ value ⟨-, hne, hvalue⟩
  exact ⟨hne, hvalue⟩

theorem takes_readUnicode (body : List Char) (start : Nat) :
    Takes body ScalarValues start (readUnicode body start) := by
  rw [readUnicode_eq]
  refine @takes_of_exact body _ start _ [] _ _ Grammar.exact_unicode rfl ?_
  intro text _ value hdigits
  refine ⟨?_, ?_, ?_⟩
  · cases hdigits with
    | four hlength _ => exact List.ne_nil_of_length_pos (by simp [hlength])
    | group => simp
  · cases hdigits with
    | four hlength hpoint => exact .four hlength hpoint
    | group hopen hwords hne hpoints => exact .group hopen hwords hne hpoints
  · intro c _
    have hvalid : c.toNat.isValidChar := c.valid
    unfold Nat.isValidChar at hvalid
    omega

/-! ## Lengths -/

/-- No text of the lexeme stands for more characters than it has. -/
def Shortens (lexeme : Grammar.Lexeme) : Prop :=
  ∀ {text rest value}, lexeme text rest value → value.length ≤ text.length

theorem shortens_hexDigits : Shortens Grammar.HexDigits := by
  rintro digits _ _ ⟨-, hne, c, rfl, -⟩
  exact List.length_pos_of_ne_nil hne

theorem length_words_le {text : List Char} {words : List (List Char)}
    (hwords : Grammar.Spaced text words) : words.length ≤ text.length := by
  induction hwords with
  | blank _ => simp
  | @word blanks word rest words _ hne _ _ _ ih =>
      have hpos := List.length_pos_of_ne_nil hne
      simp only [List.length_cons, List.length_append]
      omega

theorem shortens_unicodeDigits : Shortens Grammar.UnicodeDigits := by
  intro text _ value hdigits
  cases hdigits with
  | four hlength _ => simp [hlength]
  | group _ hwords _ hpoints =>
      have hle := length_words_le hwords
      rw [hpoints.length_eq] at hle
      simp only [List.length_cons, List.length_append]
      omega

theorem shortens_regexEscape : Shortens Grammar.RegexEscape := by
  intro text _ value hescape
  cases hescape with
  | short _ => simp
  | octal _ _ => simp
  | hex hdigits => exact (shortens_hexDigits hdigits).trans (Nat.le_succ _)
  | unicode hdigits => exact (shortens_unicodeDigits hdigits).trans (Nat.le_succ _)
  | self _ _ _ => simp

theorem shortens_stringEscape : Shortens Grammar.StringEscape := by
  intro text _ value hescape
  cases hescape with
  | short _ => simp
  | newline => simp
  | octal _ hne _ _ => exact List.length_pos_of_ne_nil hne
  | hex hdigits => exact (shortens_hexDigits hdigits).trans (Nat.le_succ _)
  | unicode hdigits => exact (shortens_unicodeDigits hdigits).trans (Nat.le_succ _)
  | self _ _ _ _ => simp

theorem Shortens.piece {escapes : Grammar.Lexeme} (hescapes : Shortens escapes) :
    Shortens (Grammar.Piece escapes) := by
  intro text _ value hpiece
  cases hpiece with
  | plain _ _ => simp
  | escape hescape => exact (hescapes hescape).trans (Nat.le_succ _)

theorem takes_of_scans
    {lexeme : Grammar.Lexeme} (hscans : Grammar.Scans read lexeme) (hshortens : Shortens lexeme)
    (hbody : body.drop index = c :: rest) :
    Takes body (fun text value => value.length ≤ text.length) index
      (atIndex (index + 1) (read c rest)) := by
  refine @takes_of_exact body rest index _ [c] _ _ (hscans.exact c) hbody ?_
  intro text _ value hvalue
  exact ⟨by simp, hshortens hvalue⟩

theorem takes_singleToken (delimiters : Delimiters) (hbody : body.drop index = c :: rest) :
    Takes body (fun text value => value.length ≤ text.length) index
      (atIndex (index + 1) (singleToken delimiters c rest)) := by
  refine @takes_atIndex body rest index _ [c] _ hbody ?_
  intro token htoken
  unfold singleToken at htoken
  split at htoken
  next =>
    cases htoken
    simp [Token.char]
  next =>
    split_ifs at htoken
    · cases htoken
      simp
    · cases htoken
      simp [Token.char]

theorem Follows.advances
    (hfollows : Follows body pass read)
    (htakes : ∀ {index c rest}, body.drop index = c :: rest →
      Takes body (fun text value => value.length ≤ text.length) index
        (atIndex (index + 1) (read c rest))) : Advances body pass := by
  intro index hinside
  have hne : body.drop index ≠ [] := by simpa using hinside
  obtain ⟨c, rest, hbody⟩ := List.exists_cons_of_ne_nil hne
  rw [hfollows index c rest hbody]
  exact htakes hbody

/-! ## Decoding -/

/-- The loop over `pass` advances through `body` and ends as `decoded` says, which is never longer
than the body. -/
structure Scanned (body : String) (pass : Nat → Read) (decoded : Except DecodeError String) :
    Prop where
  advances : Advances body.toList pass
  ends_iff (result : Except Stop (List Char)) :
    Ends body.toList pass 0 [] result ↔ result = (decoded.map String.toList).mapError .refused
  length_le (value : String) : decoded = .ok value → value.length ≤ body.length

theorem Follows.scanned
    {body : String} {decoded : Except DecodeError String} (hfollows : Follows body.toList pass read)
    (hadvances : Advances body.toList pass)
    (hdecoded : decoded = (readTokens read body.toList).map String.ofList) :
    Scanned body pass decoded := by
  have hvalue : decoded.map String.toList = (readTokens read body.toList).map ([] ++ ·) := by
    rw [hdecoded]
    cases readTokens read body.toList with
    | error e => rfl
    | ok value => simp [Except.map]
  have hends := hfollows.ends [] (List.drop_zero (l := body.toList))
  rw [← hvalue] at hends
  refine ⟨hadvances, ?_, ?_⟩
  · intro result
    constructor
    · intro hresult
      exact hresult.unique hends
    · rintro rfl
      exact hends
  · rintro value rfl
    have hle := hadvances.length_le hends (Nat.zero_le _)
    rwa [List.length_nil, Nat.zero_add, Nat.sub_zero, String.length_toList,
      String.length_toList] at hle

theorem scanned_stringPass (body : String) (quote : Quote) (delimiters : Delimiters) :
    Scanned body (stringPass body.toList quote delimiters)
      (decodeString body quote delimiters) := by
  cases quote with
  | single =>
      refine (follows_singlePass delimiters).scanned
        ((follows_singlePass delimiters).advances (takes_singleToken delimiters)) ?_
      rw [readTokens_singleToken]
      rfl
  | double =>
      exact follows_doublePass.scanned
        (follows_doublePass.advances
          (takes_of_scans Grammar.scans_stringToken shortens_stringEscape.piece)) rfl

theorem scanned_regexPass (body : String) :
    Scanned body (regexPass body.toList) (decodeRegex body) := by
  have hshortens : Shortens Grammar.RegexPiece := fun hpiece => shortens_regexEscape.piece hpiece.1
  exact follows_regexPass.scanned
    (follows_regexPass.advances (takes_of_scans Grammar.scans_regexToken hshortens)) rfl

/-- The loops over a regular expression and over a string advance in every pass, never behind the
end of the body, and end as the decoders say: with the value, which is not longer than the body, or
by refusing the body, and in no other way.  The same holds of the readers of numeric escapes.
Octal and hexadecimal escapes give the ASCII character of the code written, and Unicode escapes
give the scalar values written. -/
theorem loops_advance_and_only_refuse
    (body : String) (quote : Quote) (delimiters : Delimiters) :
    Scanned body (regexPass body.toList) (decodeRegex body) ∧
    Scanned body (stringPass body.toList quote delimiters) (decodeString body quote delimiters) ∧
    (∀ start c, body.toList[start]? = some c → isOctalDigit c = true →
      Takes body.toList (AsciiCode 8) start (readOctal body.toList start)) ∧
    (∀ start, Takes body.toList (AsciiCode 16) start (readHex body.toList start)) ∧
    ∀ start, Takes body.toList ScalarValues start (readUnicode body.toList start) := by
  refine ⟨scanned_regexPass body, scanned_stringPass body quote delimiters, ?_, ?_, ?_⟩
  · intro start c hc hoctal
    exact takes_readOctal hc hoctal
  · exact takes_readHex body.toList
  · exact takes_readUnicode body.toList

theorem loops_advance_and_only_refuse_of_mixed_escapes :
    isOctalDigit '1' = true ∧
    Takes "\\1019\\x2e".toList (AsciiCode 8) 1 (readOctal "\\1019\\x2e".toList 1) ∧
    Ends "\\1019\\x2e".toList (stringPass "\\1019\\x2e".toList .double ⟨"\"", "\""⟩) 0 []
      (.ok "A9.".toList) ∧
    Ends "\\u\x7b61 1F600\x7d\\u\x7b".toList (regexPass "\\u\x7b61 1F600\x7d\\u\x7b".toList) 0 []
      (.error (.refused .unterminatedUnicode)) := by
  obtain ⟨-, hstring, hoctal, -⟩ :=
    loops_advance_and_only_refuse "\\1019\\x2e" .double ⟨"\"", "\""⟩
  obtain ⟨hregex, -⟩ :=
    loops_advance_and_only_refuse "\\u\x7b61 1F600\x7d\\u\x7b" .double ⟨"\"", "\""⟩
  refine ⟨by decide, hoctal 1 '1' (by decide) (by decide), ?_, ?_⟩
  · exact (hstring.ends_iff _).mpr (by decide +kernel)
  · exact (hregex.ends_iff _).mpr (by decide +kernel)

end RubyLint.Scan
