import RubyLint.Literal.Decode
import RubyLint.Proofs.EscapeGrammar
import Mathlib.Tactic

/-!
# Regular expressions with a value

A regular expression has a value if it is a sequence of pieces that each match one fixed text:
characters without a meaning of their own, and escapes of single characters.  The tables of letters
overlap, and the order in which they are asked decides what a letter means; here every letter has
one meaning, so the order is gone.  A construct that may match more than one text is refused
wherever it stands between two pieces.
-/

namespace RubyLint.Grammar

open Text

def metacharacters : List Char :=
  ['*', '+', '?', '\x7b', '\x7d', '^', '$', '.', '|', '[', ']', '(', ')']

/-- The letters of the short escapes, and what they stand for. -/
def shortLetters : List (Char × Char) :=
  [('n', '\n'), ('t', '\t'), ('r', '\r'), ('f', '\x0c'), ('v', '\x0b'), ('a', '\x07'),
    ('e', '\x1b')]

/-- What stands after a backslash. -/
inductive RegexEscape : Lexeme
  | short {letter c : Char} {rest : List Char} (hletter : (letter, c) ∈ shortLetters) :
      RegexEscape [letter] rest [c]
  | octal {digits rest : List Char} {c : Char} (hdigits : Greedy isOctalDigit 2 digits rest)
      (hvalue : c.toNat = numeral 8 ('0' :: digits)) : RegexEscape ('0' :: digits) rest [c]
  | hex {digits rest value : List Char} (hdigits : HexDigits digits rest value) :
      RegexEscape ('x' :: digits) rest value
  | unicode {digits rest value : List Char} (hdigits : UnicodeDigits digits rest value) :
      RegexEscape ('u' :: digits) rest value
  | self {c : Char} {rest : List Char} (hspecial : isSpecialEscape c = false) (hzero : c ≠ '0')
      (hnewline : c ≠ '\n') : RegexEscape [c] rest [c]

/-- A piece of a regular expression that matches one text. -/
def RegexPiece : Lexeme := fun text rest value =>
  Piece RegexEscape text rest value ∧ ∀ c ∈ text.head?, c ∉ metacharacters

/-- No piece starts here, for the reason `e`. -/
inductive Refused : (rest : List Char) → (e : DecodeError) → Prop
  | metacharacter {c : Char} {rest : List Char} (hc : c ∈ metacharacters) :
      Refused (c :: rest) (.metacharacter c)
  | interpolation {next : Char} {rest : List Char} (hnext : next ∈ ['\x7b', '@', '$']) :
      Refused ('#' :: next :: rest) .interpolation
  | trailingBackslash : Refused ['\\'] .trailingBackslash
  /-- A class, an anchor, a property, a control or meta character, or a back reference. -/
  | special {letter : Char} {rest : List Char} (hspecial : isSpecialEscape letter = true)
      (hletter : letter ∉ ['n', 't', 'r', 'f', 'v', 'a', 'e', 'x', 'u']) :
      Refused ('\\' :: letter :: rest) (.specialEscape letter)
  | newline {rest : List Char} : Refused ('\\' :: '\n' :: rest) .escapedNewline

theorem isMetacharacter_iff {c : Char} : isMetacharacter c = true ↔ c ∈ metacharacters := by
  simp [isMetacharacter, metacharacters]

theorem mem_shortLetters_iff {letter c : Char} :
    (letter, c) ∈ shortLetters ↔ regexEscape? letter = some c := by
  constructor
  · intro hletter
    fin_cases hletter <;> rfl
  · intro hletter
    unfold regexEscape? at hletter
    split at hletter <;> cases hletter <;> decide

theorem isSpecialEscape_of_short {letter c : Char} (hletter : regexEscape? letter = some c) :
    isSpecialEscape letter = true := by
  have hshort := mem_shortLetters_iff.mpr hletter
  fin_cases hshort <;> decide

theorem octalDigits_zero_iff {digits rest : List Char} {value : List Char} :
    OctalDigits '0' digits rest value ↔
      Greedy isOctalDigit 2 digits rest ∧
        ∃ c : Char, value = [c] ∧ c.toNat = numeral 8 ('0' :: digits) := by
  unfold OctalDigits
  constructor
  · rintro ⟨hdigits, c, hc, hvalue, -⟩
    exact ⟨hdigits, c, hc, hvalue⟩
  · rintro ⟨hdigits, c, hc, hvalue⟩
    refine ⟨hdigits, c, hc, hvalue, ?_⟩
    have hzero : numeral 8 ('0' :: digits) = numeral 8 digits := by
      rw [← ofDigits_eq_numeral, ← ofDigits_eq_numeral]
      exact ofDigits_replicate_zero_append 8 1 digits
    have hbound := numeral_lt (by decide : 1 < 8)
      fun c hc => digitValue_lt_of_isOctalDigit (hdigits.all_digits c hc)
    have hpow : 8 ^ digits.length ≤ 8 ^ 2 := Nat.pow_le_pow_right (by decide) hdigits.length_le
    omega

theorem scans_regexEscape : Scans regexEscape RegexEscape where
  exact letter input token := by
    obtain ⟨value, width⟩ := token
    constructor
    · intro hread
      unfold regexEscape at hread
      split at hread
      next c hletter =>
        cases hread
        exact ⟨[], input, rfl, rfl, .short (mem_shortLetters_iff.mpr hletter)⟩
      next =>
        split_ifs at hread with hzero hhex hunicode hspecial hnewline
        · obtain rfl := beq_iff_eq.mp hzero
          obtain ⟨digits, rest, hsplit, hwidth, hdigits⟩ := (exact_octal '0' _ _).mp hread
          obtain ⟨hgreedy, c, rfl, hvalue⟩ := octalDigits_zero_iff.mp hdigits
          exact ⟨digits, rest, hsplit, hwidth, .octal hgreedy hvalue⟩
        · obtain rfl := beq_iff_eq.mp hhex
          obtain ⟨digits, rest, hsplit, hwidth, hdigits⟩ := (exact_hex _ _).mp hread
          exact ⟨digits, rest, hsplit, hwidth, .hex hdigits⟩
        · obtain rfl := beq_iff_eq.mp hunicode
          obtain ⟨digits, rest, hsplit, hwidth, hdigits⟩ := (exact_unicode _ _).mp hread
          exact ⟨digits, rest, hsplit, hwidth, .unicode hdigits⟩
        · cases hread
          exact ⟨[], input, rfl, rfl, .self (by simpa using hspecial) (by simpa using hzero)
            (by simpa using hnewline)⟩
    · rintro ⟨text, rest, rfl, rfl, hescape⟩
      cases hescape with
      | short hletter =>
          rw [regexEscape, mem_shortLetters_iff.mp hletter]
          rfl
      | octal hdigits hvalue =>
          exact (exact_octal '0' _ _).mpr
            ⟨text, rest, rfl, rfl, octalDigits_zero_iff.mpr ⟨hdigits, _, rfl, hvalue⟩⟩
      | hex hdigits => exact (exact_hex _ _).mpr ⟨text, rest, rfl, rfl, hdigits⟩
      | unicode hdigits => exact (exact_unicode _ _).mpr ⟨text, rest, rfl, rfl, hdigits⟩
      | self hspecial hzero hnewline =>
          have hshort : regexEscape? letter = none := by
            rw [Option.eq_none_iff_forall_ne_some]
            intro c hletter
            rw [isSpecialEscape_of_short hletter] at hspecial
            cases hspecial
          have hhex : letter ≠ 'x' := by
            rintro rfl
            exact absurd hspecial (by decide)
          have hunicode : letter ≠ 'u' := by
            rintro rfl
            exact absurd hspecial (by decide)
          simp [regexEscape, hshort, hzero, hhex, hunicode, hspecial, hnewline, Token.char]
  ne_nil hescape := by
    cases hescape <;> simp

theorem scans_regexToken : Scans regexToken RegexPiece where
  exact c input token := by
    unfold regexToken RegexPiece
    by_cases hmeta : c ∈ metacharacters
    · simp [isMetacharacter_iff.mpr hmeta, hmeta]
    · have hplain : ¬ isMetacharacter c = true := by rwa [isMetacharacter_iff]
      rw [if_neg hplain, scans_regexEscape.withEscapes.exact c input token]
      simp [hmeta]
  ne_nil hpiece := scans_regexEscape.withEscapes.ne_nil hpiece.1

theorem Refused.exists_regexToken {text : List Char} {e : DecodeError} (hrefused : Refused text e) :
    ∃ c rest, text = c :: rest ∧ regexToken c rest = .error e := by
  cases hrefused with
  | metacharacter hc => exact ⟨_, _, rfl, if_pos (isMetacharacter_iff.mpr hc)⟩
  | @interpolation next rest hnext =>
      have hopen : Token.opensInterpolation (next :: rest) = true :=
        opensInterpolation_iff.mpr ⟨next, rfl, hnext⟩
      have hplain : isMetacharacter '#' = false := by decide
      exact ⟨_, _, rfl, by simp [regexToken, hplain, Token.withEscapes, hopen]⟩
  | trailingBackslash => exact ⟨_, _, rfl, rfl⟩
  | @special letter rest hspecial hletter =>
      simp only [List.mem_cons, List.not_mem_nil, or_false, not_or] at hletter
      have hzero : letter ≠ '0' := by
        rintro rfl
        exact absurd hspecial (by decide)
      have hescape : regexEscape letter rest = .error (.specialEscape letter) := by
        simp [regexEscape, regexEscape?, hletter, hzero, hspecial]
      have hplain : isMetacharacter '\\' = false := by decide
      exact ⟨_, _, rfl, by simp [regexToken, hplain, Token.withEscapes, hescape, Except.map]⟩
  | newline => exact ⟨_, _, rfl, rfl⟩

theorem decodeRegex_eq_ok_iff {body value : String} :
    decodeRegex body = .ok value ↔ readTokens regexToken body.toList = .ok value.toList :=
  map_ofList_eq_ok_iff

/-- A regular expression has a value exactly if it is a sequence of pieces, and then the values of
the pieces make it up; every other body is refused.  A construct that starts no piece is refused
after any pieces. -/
theorem decodeRegex_accepts_exactly (body : String) :
    (∀ value, decodeRegex body = .ok value ↔
      Sequence RegexPiece body.toList [] value.toList) ∧
    ((¬ ∃ value, Sequence RegexPiece body.toList [] value) → ∃ e, decodeRegex body = .error e) ∧
    ∀ before rest value e, body.toList = before ++ rest → Sequence RegexPiece before rest value →
      Refused rest e → decodeRegex body = .error e := by
  have hok : ∀ value, decodeRegex body = .ok value ↔
      Sequence RegexPiece body.toList [] value.toList := by
    intro value
    rw [decodeRegex_eq_ok_iff, scans_regexToken.readTokens_eq_ok_iff]
  refine ⟨hok, ?_, ?_⟩
  · intro hnone
    cases hread : decodeRegex body with
    | ok value => exact absurd ⟨_, (hok value).mp hread⟩ hnone
    | error e => exact ⟨e, rfl⟩
  · intro before rest value e hsplit hbefore hrefused
    obtain ⟨c, rest, rfl, htoken⟩ := hrefused.exists_regexToken
    rw [decodeRegex, hsplit, scans_regexToken.readTokens_append hbefore, readTokens, htoken]
    rfl

theorem decodeRegex_accepts_exactly_of_mixed_escapes :
    decodeRegex "#\\x2e\\0419\\u\x7b61 1F600\x7d\\." = .ok "#.!9a😀." ∧
    decodeRegex "a\\d" = .error (.specialEscape 'd') := by
  constructor
  · refine ((decodeRegex_accepts_exactly _).1 _).mpr ?_
    show Sequence RegexPiece
      (['#'] ++ (['\\', 'x', '2', 'e'] ++ (['\\', '0', '4', '1'] ++ (['9'] ++
        (('\\' :: 'u' :: '\x7b' :: ("61 1F600".toList ++ ['\x7d'])) ++ (['\\', '.'] ++ []))))))
      [] (['#'] ++ (['.'] ++ (['!'] ++ (['9'] ++ (['a', '😀'] ++ (['.'] ++ []))))))
    have hhex : HexDigits ['2', 'e'] "\\0419\\u\x7b61 1F600\x7d\\.".toList ['.'] :=
      ⟨⟨by simp [isHexDigit], by simp, by simp⟩, by simp, '.', rfl, by decide, by decide⟩
    have hoctal : Greedy isOctalDigit 2 ['4', '1'] "9\\u\x7b61 1F600\x7d\\.".toList :=
      ⟨by simp [isOctalDigit], by simp, by simp⟩
    have hunicode : UnicodeDigits ('\x7b' :: ("61 1F600".toList ++ ['\x7d'])) ['\\', '.']
        ['a', '😀'] := by
      have hfirst : CodePoint ['6', '1'] 'a' :=
        ⟨by simp [isHexDigit], by simp, by simp, by decide⟩
      have hsecond : CodePoint ['1', 'F', '6', '0', '0'] '😀' :=
        ⟨by simp [isHexDigit], by simp, by simp, by decide⟩
      have hblank : isBlank ' ' = true := by decide
      have hwords : Spaced ([] ++ (['6', '1'] ++ ([' '] ++ (['1', 'F', '6', '0', '0'] ++ []))))
          [['6', '1'], ['1', 'F', '6', '0', '0']] := by
        refine .word (by simp) (by simp)
          (fun c hc => isBlank_of_isHexDigit (hfirst.all_digits c hc)) (by simp [hblank]) ?_
        exact .word (by simp [hblank]) (by simp)
          (fun c hc => isBlank_of_isHexDigit (hsecond.all_digits c hc)) (by simp) (.blank (by simp))
      exact .group (by simp) hwords (by simp) (.cons hfirst (.cons hsecond .nil))
    refine .cons ⟨.plain (by simp) (by simp), by simp [metacharacters]⟩ ?_
    refine .cons ⟨.escape (.hex hhex), by simp [metacharacters]⟩ ?_
    refine .cons ⟨.escape (.octal hoctal (by decide)), by simp [metacharacters]⟩ ?_
    refine .cons ⟨.plain (by simp) (by simp), by simp [metacharacters]⟩ ?_
    refine .cons ⟨.escape (.unicode hunicode), by simp [metacharacters]⟩ ?_
    exact .cons ⟨.escape (.self (by decide) (by simp) (by simp)), by simp [metacharacters]⟩ .nil
  · refine (decodeRegex_accepts_exactly _).2.2 (['a'] ++ []) ['\\', 'd'] (['a'] ++ []) _ rfl ?_ ?_
    · exact .cons ⟨.plain (by simp) (by simp), by simp [metacharacters]⟩ .nil
    · exact .special (by decide) (by simp)

end RubyLint.Grammar
