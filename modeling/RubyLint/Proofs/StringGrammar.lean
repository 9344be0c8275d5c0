import RubyLint.Literal.Decode
import RubyLint.Proofs.EscapeGrammar
import Mathlib.Tactic

/-!
# Double-quoted strings with a value

A double-quoted body has a value if it is a sequence of characters that stand for themselves and
of escapes.  An escape is one of nine letters, a newline that joins two lines, an octal,
hexadecimal or Unicode number, or a character that nothing else is said about.  A body that cannot
be cut up in this way is refused.
-/

namespace RubyLint.Grammar

open Text

/-- The letters of the short escapes of a string, and what they stand for. -/
def stringLetters : List (Char × Char) :=
  [('n', '\n'), ('t', '\t'), ('r', '\r'), ('f', '\x0c'), ('v', '\x0b'), ('a', '\x07'),
    ('b', '\x08'), ('e', '\x1b'), ('s', ' ')]

/-- What stands after a backslash of a double-quoted string. -/
inductive StringEscape : Lexeme
  | short {letter c : Char} {rest : List Char} (hletter : (letter, c) ∈ stringLetters) :
      StringEscape [letter] rest [c]
  /-- The line goes on in the next one. -/
  | newline {rest : List Char} : StringEscape ['\n'] rest []
  | octal {digits rest : List Char} {c : Char} (hdigits : Greedy isOctalDigit 3 digits rest)
      (hne : digits ≠ []) (hvalue : c.toNat = numeral 8 digits) (hascii : c.toNat < 0x80) :
      StringEscape digits rest [c]
  | hex {digits rest value : List Char} (hdigits : HexDigits digits rest value) :
      StringEscape ('x' :: digits) rest value
  | unicode {digits rest value : List Char} (hdigits : UnicodeDigits digits rest value) :
      StringEscape ('u' :: digits) rest value
  | self {c : Char} {rest : List Char} (hletter : c ∉ stringLetters.map Prod.fst)
      (hnewline : c ≠ '\n') (hoctal : isOctalDigit c = false)
      (hother : c ∉ ['x', 'u', 'c', 'C', 'M']) : StringEscape [c] rest [c]

/-- A piece of a double-quoted string. -/
def StringPiece : Lexeme := Piece StringEscape

theorem mem_stringLetters_iff {letter c : Char} :
    (letter, c) ∈ stringLetters ↔ stringEscape? letter = some c := by
  constructor
  · intro hletter
    fin_cases hletter <;> rfl
  · intro hletter
    unfold stringEscape? at hletter
    split at hletter <;> cases hletter <;> decide

theorem stringEscape?_eq_none_iff {letter : Char} :
    stringEscape? letter = none ↔ letter ∉ stringLetters.map Prod.fst := by
  simp [Option.eq_none_iff_forall_ne_some, ← mem_stringLetters_iff]

theorem stringEscape_of_isOctalDigit {letter : Char} (hletter : isOctalDigit letter = true)
    (rest : List Char) : stringEscape letter rest = Token.octal letter rest := by
  have hshort : stringEscape? letter = none := by
    rw [Option.eq_none_iff_forall_ne_some]
    intro c hc
    have hmem := mem_stringLetters_iff.mpr hc
    fin_cases hmem <;> exact absurd hletter (by decide)
  have hnewline : letter ≠ '\n' := by
    rintro rfl
    exact absurd hletter (by decide)
  simp [stringEscape, hshort, hnewline, hletter]

/-- The first octal digit is the letter of the escape, the others follow it. -/
theorem octalDigits_iff_greedy {first : Char} {digits rest value : List Char}
    (hfirst : isOctalDigit first = true) :
    OctalDigits first digits rest value ↔
      Greedy isOctalDigit 3 (first :: digits) rest ∧
        ∃ c : Char, value = [c] ∧ c.toNat = numeral 8 (first :: digits) ∧ c.toNat < 0x80 := by
  simp [OctalDigits, Greedy.cons_iff, hfirst]

theorem scans_stringEscape : Scans stringEscape StringEscape where
  exact letter input token := by
    obtain ⟨value, width⟩ := token
    constructor
    · intro hread
      unfold stringEscape at hread
      split at hread
      next c hletter =>
        cases hread
        exact ⟨[], input, rfl, rfl, .short (mem_stringLetters_iff.mpr hletter)⟩
      next hshort =>
        split_ifs at hread with hnewline hoctal hhex hunicode hcontrol
        · obtain rfl := beq_iff_eq.mp hnewline
          cases hread
          exact ⟨[], input, rfl, rfl, .newline⟩
        · obtain ⟨digits, rest, hsplit, hwidth, hdigits⟩ := (exact_octal letter _ _).mp hread
          obtain ⟨hgreedy, c, rfl, hvalue, hascii⟩ := (octalDigits_iff_greedy hoctal).mp hdigits
          exact ⟨digits, rest, hsplit, hwidth, .octal hgreedy (by simp) hvalue hascii⟩
        · obtain rfl := beq_iff_eq.mp hhex
          obtain ⟨digits, rest, hsplit, hwidth, hdigits⟩ := (exact_hex _ _).mp hread
          exact ⟨digits, rest, hsplit, hwidth, .hex hdigits⟩
        · obtain rfl := beq_iff_eq.mp hunicode
          obtain ⟨digits, rest, hsplit, hwidth, hdigits⟩ := (exact_unicode _ _).mp hread
          exact ⟨digits, rest, hsplit, hwidth, .unicode hdigits⟩
        · cases hread
          refine ⟨[], input, rfl, rfl, .self (stringEscape?_eq_none_iff.mp hshort) ?_ ?_ ?_⟩
          · simpa using hnewline
          · simpa using hoctal
          · simp_all
    · rintro ⟨text, rest, rfl, rfl, hescape⟩
      generalize hwhole : letter :: text = whole at hescape
      cases hescape with
      | short hletter =>
          cases hwhole
          rw [stringEscape, mem_stringLetters_iff.mp hletter]
          rfl
      | newline =>
          cases hwhole
          rfl
      | octal hdigits hne hvalue hascii =>
          subst hwhole
          have hfirst : isOctalDigit letter = true := hdigits.all_digits letter (by simp)
          have hmore := (octalDigits_iff_greedy hfirst).mpr ⟨hdigits, _, rfl, hvalue, hascii⟩
          rw [stringEscape_of_isOctalDigit hfirst]
          exact (exact_octal letter _ _).mpr ⟨text, rest, rfl, rfl, hmore⟩
      | hex hdigits =>
          cases hwhole
          exact (exact_hex _ _).mpr ⟨text, rest, rfl, rfl, hdigits⟩
      | unicode hdigits =>
          cases hwhole
          exact (exact_unicode _ _).mpr ⟨text, rest, rfl, rfl, hdigits⟩
      | self hletter hnewline hoctal hother =>
          cases hwhole
          have hshort := stringEscape?_eq_none_iff.mpr hletter
          simp only [List.mem_cons, List.not_mem_nil, or_false, not_or] at hother
          simp [stringEscape, hshort, hnewline, hoctal, hother, Token.char]
  ne_nil hescape := by
    cases hescape with
    | octal _ hne => exact hne
    | _ => simp

theorem scans_stringToken : Scans stringToken StringPiece :=
  scans_stringEscape.withEscapes

theorem decodeDouble_eq_ok_iff {body value : String} {delimiters : Delimiters} :
    decodeString body .double delimiters = .ok value ↔
      Sequence StringPiece body.toList [] value.toList :=
  map_ofList_eq_ok_iff.trans scans_stringToken.readTokens_eq_ok_iff

/-- A double-quoted body has a value exactly if it is a sequence of pieces, and then the values of
the pieces make it up; every other body is refused. -/
theorem decodeString_double_accepts_exactly (body : String) (delimiters : Delimiters) :
    (∀ value, decodeString body .double delimiters = .ok value ↔
      Sequence StringPiece body.toList [] value.toList) ∧
    ((∃ e, decodeString body .double delimiters = .error e) ↔
      ¬ ∃ value, Sequence StringPiece body.toList [] value) := by
  refine ⟨fun value => decodeDouble_eq_ok_iff, ?_⟩
  constructor
  · rintro ⟨e, herror⟩ ⟨value, hvalue⟩
    rw [← @String.toList_ofList value, ← @decodeDouble_eq_ok_iff _ _ delimiters, herror] at hvalue
    cases hvalue
  · intro hnone
    cases hread : decodeString body .double delimiters with
    | ok value => exact absurd ⟨_, decodeDouble_eq_ok_iff.mp hread⟩ hnone
    | error e => exact ⟨e, rfl⟩

example : decodeString "\\1019\\u\x7b61 1F600\x7d\\\n#\\y" .double ⟨"\"", "\""⟩ =
    .ok "A9a😀#y" := by
  decide +kernel

end RubyLint.Grammar
