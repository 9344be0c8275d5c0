import RubyLint.Literal.Decode
import RubyLint.Literal.Encode
import RubyLint.Literal.Split
import RubyLint.Proofs.HexDigits
import Mathlib.Algebra.Group.Nat.Even
import Mathlib.Tactic

/-!
# The literal of a character reads back as the character

A character is written in one of five forms.  Each form is a single token of its family, so the
readers are run for one token only.  None of the forms puts the closing quotation mark into the
body; a body therefore never closes its literal early, and the only body that ends in a backslash
ends in an escaped one.
-/

namespace RubyLint

open Text

/-! ## Where a literal ends -/

/-- The number of backslashes at the end of a text. -/
def trailingBackslashes (text : List Char) : Nat :=
  (text.reverse.takeWhile (· == '\\')).length

/-- Between two `mark`s, `body` is a literal of its own: every `mark` in it is escaped, that is,
follows an odd number of backslashes, and it does not end in a backslash that escapes. -/
structure ClosedBody (mark : Char) (body : List Char) : Prop where
  mark_escaped : ∀ before after, body = before ++ mark :: after →
    Odd (trailingBackslashes before)
  end_unescaped : Even (trailingBackslashes body)

/-- The offset of the `mark` that ends a literal, reading from its opening mark on: a backslash
takes the next character along. -/
def closingOffset? (mark : Char) : List Char → Option Nat
  | [] => none
  | [c] => if c = mark then some 0 else none
  | c :: next :: rest =>
    if c = '\\' then (closingOffset? mark rest).map (· + 2)
    else if c = mark then some 0
    else (closingOffset? mark (next :: rest)).map (· + 1)

@[simp] theorem trailingBackslashes_nil : trailingBackslashes [] = 0 := rfl

theorem trailingBackslashes_concat (text : List Char) (c : Char) :
    trailingBackslashes (text ++ [c]) =
      if c = '\\' then trailingBackslashes text + 1 else 0 := by
  unfold trailingBackslashes
  by_cases hc : c = '\\' <;> simp [hc]

theorem trailingBackslashes_cons {c : Char} (hc : c ≠ '\\') (text : List Char) :
    trailingBackslashes (c :: text) = trailingBackslashes text := by
  induction text using List.reverseRecOn with
  | nil => simp [trailingBackslashes, hc]
  | append_singleton text last ih =>
      rw [← List.cons_append, trailingBackslashes_concat, trailingBackslashes_concat, ih]

theorem trailingBackslashes_eq_zero {text : List Char} (htext : '\\' ∉ text) :
    trailingBackslashes text = 0 := by
  induction text with
  | nil => rfl
  | cons c text ih =>
      rw [List.mem_cons, not_or] at htext
      rw [trailingBackslashes_cons (Ne.symm htext.1), ih htext.2]

/-- Dropping an escape from the front keeps the parity that decides what is escaped. -/
theorem even_trailingBackslashes_escape (next : Char) (text : List Char) :
    Even (trailingBackslashes ('\\' :: next :: text)) ↔
      Even (trailingBackslashes text) := by
  induction text using List.reverseRecOn with
  | nil =>
      by_cases hnext : next = '\\'
      · subst hnext
        decide
      · simp [trailingBackslashes, hnext]
  | append_singleton text last ih =>
      rw [← List.cons_append, ← List.cons_append, trailingBackslashes_concat,
        trailingBackslashes_concat]
      by_cases hlast : last = '\\'
      · simp only [hlast, if_true, Nat.even_add_one, ih]
      · simp [hlast]

theorem ClosedBody.of_escape {mark next : Char} {rest : List Char}
    (hclosed : ClosedBody mark ('\\' :: next :: rest)) : ClosedBody mark rest := by
  constructor
  · intro before after hrest
    have hodd := hclosed.mark_escaped ('\\' :: next :: before) after (by simp [hrest])
    rw [← Nat.not_even_iff_odd, even_trailingBackslashes_escape] at hodd
    exact Nat.not_even_iff_odd.mp hodd
  · exact (even_trailingBackslashes_escape next rest).mp hclosed.end_unescaped

theorem ClosedBody.of_cons {mark c : Char} {rest : List Char} (hc : c ≠ '\\')
    (hclosed : ClosedBody mark (c :: rest)) : ClosedBody mark rest := by
  constructor
  · intro before after hrest
    have hodd := hclosed.mark_escaped (c :: before) after (by simp [hrest])
    rwa [trailingBackslashes_cons hc] at hodd
  · have heven := hclosed.end_unescaped
    rwa [trailingBackslashes_cons hc] at heven

theorem ClosedBody.head_ne {mark c : Char} {rest : List Char}
    (hclosed : ClosedBody mark (c :: rest)) : c ≠ mark := by
  rintro rfl
  have hodd := hclosed.mark_escaped [] rest rfl
  simp at hodd

/-- A closed body ends exactly before the next mark. -/
theorem closingOffset?_of_closedBody {mark : Char} {body : List Char}
    (hclosed : ClosedBody mark body) :
    closingOffset? mark (body ++ [mark]) = some body.length := by
  induction body using List.twoStepInduction with
  | nil => simp [closingOffset?]
  | singleton c =>
      have hne : c ≠ '\\' := by
        rintro rfl
        exact absurd hclosed.end_unescaped (by decide)
      simp [closingOffset?, hne, hclosed.head_ne]
  | cons_cons c next rest ihEscape ihPlain =>
      by_cases hc : c = '\\'
      · subst hc
        simp [closingOffset?, ihEscape hclosed.of_escape]
      · have hrest := ihPlain next (hclosed.of_cons hc)
        rw [List.cons_append] at hrest
        simp [closingOffset?, hc, hclosed.head_ne, hrest]

theorem ClosedBody.of_not_mem {mark : Char} {body : List Char} (hmark : mark ∉ body)
    (hend : Even (trailingBackslashes body)) : ClosedBody mark body := by
  refine ⟨?_, hend⟩
  rintro before after rfl
  exact absurd (by simp) hmark

/-! ## Literals between quotation marks -/

theorem Quote.delimiter_cases (quote : Quote) :
    quote.delimiter = '\'' ∨ quote.delimiter = '"' := by
  cases quote <;> simp [Quote.delimiter]

theorem Quote.delimiter_other_ne (quote : Quote) :
    quote.delimiter ≠ quote.other.delimiter := by
  cases quote <;> decide

@[simp] theorem closingChar_delimiter (quote : Quote) :
    closingChar quote.delimiter = quote.delimiter := by
  cases quote <;> rfl

theorem splitString_wrap (quote : Quote) (body : List Char) :
    splitString (String.ofList (quote.wrap body)) =
      some ⟨quote, String.ofList body, .ofOpening quote.delimiter⟩ := by
  have hopening : stringOpening? (quote.wrap body) =
      some (quote, quote.delimiter, body ++ [quote.delimiter]) := by
    cases quote <;> rfl
  simp [splitString, hopening]

theorem decodeLiteral_wrap (quote : Quote) (body : List Char) :
    decodeLiteral (String.ofList (quote.wrap body)) =
      decodeString (String.ofList body) quote (.ofOpening quote.delimiter) := by
  simp [decodeLiteral, Quote.wrap, Delimiters.ofOpening]

/-! ## Bodies of one token -/

theorem readTokens_single {read : Char → List Char → Except DecodeError Token}
    {c : Char} {rest : List Char} {token : Token}
    (hread : read c rest = .ok token) (hwidth : rest.length ≤ token.width) :
    readTokens read (c :: rest) = .ok token.value := by
  have hdrop : rest.drop token.width = [] := List.drop_eq_nil_of_le hwidth
  rw [readTokens, hread]
  simp only [hdrop, readTokens]
  simp [Except.map]

theorem decodeDouble_escape {letter : Char} {rest value : List Char} {width : Nat}
    (hescape : stringEscape letter rest = .ok ⟨value, width⟩)
    (hwidth : rest.length ≤ width) :
    decodeDouble ('\\' :: letter :: rest) = .ok value := by
  have htoken : stringToken '\\' (letter :: rest) = .ok ⟨value, width + 1⟩ := by
    simp [stringToken, Token.withEscapes, hescape, Except.map, Token.widen]
  exact readTokens_single htoken (by simpa using hwidth)

theorem decodeDouble_raw {c : Char} (hc : c ≠ '\\') : decodeDouble [c] = .ok [c] := by
  have htoken : stringToken c [] = .ok (Token.char c) := by
    simp [stringToken, Token.withEscapes, Token.opensInterpolation, hc]
  exact readTokens_single htoken (by simp)

theorem Token.hex_upperHexPadded {n : Nat} (hn : n < 0x80) :
    Token.hex (upperHexPadded 2 n) = .ok ⟨[Char.ofNat n], 2⟩ := by
  have hlength : (upperHexPadded 2 n).length = 2 := length_upperHexPadded (by omega)
  have htake : ((upperHexPadded 2 n).take 2).takeWhile isHexDigit = upperHexPadded 2 n := by
    rw [List.take_of_length_le (by omega), List.takeWhile_eq_self_iff]
    intro c hc
    exact isHexDigit_of_mem_upperHexPadded hc
  unfold Token.hex
  rw [htake]
  split
  next hnil => simp [hnil] at hlength
  next => simp [ofDigits_upperHexPadded, hn, hlength]

theorem Token.codePoint_upperHex (c : Char) :
    Token.codePoint (upperHex c.toNat) = .ok c := by
  have hvalid : c.toNat.isValidChar := c.valid
  have hbound : c.toNat < 16 ^ (5 + 1) := by
    unfold Nat.isValidChar at hvalid
    omega
  have hlength : (upperHex c.toNat).length ≤ 6 := length_upperHex_le hbound
  have hdigits : (upperHex c.toNat).all isHexDigit = true := by
    rw [List.all_eq_true]
    intro digit hdigit
    exact isHexDigit_of_mem_upperHex hdigit
  unfold Token.codePoint
  simp [upperHex_ne_nil, hdigits, hlength, ofDigits_upperHex, hvalid]

theorem Token.unicode_upperHex (c : Char) :
    Token.unicode ('\x7b' :: upperHex c.toNat ++ ['\x7d']) =
      .ok ⟨[c], (upperHex c.toNat).length + 2⟩ := by
  have hword : words (upperHex c.toNat) = [upperHex c.toNat] := by
    apply words_of_forall_not_blank (upperHex_ne_nil _)
    intro digit hdigit
    exact isBlank_of_isHexDigit (isHexDigit_of_mem_upperHex hdigit)
  have hgroup : (upperHex c.toNat ++ ['\x7d']).takeWhile (· != '\x7d') =
      upperHex c.toNat := by
    rw [List.takeWhile_append_of_pos]
    · simp
    · intro digit hdigit
      simpa using ne_of_isHexDigit (isHexDigit_of_mem_upperHex hdigit) (by decide)
  simp only [Token.unicode, List.cons_append, hgroup, hword]
  simp [Token.codePoint_upperHex, Except.map]

/-! ## The forms of a written character -/

/-- How `encodeCharWith` can write a character. -/
inductive LiteralForm (printable : Char → Bool) (c : Char) (preference : Quote) :
    EncodedChar → Prop
  | short {letter : Char} (hshort : shortEscape? c = some letter) :
      LiteralForm printable c preference ⟨.double, ['\\', letter]⟩
  | byte (hhidden : printable c = false) (hsmall : c.toNat < 0x80) :
      LiteralForm printable c preference
        ⟨.double, '\\' :: 'x' :: upperHexPadded 2 c.toNat⟩
  | codePoint (hhidden : printable c = false) :
      LiteralForm printable c preference
        ⟨.double, '\\' :: 'u' :: '\x7b' :: upperHex c.toNat ++ ['\x7d']⟩
  | backslash (hc : c = '\\') :
      LiteralForm printable c preference ⟨preference, ['\\', '\\']⟩
  | raw {quote : Quote} (hplain : shortEscape? c = none) (hc : c ≠ '\\')
      (hmark : c ≠ quote.delimiter)
      (hquote : quote ≠ preference → c = preference.delimiter) :
      LiteralForm printable c preference ⟨quote, [c]⟩

theorem literalForm_encodeCharWith (printable : Char → Bool) (c : Char) (preference : Quote) :
    LiteralForm printable c preference (encodeCharWith printable c preference) := by
  unfold encodeCharWith
  cases hshort : shortEscape? c with
  | some letter => exact .short hshort
  | none =>
      simp only
      by_cases hprintable : printable c = true
      · rw [if_pos hprintable]
        by_cases hc : c = '\\'
        · subst hc
          have hmark : ('\\' == preference.delimiter) = false := by
            cases preference <;> decide
          simpa [hmark] using @LiteralForm.backslash printable _ preference rfl
        · by_cases hmark : c = preference.delimiter
          · simp only [hmark, beq_self_eq_true, if_true]
            rw [hmark] at hc hshort
            simp only [beq_iff_eq, hc, if_false]
            exact .raw hshort hc preference.delimiter_other_ne fun _ => rfl
          · simp only [beq_iff_eq, hmark, hc, if_false]
            exact .raw hshort hc hmark fun hne => absurd rfl hne
      · rw [if_neg hprintable]
        have hhidden : printable c = false := by simpa using hprintable
        unfold codePointEscape
        split
        next hsmall => exact .byte hhidden hsmall
        next => exact .codePoint hhidden

/-- The nine characters with a short escape, each with its letter. -/
def shortEscapes : List (Char × Char) :=
  [('\n', 'n'), ('\t', 't'), ('\r', 'r'), ('\x0c', 'f'), ('\x0b', 'v'), ('\x07', 'a'),
    ('\x08', 'b'), ('\x1b', 'e'), ('\x00', '0')]

theorem mem_shortEscapes {c letter : Char} (hshort : shortEscape? c = some letter) :
    (c, letter) ∈ shortEscapes := by
  unfold shortEscape? at hshort
  split at hshort <;> cases hshort <;> decide

/-- The characters that end a string literal or a line, or can start an interpolation. -/
def activeChars : List Char := ['\'', '"', '#', '\n', '\r']

namespace LiteralForm

variable {printable : Char → Bool} {c : Char} {preference : Quote} {encoded : EncodedChar}

theorem decodeString_body (hform : LiteralForm printable c preference encoded) :
    decodeString (String.ofList encoded.body) encoded.quote
      (.ofOpening encoded.quote.delimiter) = .ok c.toString := by
  cases hform with
  | @short letter hshort =>
      have hescape : stringEscape letter [] = .ok ⟨[c], 0⟩ := by
        have hall : ∀ pair ∈ shortEscapes,
            stringEscape pair.2 [] = .ok ⟨[pair.1], 0⟩ := by decide
        exact hall _ (mem_shortEscapes hshort)
      simp [decodeString, decodeDouble_escape hescape, Except.map]
  | byte _ hsmall =>
      have hescape : stringEscape 'x' (upperHexPadded 2 c.toNat) = .ok ⟨[c], 2⟩ := by
        have hhex := Token.hex_upperHexPadded hsmall
        rw [Char.ofNat_toNat] at hhex
        exact hhex
      have hlength : (upperHexPadded 2 c.toNat).length ≤ 2 :=
        (length_upperHexPadded (by omega)).le
      simp [decodeString, decodeDouble_escape hescape hlength, Except.map]
  | codePoint _ =>
      have hescape : stringEscape 'u' ('\x7b' :: upperHex c.toNat ++ ['\x7d']) =
          .ok ⟨[c], (upperHex c.toNat).length + 2⟩ :=
        Token.unicode_upperHex c
      have hbody := decodeDouble_escape hescape (by simp)
      simp only [List.cons_append] at hbody
      simp [decodeString, hbody, Except.map]
  | backslash hc =>
      subst hc
      cases preference with
      | single => rfl
      | double =>
          have hescape : stringEscape '\\' [] = .ok ⟨['\\'], 0⟩ := by decide
          simp [decodeString, decodeDouble_escape hescape, Except.map]
  | @raw quote _ hc _ _ =>
      cases quote with
      | single => simp [decodeString, decodeSingle]
      | double => simp [decodeString, decodeDouble_raw hc, Except.map]

/-- Only a character written as it stands can be one that a reader of the source would act on. -/
theorem body_harmless_or_raw (hform : LiteralForm printable c preference encoded) :
    (∀ other ∈ encoded.body, other ∉ activeChars) ∨
      encoded.body = [c] ∧ c ≠ encoded.quote.delimiter ∧ shortEscape? c = none := by
  have hdigit : ∀ {digit : Char}, isHexDigit digit = true → digit ∉ activeChars := by
    intro digit hhex hactive
    have hall : activeChars.all (isHexDigit · == false) = true := by decide
    have hplain := beq_iff_eq.mp (List.all_eq_true.mp hall digit hactive)
    exact ne_of_isHexDigit hhex hplain rfl
  cases hform with
  | @short letter hshort =>
      left
      have hall : ∀ pair ∈ shortEscapes, pair.2 ∉ activeChars := by decide
      have hletter := hall _ (mem_shortEscapes hshort)
      intro other hother
      simp only [List.mem_cons, List.not_mem_nil, or_false] at hother
      rcases hother with rfl | rfl
      · decide
      · exact hletter
  | byte _ _ =>
      left
      intro other hother
      simp only [List.mem_cons] at hother
      rcases hother with rfl | rfl | hother
      · decide
      · decide
      · exact hdigit (isHexDigit_of_mem_upperHexPadded hother)
  | codePoint _ =>
      left
      intro other hother
      simp only [List.cons_append, List.mem_cons, List.mem_append, List.not_mem_nil,
        or_false] at hother
      rcases hother with rfl | rfl | rfl | hother | rfl
      · decide
      · decide
      · decide
      · exact hdigit (isHexDigit_of_mem_upperHex hother)
      · decide
  | backslash _ =>
      left
      intro other hother
      simp only [List.mem_cons, List.not_mem_nil, or_false, or_self] at hother
      subst hother
      decide
  | raw hplain _ hmark _ => exact .inr ⟨rfl, hmark, hplain⟩

theorem even_trailingBackslashes_body (hform : LiteralForm printable c preference encoded) :
    Even (trailingBackslashes encoded.body) := by
  have hdigit : ∀ {digit : Char}, isHexDigit digit = true → digit ≠ '\\' :=
    fun hhex => ne_of_isHexDigit hhex (by decide)
  cases hform with
  | short _ => rw [even_trailingBackslashes_escape]; simp
  | byte _ _ =>
      have hdigits : '\\' ∉ upperHexPadded 2 c.toNat :=
        fun hmem => hdigit (isHexDigit_of_mem_upperHexPadded hmem) rfl
      rw [even_trailingBackslashes_escape, trailingBackslashes_eq_zero hdigits]
      simp
  | codePoint _ =>
      have hdigits : '\\' ∉ '\x7b' :: upperHex c.toNat ++ ['\x7d'] := by
        simpa using fun hmem => hdigit (isHexDigit_of_mem_upperHex hmem) rfl
      rw [List.cons_append, List.cons_append, even_trailingBackslashes_escape,
        trailingBackslashes_eq_zero hdigits]
      simp
  | backslash _ => rw [even_trailingBackslashes_escape]; simp
  | raw _ hc _ _ => simp [trailingBackslashes_cons hc]

theorem closedBody (hform : LiteralForm printable c preference encoded) :
    ClosedBody encoded.quote.delimiter encoded.body := by
  apply ClosedBody.of_not_mem _ hform.even_trailingBackslashes_body
  rcases hform.body_harmless_or_raw with hbody | ⟨hbody, hmark, -⟩
  · intro hmem
    apply hbody _ hmem
    rcases encoded.quote.delimiter_cases with hquote | hquote <;> rw [hquote] <;> decide
  · simpa [hbody] using hmark.symm

theorem lineBreak_not_mem_text (hform : LiteralForm printable c preference encoded)
    {lineBreak : Char} (hbreak : lineBreak = '\n' ∨ lineBreak = '\r') :
    lineBreak ∉ encoded.text.toList := by
  have hmark : lineBreak ≠ encoded.quote.delimiter := by
    rcases encoded.quote.delimiter_cases with hquote | hquote <;>
      rcases hbreak with rfl | rfl <;> rw [hquote] <;> decide
  have hbody : lineBreak ∉ encoded.body := by
    rcases hform.body_harmless_or_raw with hbody | ⟨hbody, -, hplain⟩
    · intro hmem
      apply hbody _ hmem
      rcases hbreak with rfl | rfl <;> decide
    · rw [hbody, List.mem_singleton]
      rintro rfl
      rcases hbreak with rfl | rfl <;> simp [shortEscape?] at hplain
  simp [EncodedChar.text, Quote.wrap, hmark, hbody]

theorem interpolation_not_infix_text (hform : LiteralForm printable c preference encoded)
    {sigil : Char} (hsigil : sigil ∈ ['\x7b', '@', '$']) :
    ¬ ['#', sigil] <:+: encoded.text.toList := by
  have hmark : '#' ≠ encoded.quote.delimiter := by
    rcases encoded.quote.delimiter_cases with hquote | hquote <;> rw [hquote] <;> decide
  simp only [EncodedChar.text, String.toList_ofList, Quote.wrap]
  intro hinside
  rcases hform.body_harmless_or_raw with hbody | ⟨hbody, -, -⟩
  · have hhash : '#' ∈ encoded.quote.delimiter :: encoded.body ++ [encoded.quote.delimiter] :=
      hinside.subset (by simp)
    simp only [List.cons_append, List.mem_cons, List.mem_append, List.not_mem_nil,
      or_false, hmark, false_or] at hhash
    exact hbody _ hhash (by decide)
  · -- between the marks stands one character, so what follows a `#` is a mark
    have hnext : sigil = encoded.quote.delimiter := by
      obtain ⟨before, after, happend⟩ := hinside
      rw [hbody] at happend
      rcases before with _ | ⟨first, _ | ⟨second, before⟩⟩
      · simp [hmark] at happend
      · simp only [List.cons_append, List.nil_append, List.cons.injEq] at happend
        exact happend.2.2.1
      · have hlength := congrArg List.length happend
        simp at hlength
        omega
    rw [hnext] at hsigil
    rcases encoded.quote.delimiter_cases with hquote | hquote <;> rw [hquote] at hsigil <;>
      exact absurd hsigil (by decide)

theorem quote_eq_or (hform : LiteralForm printable c preference encoded)
    (hquote : encoded.quote ≠ preference) :
    (shortEscape? c).isSome = true ∨ printable c = false ∨ c = preference.delimiter := by
  cases hform with
  | short hshort => simp [hshort]
  | byte hhidden _ => exact .inr (.inl hhidden)
  | codePoint hhidden => exact .inr (.inl hhidden)
  | backslash _ => exact absurd rfl hquote
  | raw _ _ _ hpreferred => exact .inr (.inr (hpreferred hquote))

end LiteralForm

/-- Whatever counts as printable, the literal written for a character stands between two quotation
marks of its family, is closed by the second one and no earlier, reads back as the character,
holds no line break and no start of an interpolation, and keeps the preferred family unless the
character rules it out. -/
theorem encodeCharWith_reads_back (printable : Char → Bool) (c : Char) (preference : Quote) :
    let encoded := encodeCharWith printable c preference
    let mark := encoded.quote.delimiter
    encoded.text.toList = mark :: encoded.body ++ [mark] ∧
      decodeLiteral encoded.text = .ok c.toString ∧
      splitString encoded.text =
        some ⟨encoded.quote, String.ofList encoded.body, ⟨mark.toString, mark.toString⟩⟩ ∧
      ClosedBody mark encoded.body ∧
      closingOffset? mark (encoded.body ++ [mark]) = some encoded.body.length ∧
      (∀ lineBreak ∈ ['\n', '\r'], lineBreak ∉ encoded.text.toList) ∧
      (∀ sigil ∈ ['\x7b', '@', '$'], ¬ ['#', sigil] <:+: encoded.text.toList) ∧
      (encoded.quote ≠ preference →
        (shortEscape? c).isSome = true ∨ printable c = false ∨ c = preference.delimiter) ∧
      encodeText c.toString preference = .ok (encodeCharWith isPrintable c preference) := by
  intro encoded mark
  have hform : LiteralForm printable c preference encoded :=
    literalForm_encodeCharWith printable c preference
  have hsplit := splitString_wrap encoded.quote encoded.body
  simp only [Delimiters.ofOpening, closingChar_delimiter] at hsplit
  refine ⟨?_, ?_, hsplit, hform.closedBody, closingOffset?_of_closedBody hform.closedBody,
    ?_, fun sigil hsigil => hform.interpolation_not_infix_text hsigil, hform.quote_eq_or, ?_⟩
  · simp [EncodedChar.text, Quote.wrap, mark]
  · exact (decodeLiteral_wrap encoded.quote encoded.body).trans hform.decodeString_body
  · intro lineBreak hbreak
    exact hform.lineBreak_not_mem_text (by simpa using hbreak)
  · simp [encodeText, encodeChar]

end RubyLint
