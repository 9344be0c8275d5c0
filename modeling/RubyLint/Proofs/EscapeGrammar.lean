import RubyLint.Literal.Token
import RubyLint.Proofs.HexDigits
import RubyLint.Proofs.Outcomes
import Mathlib.Data.Nat.Digits.Lemmas
import Mathlib.Tactic

/-!
# The grammar of escapes

A literal body is a sequence of lexemes.  Whether a text is a lexeme may depend on the text after
it: digits are taken greedily, and some characters must not follow a `#`.  So a lexeme is a relation
between a text, the rest of the body and the characters that the text stands for.

A reader is exact for a lexeme if it ends with a token just when its input starts with the lexeme,
and takes the text of the lexeme from it.  The readers of numeric escapes are exact for what is
written here as their grammar, and a scanner that repeats an exact reader accepts the sequences of
its lexemes.
-/

namespace RubyLint.Grammar

open Text

/-- What may stand before a rest, and the characters that it stands for. -/
abbrev Lexeme := (text rest value : List Char) → Prop

/-- `read` ends with a token exactly on inputs that start with `lexeme`. -/
def Exact (read : List Char → Except DecodeError Token) (lexeme : Lexeme) : Prop :=
  ∀ input token, read input = .ok token ↔
    ∃ text rest, text ++ rest = input ∧ text.length = token.width ∧ lexeme text rest token.value

/-- `read` reads the lexemes that start with a given character. -/
structure Scans (read : Char → List Char → Except DecodeError Token) (lexeme : Lexeme) : Prop where
  exact (c : Char) : Exact (read c) fun text => lexeme (c :: text)
  ne_nil {text rest value : List Char} : lexeme text rest value → text ≠ []

/-- The number that `digits` write in `base`. -/
def numeral (base : Nat) (digits : List Char) : Nat :=
  Nat.ofDigits base (digits.reverse.map digitValue)

/-- `digits` are digits, at most `limit`, and as many of them as there are before `rest`. -/
structure Greedy (isDigit : Char → Bool) (limit : Nat) (digits rest : List Char) : Prop where
  all_digits : ∀ c ∈ digits, isDigit c = true
  length_le : digits.length ≤ limit
  maximal : digits.length < limit → ∀ c ∈ rest.head?, isDigit c = false

/-- `digits` name the code point of `c`.  Every character is a scalar value. -/
structure CodePoint (digits : List Char) (c : Char) : Prop where
  all_digits : ∀ d ∈ digits, isHexDigit d = true
  length_pos : 1 ≤ digits.length
  length_le : digits.length ≤ 6
  value : c.toNat = numeral 16 digits

/-- `words` are the words of `text`, which blanks separate and may surround. -/
inductive Spaced : (text : List Char) → (words : List (List Char)) → Prop
  | blank {text : List Char} (htext : ∀ c ∈ text, isBlank c = true) : Spaced text []
  | word {blanks word rest : List Char} {words : List (List Char)}
      (hblanks : ∀ c ∈ blanks, isBlank c = true) (hne : word ≠ [])
      (hword : ∀ c ∈ word, isBlank c = false) (hrest : ∀ c ∈ rest.head?, isBlank c = true)
      (hwords : Spaced rest words) : Spaced (blanks ++ (word ++ rest)) (word :: words)

/-- Up to two more octal digits after `first`, for an ASCII character. -/
def OctalDigits (first : Char) : Lexeme := fun digits rest value =>
  Greedy isOctalDigit 2 digits rest ∧
    ∃ c : Char, value = [c] ∧ c.toNat = numeral 8 (first :: digits) ∧ c.toNat < 0x80

/-- One or two hexadecimal digits for an ASCII character. -/
def HexDigits : Lexeme := fun digits rest value =>
  Greedy isHexDigit 2 digits rest ∧ digits ≠ [] ∧
    ∃ c : Char, value = [c] ∧ c.toNat = numeral 16 digits ∧ c.toNat < 0x80

/-- Four digits of one code point, or the code points up to the next closing brace. -/
inductive UnicodeDigits : Lexeme
  | four {digits rest : List Char} {c : Char} (hlength : digits.length = 4)
      (hpoint : CodePoint digits c) : UnicodeDigits digits rest [c]
  | group {group rest value : List Char} {words : List (List Char)} (hopen : '\x7d' ∉ group)
      (hwords : Spaced group words) (hne : words ≠ [])
      (hpoints : List.Forall₂ CodePoint words value) :
      UnicodeDigits ('\x7b' :: (group ++ ['\x7d'])) rest value

/-- A character that stands for itself, or a backslash and one of `escapes`. -/
inductive Piece (escapes : Lexeme) : Lexeme
  | plain {c : Char} {rest : List Char} (hc : c ≠ '\\')
      (hhash : c = '#' → ∀ next ∈ rest.head?, next ∉ ['\x7b', '@', '$']) :
      Piece escapes [c] rest [c]
  | escape {text rest value : List Char} (hescape : escapes text rest value) :
      Piece escapes ('\\' :: text) rest value

/-- A sequence of lexemes, each in view of all that follows it. -/
inductive Sequence (lexeme : Lexeme) : Lexeme
  | nil {rest : List Char} : Sequence lexeme [] rest []
  | cons {text more rest value values : List Char} (hfirst : lexeme text (more ++ rest) value)
      (hmore : Sequence lexeme more rest values) :
      Sequence lexeme (text ++ more) rest (value ++ values)

/-! ## Digits -/

theorem ofDigits_eq_numeral (base : Nat) (digits : List Char) :
    ofDigits base digits = numeral base digits := by
  induction digits using List.reverseRecOn with
  | nil => rfl
  | append_singleton digits digit ih =>
      rw [ofDigits_concat, ih]
      simp only [numeral, List.reverse_append, List.reverse_singleton, List.singleton_append,
        List.map_cons, Nat.ofDigits_cons]
      ring

theorem numeral_lt
    {base : Nat} {digits : List Char} (hbase : 1 < base)
    (hdigits : ∀ c ∈ digits, digitValue c < base) : numeral base digits < base ^ digits.length := by
  have hvalues : ∀ value ∈ digits.reverse.map digitValue, value < base := by
    simpa using hdigits
  simpa [numeral] using Nat.ofDigits_lt_base_pow_length hbase hvalues

theorem digitValue_lt_of_isOctalDigit {c : Char} (hc : isOctalDigit c = true) :
    digitValue c < 8 := by
  simp only [isOctalDigit, Bool.and_eq_true, decide_eq_true_eq] at hc
  have hnine : c ≤ '9' := Char.le_trans hc.2 (show '7' ≤ '9' by decide)
  have hseven : c.toNat ≤ 55 := hc.2
  have hzero : '0'.toNat = 48 := rfl
  rw [digitValue, if_pos ⟨hc.1, hnine⟩, hzero]
  omega

theorem takeWhile_take_eq_iff
    {isDigit : Char → Bool} {limit : Nat} {input digits : List Char} :
    (input.take limit).takeWhile isDigit = digits ↔
      ∃ rest, digits ++ rest = input ∧ Greedy isDigit limit digits rest := by
  constructor
  · rintro rfl
    induction limit generalizing input with
    | zero => exact ⟨input, by simp, by simp, by simp, by simp⟩
    | succ limit ih =>
        cases input with
        | nil => exact ⟨[], by simp, by simp, by simp, by simp⟩
        | cons c input =>
            cases hc : isDigit c with
            | false => exact ⟨c :: input, by simp [hc], by simp [hc], by simp [hc], by simp [hc]⟩
            | true =>
                obtain ⟨rest, hrest, hdigits, hlength, hmaximal⟩ := @ih input
                refine ⟨rest, by simpa [hc] using hrest, ?_, by simpa [hc] using hlength, ?_⟩
                · simpa [hc] using hdigits
                · simpa [hc] using hmaximal
  · rintro ⟨rest, rfl, hdigits, hlength, hmaximal⟩
    induction digits generalizing limit with
    | nil =>
        cases rest with
        | nil => simp
        | cons c rest =>
            cases limit with
            | zero => simp
            | succ limit => simpa using hmaximal
    | cons digit digits ih =>
        obtain ⟨hdigit, hdigits⟩ := List.forall_mem_cons.mp hdigits
        cases limit with
        | zero => simp at hlength
        | succ limit =>
            rw [List.cons_append, List.take_succ_cons, List.takeWhile_cons_of_pos hdigit]
            rw [ih hdigits (by simpa using hlength) (by simpa using hmaximal)]

theorem Greedy.cons_iff
    {isDigit : Char → Bool} {limit : Nat} {first : Char} {digits rest : List Char} :
    Greedy isDigit (limit + 1) (first :: digits) rest ↔
      isDigit first = true ∧ Greedy isDigit limit digits rest := by
  constructor
  · rintro ⟨hdigits, hlength, hmaximal⟩
    obtain ⟨hfirst, hdigits⟩ := List.forall_mem_cons.mp hdigits
    exact ⟨hfirst, hdigits, by simpa using hlength, by simpa using hmaximal⟩
  · rintro ⟨hfirst, hdigits, hlength, hmaximal⟩
    exact ⟨List.forall_mem_cons.mpr ⟨hfirst, hdigits⟩, by simpa using hlength,
      by simpa using hmaximal⟩

theorem toNat_eq_iff {c : Char} {n : Nat} : c.toNat = n ↔ n.isValidChar ∧ Char.ofNat n = c := by
  constructor
  · rintro rfl
    exact ⟨c.valid, Char.ofNat_toNat c⟩
  · rintro ⟨hvalid, rfl⟩
    rw [Char.ofNat, dif_pos hvalid]
    rfl

theorem isValidChar_of_lt_128 {n : Nat} (hn : n < 0x80) : n.isValidChar :=
  .inl (by omega)

theorem ofNat_eq_iff_of_lt_128 {n : Nat} {value : List Char} (hn : n < 0x80) :
    [Char.ofNat n] = value ↔ ∃ c : Char, value = [c] ∧ c.toNat = n ∧ c.toNat < 0x80 := by
  constructor
  · rintro rfl
    have hc := toNat_eq_iff.mpr ⟨isValidChar_of_lt_128 hn, rfl⟩
    exact ⟨Char.ofNat n, rfl, hc, hc.symm ▸ hn⟩
  · rintro ⟨c, rfl, hc, -⟩
    rw [(toNat_eq_iff.mp hc).2]

/-! ## Numeric escapes -/

theorem exact_octal (first : Char) : Exact (Token.octal first) (OctalDigits first) := by
  intro input token
  obtain ⟨value, width⟩ := token
  unfold Token.octal OctalDigits
  simp only [ofDigits_eq_numeral]
  constructor
  · intro hread
    split at hread
    next hascii =>
      cases hread
      obtain ⟨rest, hsplit, hgreedy⟩ := takeWhile_take_eq_iff.mp rfl
      exact ⟨_, rest, hsplit, rfl, hgreedy, (ofNat_eq_iff_of_lt_128 hascii).mp rfl⟩
    next => cases hread
  · rintro ⟨digits, rest, hsplit, rfl, hgreedy, c, hc⟩
    rw [takeWhile_take_eq_iff.mpr ⟨rest, hsplit, hgreedy⟩]
    have hascii : numeral 8 (first :: digits) < 0x80 := hc.2.1 ▸ hc.2.2
    rw [if_pos hascii, (ofNat_eq_iff_of_lt_128 hascii).mpr ⟨c, hc⟩]

theorem exact_hex : Exact Token.hex HexDigits := by
  intro input token
  obtain ⟨value, width⟩ := token
  unfold Token.hex HexDigits
  simp only [ofDigits_eq_numeral]
  constructor
  · intro hread
    split at hread
    next => cases hread
    next hne =>
      split at hread
      next hascii =>
        cases hread
        obtain ⟨rest, hsplit, hgreedy⟩ := takeWhile_take_eq_iff.mp rfl
        exact ⟨_, rest, hsplit, rfl, hgreedy, hne, (ofNat_eq_iff_of_lt_128 hascii).mp rfl⟩
      next => cases hread
  · rintro ⟨digits, rest, hsplit, rfl, hgreedy, hne, c, hc⟩
    rw [takeWhile_take_eq_iff.mpr ⟨rest, hsplit, hgreedy⟩]
    have hascii : numeral 16 digits < 0x80 := hc.2.1 ▸ hc.2.2
    obtain ⟨digit, more, rfl⟩ := List.exists_cons_of_ne_nil hne
    simp only [if_pos hascii, (ofNat_eq_iff_of_lt_128 hascii).mpr ⟨c, hc⟩]

theorem codePoint_eq_ok_iff {digits : List Char} {c : Char} :
    Token.codePoint digits = .ok c ↔ CodePoint digits c := by
  unfold Token.codePoint
  simp only [ofDigits_eq_numeral]
  constructor
  · intro hread
    split at hread
    next => cases hread
    next hdigits =>
      simp only [Bool.or_eq_true, List.isEmpty_iff, Bool.not_eq_true', decide_eq_true_eq, not_or,
        Bool.not_eq_false, List.all_eq_true, not_lt] at hdigits
      split at hread
      next hvalid =>
        cases hread
        exact ⟨hdigits.1.2, List.length_pos_of_ne_nil hdigits.1.1, hdigits.2,
          toNat_eq_iff.mpr ⟨hvalid, rfl⟩⟩
      next => cases hread
  · rintro ⟨hdigits, hpos, hlength, hvalue⟩
    obtain ⟨hvalid, hc⟩ := toNat_eq_iff.mp hvalue
    have hne : digits ≠ [] := List.ne_nil_of_length_pos hpos
    have hall : digits.all isHexDigit = true := List.all_eq_true.mpr hdigits
    simp [hne, hall, hlength, hvalid, hc]

theorem mapM_codePoint_eq_ok_iff {words : List (List Char)} {value : List Char} :
    words.mapM Token.codePoint = .ok value ↔ List.Forall₂ CodePoint words value := by
  induction words generalizing value with
  | nil => simp [pure, Except.pure, eq_comm]
  | cons word words ih =>
      simp only [List.mapM_cons, Outcome.bind_eq_ok_iff, codePoint_eq_ok_iff, ih,
        List.forall₂_cons_left_iff]
      constructor
      · rintro ⟨c, hc, rest, hrest, hvalue⟩
        cases hvalue
        exact ⟨c, rest, hc, hrest, rfl⟩
      · rintro ⟨c, rest, hc, hrest, rfl⟩
        exact ⟨c, hc, rest, hrest, rfl⟩

theorem words_append_of_blank
    {blanks : List Char} (hblanks : ∀ c ∈ blanks, isBlank c = true) (text : List Char) :
    words (blanks ++ text) = words text := by
  induction blanks with
  | nil => rfl
  | cons c blanks ih =>
      obtain ⟨hc, hblanks⟩ := List.forall_mem_cons.mp hblanks
      rw [List.cons_append, words, if_pos hc, ih hblanks]

theorem words_append_of_word
    {word rest : List Char} (hne : word ≠ []) (hword : ∀ c ∈ word, isBlank c = false)
    (hrest : ∀ c ∈ rest.head?, isBlank c = true) : words (word ++ rest) = word :: words rest := by
  obtain ⟨first, more, rfl⟩ := List.exists_cons_of_ne_nil hne
  obtain ⟨hfirst, hmore⟩ := List.forall_mem_cons.mp hword
  have hmore' : ∀ c ∈ more, (!isBlank c) = true := by simpa using hmore
  have hend : rest.takeWhile (!isBlank ·) = [] ∧ rest.dropWhile (!isBlank ·) = rest := by
    cases rest with
    | nil => simp
    | cons c rest => simpa using hrest
  rw [List.cons_append, words, if_neg (by simp [hfirst]), List.takeWhile_append_of_pos hmore',
    List.dropWhile_append_of_pos hmore', hend.1, hend.2, List.append_nil]

theorem Spaced.cons_blank
    {c : Char} {text : List Char} {words : List (List Char)} (hc : isBlank c = true)
    (htext : Spaced text words) : Spaced (c :: text) words := by
  cases htext with
  | blank htext => exact .blank (List.forall_mem_cons.mpr ⟨hc, htext⟩)
  | word hblanks hne hword hrest hwords =>
      exact .word (List.forall_mem_cons.mpr ⟨hc, hblanks⟩) hne hword hrest hwords

theorem spaced_words (text : List Char) : Spaced text (words text) := by
  induction text using words.induct with
  | case1 => exact words.eq_1 ▸ .blank (by simp)
  | case2 c rest hc ih =>
      rw [words, if_pos hc]
      exact ih.cons_blank hc
  | case3 c rest hc ih =>
      rw [words, if_neg hc]
      have hsplit := @List.takeWhile_append_dropWhile _ (!isBlank ·) rest
      have hword : ∀ d ∈ rest.takeWhile (!isBlank ·), isBlank d = false := by
        intro d hd
        simpa using List.mem_takeWhile_imp hd
      have hrest : ∀ d ∈ (rest.dropWhile (!isBlank ·)).head?, isBlank d = true := by
        intro d hd
        have hnot := List.head?_dropWhile_not (!isBlank ·) rest
        rw [Option.mem_def.mp hd] at hnot
        simpa using hnot
      have hspaced := @Spaced.word [] (c :: rest.takeWhile (!isBlank ·)) _ _ (by simp) (by simp)
        (List.forall_mem_cons.mpr ⟨by simpa using hc, hword⟩) hrest ih
      rwa [List.nil_append, List.cons_append, hsplit] at hspaced

theorem words_eq_iff {text : List Char} {found : List (List Char)} :
    words text = found ↔ Spaced text found := by
  constructor
  · rintro rfl
    exact spaced_words text
  · intro hspaced
    induction hspaced with
    | blank htext => simpa [words] using words_append_of_blank htext []
    | word hblanks hne hword hrest _ ih =>
        rw [words_append_of_blank hblanks, words_append_of_word hne hword hrest, ih]

theorem unicode_group_eq_ok_iff
    {group after : List Char} {token : Token} (hopen : '\x7d' ∉ group) :
    Token.unicode ('\x7b' :: (group ++ '\x7d' :: after)) = .ok token ↔
      ∃ parts value, Spaced group parts ∧ parts ≠ [] ∧ List.Forall₂ CodePoint parts value ∧
        ⟨value, group.length + 2⟩ = token := by
  have hclosed : (group ++ '\x7d' :: after).contains '\x7d' = true := by simp
  have hgroup : (group ++ '\x7d' :: after).takeWhile (· != '\x7d') = group := by
    rw [List.takeWhile_append_of_pos]
    · simp
    · intro c hc
      have hne : c ≠ '\x7d' := fun hsame => hopen (hsame ▸ hc)
      simpa using hne
  simp only [Token.unicode, hclosed, hgroup, if_true, ← words_eq_iff, ← mapM_codePoint_eq_ok_iff]
  cases words group with
  | nil => simp
  | cons word parts =>
      refine Outcome.map_eq_ok_iff.trans ?_
      constructor
      · rintro ⟨value, hvalue, htoken⟩
        exact ⟨_, value, rfl, by simp, hvalue, htoken⟩
      · rintro ⟨_, value, rfl, -, hvalue, htoken⟩
        exact ⟨value, hvalue, htoken⟩

theorem unicode_eq_of_no_brace {input : List Char} (hinput : ∀ c ∈ input.head?, c ≠ '\x7b') :
    Token.unicode input =
      if (input.take 4).length = 4 then (Token.codePoint (input.take 4)).map (⟨[·], 4⟩)
      else .error .shortUnicode := by
  unfold Token.unicode
  split
  next => simp at hinput
  next => rfl

theorem unicode_digits_eq_ok_iff
    {input : List Char} {token : Token} (hinput : ∀ c ∈ input.head?, c ≠ '\x7b') :
    Token.unicode input = .ok token ↔
      (input.take 4).length = 4 ∧ ∃ c, CodePoint (input.take 4) c ∧ ⟨[c], 4⟩ = token := by
  rw [unicode_eq_of_no_brace hinput]
  split
  next hlength =>
    refine Outcome.map_eq_ok_iff.trans ?_
    simp only [hlength, codePoint_eq_ok_iff, true_and]
  next hlength => simp only [reduceCtorEq, hlength, false_and]

theorem exact_unicode : Exact Token.unicode UnicodeDigits := by
  intro input token
  constructor
  · intro hread
    by_cases hbrace : ∀ c ∈ input.head?, c ≠ '\x7b'
    · obtain ⟨hlength, c, hpoint, rfl⟩ := (unicode_digits_eq_ok_iff hbrace).mp hread
      exact ⟨input.take 4, input.drop 4, List.take_append_drop 4 input, hlength,
        .four hlength hpoint⟩
    · obtain ⟨inner, rfl⟩ : ∃ inner, input = '\x7b' :: inner := by
        cases input with
        | nil => simp at hbrace
        | cons c inner => exact ⟨inner, by simpa using hbrace⟩
      have hclosed : '\x7d' ∈ inner := by
        by_contra hopen
        simp [Token.unicode, hopen] at hread
      obtain ⟨group, after, rfl, hopen⟩ := List.eq_append_cons_of_mem hclosed
      obtain ⟨parts, value, hparts, hne, hpoints, rfl⟩ := (unicode_group_eq_ok_iff hopen).mp hread
      exact ⟨_, after, by simp, by simp, .group hopen hparts hne hpoints⟩
  · obtain ⟨value, width⟩ := token
    rintro ⟨text, rest, rfl, rfl, hlexeme⟩
    cases hlexeme with
    | four hlength hpoint =>
        obtain ⟨first, more, rfl⟩ := List.exists_cons_of_length_pos hpoint.length_pos
        have hfirst : first ≠ '\x7b' :=
          ne_of_isHexDigit (hpoint.all_digits first (by simp)) (by decide)
        rw [unicode_digits_eq_ok_iff (by simpa using hfirst), ← hlength, List.take_left]
        exact ⟨rfl, _, hpoint, rfl⟩
    | group hopen hparts hne hpoints =>
        rw [List.cons_append, List.append_assoc, List.singleton_append,
          unicode_group_eq_ok_iff hopen]
        exact ⟨_, _, hparts, hne, hpoints, by simp⟩

/-! ## Pieces and sequences -/

theorem opensInterpolation_iff {rest : List Char} :
    Token.opensInterpolation rest = true ↔ ∃ next ∈ rest.head?, next ∈ ['\x7b', '@', '$'] := by
  cases rest with
  | nil => simp [Token.opensInterpolation]
  | cons c rest => simp [Token.opensInterpolation, or_assoc]

theorem Scans.withEscapes
    {escape : Char → List Char → Except DecodeError Token} {escapes : Lexeme}
    (hscans : Scans escape escapes) : Scans (Token.withEscapes escape) (Piece escapes) where
  exact c input token := by
    obtain ⟨value, width⟩ := token
    unfold Token.withEscapes
    by_cases hc : c = '\\'
    · subst hc
      constructor
      · intro hread
        cases input with
        | nil => simp at hread
        | cons letter input =>
            obtain ⟨token, htoken, hwiden⟩ := Outcome.map_eq_ok_iff.mp hread
            cases hwiden
            obtain ⟨text, rest, rfl, hwidth, hescape⟩ := (hscans.exact letter _ _).mp htoken
            exact ⟨letter :: text, rest, rfl, by simp [hwidth], .escape hescape⟩
      · rintro ⟨text, rest, rfl, rfl, hpiece⟩
        cases hpiece with
        | plain hc _ => exact absurd rfl hc
        | escape hescape =>
            obtain ⟨letter, more, rfl⟩ := List.exists_cons_of_ne_nil (hscans.ne_nil hescape)
            have htoken := (hscans.exact letter _ ⟨value, more.length⟩).mpr
              ⟨more, rest, rfl, rfl, hescape⟩
            exact Outcome.map_eq_ok_iff.mpr ⟨_, htoken, rfl⟩
    · constructor
      · intro hread
        split at hread
        next => cases hread
        next hhash =>
          simp only [bne_iff_ne, ne_eq, hc, not_false_eq_true, if_true] at hread
          cases hread
          refine ⟨[], input, rfl, rfl, .plain hc ?_⟩
          rintro rfl
          simpa [opensInterpolation_iff] using hhash
      · rintro ⟨text, rest, rfl, rfl, hpiece⟩
        cases hpiece with
        | plain _ hhash =>
            have hopen : ¬ (c == '#' && Token.opensInterpolation rest) = true := by
              rw [Bool.and_eq_true, beq_iff_eq, opensInterpolation_iff]
              rintro ⟨hsame, next, hnext, hopens⟩
              exact hhash hsame next hnext hopens
            rw [List.nil_append, if_neg hopen, if_pos (by simpa using hc)]
            rfl
        | escape _ => exact absurd rfl hc
  ne_nil hpiece := by
    cases hpiece <;> simp

theorem Scans.readTokens_append
    {read : Char → List Char → Except DecodeError Token} {lexeme : Lexeme}
    (hscans : Scans read lexeme) {text rest value : List Char}
    (htext : Sequence lexeme text rest value) :
    readTokens read (text ++ rest) = (value ++ ·) <$> readTokens read rest := by
  induction htext with
  | nil => simp
  | @cons text more rest value values hfirst _ ih =>
      obtain ⟨c, chars, rfl⟩ := List.exists_cons_of_ne_nil (hscans.ne_nil hfirst)
      have htoken := (hscans.exact c _ ⟨value, chars.length⟩).mpr ⟨chars, _, rfl, rfl, hfirst⟩
      rw [List.append_assoc, List.cons_append, readTokens, htoken]
      simp only [List.drop_left, ih]
      cases readTokens read rest with
      | error e => rfl
      | ok found => simp [Except.map]

theorem Scans.readTokens_eq_ok_iff
    {read : Char → List Char → Except DecodeError Token} {lexeme : Lexeme}
    (hscans : Scans read lexeme) {body value : List Char} :
    readTokens read body = .ok value ↔ Sequence lexeme body [] value := by
  constructor
  · intro hread
    induction body using readTokens.induct read generalizing value with
    | case1 =>
        rw [readTokens] at hread
        cases hread
        exact .nil
    | case2 c rest e herror => simp [readTokens, herror] at hread
    | case3 c rest token htoken ih =>
        rw [readTokens, htoken] at hread
        obtain ⟨values, hvalues, rfl⟩ := Outcome.map_eq_ok_iff.mp hread
        obtain ⟨text, more, rfl, hwidth, hfirst⟩ := (hscans.exact c rest token).mp htoken
        rw [← hwidth, List.drop_left] at ih hvalues
        rw [← List.append_nil more] at hfirst
        exact .cons hfirst (ih hvalues)
  · intro hbody
    have happend := hscans.readTokens_append hbody
    rw [List.append_nil] at happend
    rw [happend, readTokens]
    simp

theorem Piece.mono
    {escapes escapes' : Lexeme}
    (hescapes : ∀ text rest value, escapes text rest value → escapes' text rest value)
    {text rest value : List Char} (hpiece : Piece escapes text rest value) :
    Piece escapes' text rest value := by
  cases hpiece with
  | plain hc hhash => exact .plain hc hhash
  | escape hescape => exact .escape (hescapes _ _ _ hescape)

theorem Sequence.mono
    {lexeme lexeme' : Lexeme}
    (hlexeme : ∀ text rest value, lexeme text rest value → lexeme' text rest value)
    {text rest value : List Char} (hsequence : Sequence lexeme text rest value) :
    Sequence lexeme' text rest value := by
  induction hsequence with
  | nil => exact .nil
  | cons hfirst _ ih => exact .cons (hlexeme _ _ _ hfirst) ih

theorem map_ofList_eq_ok_iff {chars : Except DecodeError (List Char)} {value : String} :
    chars.map String.ofList = .ok value ↔ chars = .ok value.toList := by
  refine Outcome.map_eq_ok_iff.trans ?_
  constructor
  · rintro ⟨found, hfound, rfl⟩
    rw [hfound, String.toList_ofList]
  · intro hchars
    exact ⟨_, hchars, String.ofList_toList⟩

end RubyLint.Grammar
