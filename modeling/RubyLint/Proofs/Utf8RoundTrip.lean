import RubyLint.Text.Slice
import Mathlib.Tactic

/-!
# Texts and their bytes

Decoding the bytes of a text gives the text back: the first byte of a character selects the branch
that its number of bytes belongs to, and each further byte adds its six bits.  Nothing else decodes
to the text, since overlong forms and surrogates are kept out by the second byte.  A boundary of a
text is an offset between two of its characters.  What lies between two boundaries is again the
bytes of a text, so it decodes.
-/

namespace RubyLint.Text

@[simp] theorem encode_nil : encode [] = [] := rfl

@[simp] theorem encode_cons (c : Char) (text : List Char) :
    encode (c :: text) = String.utf8EncodeChar c ++ encode text := rfl

@[simp] theorem encode_append (left right : List Char) :
    encode (left ++ right) = encode left ++ encode right :=
  List.flatMap_append

/-! ## One character -/

theorem toNat_ofNat_of_lt {n : Nat} (hn : n < 256) : (UInt8.ofNat n).toNat = n := by
  simpa using hn

/-- A byte that goes on with a character adds its lower six bits. -/
theorem continueChar_tail {n more value owed low high : Nat} (rest : List UInt8)
    (hlow : low ≤ n % 64 + 128) (hhigh : n % 64 + 128 ≤ high) :
    continueChar more value (owed + 1) low high (UInt8.ofNat (n % 64 + 128) :: rest) =
      continueChar (more + 1) (value * 64 + n % 64) owed 0x80 0xBF rest := by
  have hbyte : (UInt8.ofNat (n % 64 + 128)).toNat = n % 64 + 128 :=
    toNat_ofNat_of_lt (by omega)
  have hbits : (n % 64 + 128) % 64 = n % 64 := by omega
  rw [continueChar, hbyte, if_pos ⟨hlow, hhigh⟩, hbits]

theorem pieceAt_one {v : Nat} (hv : v ≤ 0x7f) (rest : List UInt8) :
    pieceAt (UInt8.ofNat v) rest = .char (Char.ofNat v) 0 := by
  have hbyte : (UInt8.ofNat v).toNat = v := toNat_ofNat_of_lt (by omega)
  simp only [pieceAt, hbyte]
  rw [if_pos (by omega)]

theorem pieceAt_two {v : Nat} (hlow : 0x7f < v) (hhigh : v ≤ 0x7ff) (rest : List UInt8) :
    pieceAt (UInt8.ofNat (v / 64 % 32 + 192)) (UInt8.ofNat (v % 64 + 128) :: rest) =
      .char (Char.ofNat v) 1 := by
  have hbyte : (UInt8.ofNat (v / 64 % 32 + 192)).toNat = v / 64 + 192 := by
    rw [toNat_ofNat_of_lt (by omega)]
    omega
  have hvalue : (v / 64 + 192) % 32 * 64 + v % 64 = v := by omega
  simp only [pieceAt, hbyte]
  rw [if_neg (by omega), if_neg (by omega), if_pos (by omega),
    continueChar_tail rest (by omega) (by omega), hvalue, continueChar]

theorem pieceAt_three {v : Nat} (hlow : 0x7ff < v) (hhigh : v ≤ 0xffff)
    (hscalar : v < 0xd800 ∨ 0xdfff < v) (rest : List UInt8) :
    pieceAt (UInt8.ofNat (v / 4096 % 16 + 224))
        (UInt8.ofNat (v / 64 % 64 + 128) :: UInt8.ofNat (v % 64 + 128) :: rest) =
      .char (Char.ofNat v) 2 := by
  have hbyte : (UInt8.ofNat (v / 4096 % 16 + 224)).toNat = v / 4096 + 224 := by
    rw [toNat_ofNat_of_lt (by omega)]
    omega
  -- the first byte fixes the branch, and with it the range of the second byte
  have hsecond : ∀ {value low high : Nat}, value = v / 4096 →
      low ≤ v / 64 % 64 + 128 → v / 64 % 64 + 128 ≤ high →
      continueChar 0 value 2 low high
          (UInt8.ofNat (v / 64 % 64 + 128) :: UInt8.ofNat (v % 64 + 128) :: rest) =
        .char (Char.ofNat v) 2 := by
    intro value low high hvalue hsecondLow hsecondHigh
    have hsum : (v / 4096 * 64 + v / 64 % 64) * 64 + v % 64 = v := by omega
    rw [continueChar_tail _ hsecondLow hsecondHigh,
      continueChar_tail rest (by omega) (by omega), hvalue, hsum, continueChar]
  simp only [pieceAt, hbyte]
  rw [if_neg (by omega), if_neg (by omega), if_neg (by omega)]
  split
  next => exact hsecond (by omega) (by omega) (by omega)
  next =>
    split
    next => exact hsecond (by omega) (by omega) (by omega)
    next =>
      rw [if_pos (by omega)]
      exact hsecond (by omega) (by omega) (by omega)

theorem pieceAt_four {v : Nat} (hlow : 0xffff < v) (hhigh : v < 0x110000)
    (rest : List UInt8) :
    pieceAt (UInt8.ofNat (v / 262144 % 8 + 240))
        (UInt8.ofNat (v / 4096 % 64 + 128) :: UInt8.ofNat (v / 64 % 64 + 128) ::
          UInt8.ofNat (v % 64 + 128) :: rest) =
      .char (Char.ofNat v) 3 := by
  have hbyte : (UInt8.ofNat (v / 262144 % 8 + 240)).toNat = v / 262144 + 240 := by
    rw [toNat_ofNat_of_lt (by omega)]
    omega
  have hsecond : ∀ {value low high : Nat}, value = v / 262144 →
      low ≤ v / 4096 % 64 + 128 → v / 4096 % 64 + 128 ≤ high →
      continueChar 0 value 3 low high
          (UInt8.ofNat (v / 4096 % 64 + 128) :: UInt8.ofNat (v / 64 % 64 + 128) ::
            UInt8.ofNat (v % 64 + 128) :: rest) =
        .char (Char.ofNat v) 3 := by
    intro value low high hvalue hsecondLow hsecondHigh
    have hsum :
        ((v / 262144 * 64 + v / 4096 % 64) * 64 + v / 64 % 64) * 64 + v % 64 = v := by
      omega
    rw [continueChar_tail _ hsecondLow hsecondHigh,
      continueChar_tail _ (by omega) (by omega),
      continueChar_tail rest (by omega) (by omega), hvalue, hsum, continueChar]
  simp only [pieceAt, hbyte]
  rw [if_neg (by omega), if_neg (by omega), if_neg (by omega), if_neg (by omega),
    if_neg (by omega), if_neg (by omega)]
  split
  next => exact hsecond (by omega) (by omega) (by omega)
  next =>
    split
    next => exact hsecond (by omega) (by omega) (by omega)
    next =>
      rw [if_pos (by omega)]
      exact hsecond (by omega) (by omega) (by omega)

/-- The bytes of a character are the piece that its first byte starts. -/
theorem pieceAt_utf8EncodeChar (c : Char) (rest : List UInt8) :
    ∃ first more, String.utf8EncodeChar c = first :: more ∧
      pieceAt first (more ++ rest) = .char c more.length := by
  have hvalid : c.toNat.isValidChar := c.valid
  unfold Nat.isValidChar at hvalid
  have hback : Char.ofNat c.val.toNat = c := Char.ofNat_toNat c
  change c.val.toNat < 0xd800 ∨ 0xdfff < c.val.toNat ∧ c.val.toNat < 0x110000 at hvalid
  unfold String.utf8EncodeChar
  simp only
  split
  next hone =>
    have hpiece := pieceAt_one hone rest
    rw [hback] at hpiece
    exact ⟨_, _, rfl, hpiece⟩
  next =>
    split
    next htwo =>
      have hpiece := pieceAt_two (by omega) htwo rest
      rw [hback] at hpiece
      exact ⟨_, _, rfl, hpiece⟩
    next =>
      split
      next hthree =>
        have hpiece := pieceAt_three (by omega) hthree (by omega) rest
        rw [hback] at hpiece
        exact ⟨_, _, rfl, hpiece⟩
      next =>
        have hpiece := pieceAt_four (v := c.val.toNat) (by omega) (by omega) rest
        rw [hback] at hpiece
        exact ⟨_, _, rfl, hpiece⟩

/-! ## Whole texts -/

theorem decodeFrom_encode (offset : Nat) (text : List Char) :
    decodeFrom offset (encode text) = .ok text := by
  induction text generalizing offset with
  | nil => simp [decodeFrom]
  | cons c text ih =>
      obtain ⟨first, more, hbytes, hpiece⟩ := pieceAt_utf8EncodeChar c (encode text)
      rw [encode_cons, hbytes, List.cons_append, decodeFrom, hpiece]
      simp only [List.drop_left, ih]
      rfl

theorem decode_encode (text : List Char) :
    decode (encode text) = .ok (String.ofList text) := by
  simp [decode, decodeFrom_encode, Except.map]

theorem decode_bytes (text : String) : decode (bytes text) = .ok text := by
  rw [bytes, decode_encode, String.ofList_toList]

/-! ## What decodes is the bytes of its text -/

section Sound

theorem toNat_val_ofNat {v : Nat} (hv : v.isValidChar) : (Char.ofNat v).val.toNat = v := by
  rw [Char.ofNat, dif_pos hv]
  rfl

theorem exists_of_continueChar
    {more value owed low high count : Nat} {data : List UInt8} {c : Char}
    (hpiece : continueChar more value (owed + 1) low high data = .char c count) :
    ∃ byte rest, data = byte :: rest ∧ low ≤ byte.toNat ∧ byte.toNat ≤ high ∧
      continueChar (more + 1) (value * 64 + byte.toNat % 64) owed 0x80 0xBF rest =
        .char c count := by
  cases data with
  | nil => simp [continueChar] at hpiece
  | cons byte rest =>
      rw [continueChar] at hpiece
      split at hpiece
      next hrange => exact ⟨byte, rest, rfl, hrange.1, hrange.2, hpiece⟩
      next => simp at hpiece

variable {first : UInt8} {rest : List UInt8} {c : Char} {lead low high more : Nat}

theorem eq_of_continueChar_one
    (hfirst : first.toNat = lead + 0xC0) (hlead : 2 ≤ lead) (hlead' : lead < 32)
    (hpiece : continueChar 0 lead 1 0x80 0xBF rest = .char c more) :
    first :: rest = String.utf8EncodeChar c ++ rest.drop more := by
  obtain ⟨second, rest, rfl, hlow, hhigh, hpiece⟩ := exists_of_continueChar hpiece
  cases hpiece
  have hvalue := @toNat_val_ofNat (lead * 64 + second.toNat % 64)
    (by unfold Nat.isValidChar; omega)
  have hbytes : String.utf8EncodeChar (Char.ofNat (lead * 64 + second.toNat % 64)) =
      [first, second] := by
    unfold String.utf8EncodeChar
    simp only [hvalue]
    rw [if_neg (by omega), if_pos (by omega)]
    simp only [List.cons.injEq, and_true, ← UInt8.toNat_inj]
    rw [toNat_ofNat_of_lt (by omega), toNat_ofNat_of_lt (by omega)]
    omega
  rw [hbytes]
  rfl

theorem eq_of_continueChar_two
    (hfirst : first.toNat = lead + 0xE0) (hlead : lead < 16)
    (hsecond : ∀ n, low ≤ n → n ≤ high → 0x80 ≤ n ∧ n ≤ 0xBF ∧ 0x20 ≤ lead * 64 + n % 64 ∧
      (lead * 64 + n % 64 < 0x360 ∨ 0x380 ≤ lead * 64 + n % 64))
    (hpiece : continueChar 0 lead 2 low high rest = .char c more) :
    first :: rest = String.utf8EncodeChar c ++ rest.drop more := by
  obtain ⟨second, rest, rfl, hlow, hhigh, hpiece⟩ := exists_of_continueChar hpiece
  obtain ⟨third, rest, rfl, hlow', hhigh', hpiece⟩ := exists_of_continueChar hpiece
  cases hpiece
  have hrange := hsecond second.toNat hlow hhigh
  have hvalue := @toNat_val_ofNat ((lead * 64 + second.toNat % 64) * 64 + third.toNat % 64)
    (by unfold Nat.isValidChar; omega)
  have hbytes : String.utf8EncodeChar
      (Char.ofNat ((lead * 64 + second.toNat % 64) * 64 + third.toNat % 64)) =
        [first, second, third] := by
    unfold String.utf8EncodeChar
    simp only [hvalue]
    rw [if_neg (by omega), if_neg (by omega), if_pos (by omega)]
    simp only [List.cons.injEq, and_true, ← UInt8.toNat_inj]
    rw [toNat_ofNat_of_lt (by omega), toNat_ofNat_of_lt (by omega), toNat_ofNat_of_lt (by omega)]
    omega
  rw [hbytes]
  rfl

theorem eq_of_continueChar_three
    (hfirst : first.toNat = lead + 0xF0)
    (hsecond : ∀ n, low ≤ n → n ≤ high → 0x80 ≤ n ∧ n ≤ 0xBF ∧ 0x10 ≤ lead * 64 + n % 64 ∧
      lead * 64 + n % 64 < 0x110)
    (hpiece : continueChar 0 lead 3 low high rest = .char c more) :
    first :: rest = String.utf8EncodeChar c ++ rest.drop more := by
  obtain ⟨second, rest, rfl, hlow, hhigh, hpiece⟩ := exists_of_continueChar hpiece
  obtain ⟨third, rest, rfl, hlow', hhigh', hpiece⟩ := exists_of_continueChar hpiece
  obtain ⟨fourth, rest, rfl, hlow'', hhigh'', hpiece⟩ := exists_of_continueChar hpiece
  cases hpiece
  have hrange := hsecond second.toNat hlow hhigh
  have hvalue := @toNat_val_ofNat
    (((lead * 64 + second.toNat % 64) * 64 + third.toNat % 64) * 64 + fourth.toNat % 64)
    (by unfold Nat.isValidChar; omega)
  have hbytes : String.utf8EncodeChar (Char.ofNat
      (((lead * 64 + second.toNat % 64) * 64 + third.toNat % 64) * 64 + fourth.toNat % 64)) =
        [first, second, third, fourth] := by
    unfold String.utf8EncodeChar
    simp only [hvalue]
    rw [if_neg (by omega), if_neg (by omega), if_neg (by omega)]
    simp only [List.cons.injEq, and_true, ← UInt8.toNat_inj]
    rw [toNat_ofNat_of_lt (by omega), toNat_ofNat_of_lt (by omega), toNat_ofNat_of_lt (by omega),
      toNat_ofNat_of_lt (by omega)]
    omega
  rw [hbytes]
  rfl

/-- A piece that is a character consists of the bytes of that character. -/
theorem eq_of_pieceAt (hpiece : pieceAt first rest = .char c more) :
    first :: rest = String.utf8EncodeChar c ++ rest.drop more := by
  have hbyte : first.toNat < 256 := first.toNat_lt
  simp only [pieceAt] at hpiece
  split_ifs at hpiece
  · cases hpiece
    have hvalue := @toNat_val_ofNat first.toNat (by unfold Nat.isValidChar; omega)
    unfold String.utf8EncodeChar
    simp only [hvalue]
    rw [if_pos (by omega)]
    simp
  · exact eq_of_continueChar_one (by omega) (by omega) (by omega) hpiece
  · exact eq_of_continueChar_two (by omega) (by omega) (by intros; omega) hpiece
  · exact eq_of_continueChar_two (by omega) (by omega) (by intros; omega) hpiece
  · exact eq_of_continueChar_two (by omega) (by omega) (by intros; omega) hpiece
  · exact eq_of_continueChar_three (by omega) (by intros; omega) hpiece
  · exact eq_of_continueChar_three (by omega) (by intros; omega) hpiece
  · exact eq_of_continueChar_three (by omega) (by intros; omega) hpiece

theorem encode_of_decodeFrom {offset : Nat} {data : List UInt8} {text : List Char}
    (hdecode : decodeFrom offset data = .ok text) : encode text = data := by
  fun_induction decodeFrom offset data generalizing text with
  | case1 =>
      cases hdecode
      rfl
  | case2 offset first rest c more hpiece ih =>
      cases htail : decodeFrom (offset + 1 + more) (rest.drop more) with
      | error e => simp [htail, Except.map] at hdecode
      | ok tail =>
          simp only [htail, Except.map, Except.ok.injEq] at hdecode
          subst hdecode
          rw [encode_cons, ih htail, eq_of_pieceAt hpiece]
  | case3 => cases hdecode

theorem decode_eq_ok_iff {data : List UInt8} {text : String} :
    decode data = .ok text ↔ data = bytes text := by
  constructor
  · intro hdecode
    unfold decode at hdecode
    cases hchars : decodeFrom 0 data with
    | error e => simp [hchars, Except.map] at hdecode
    | ok chars =>
        simp only [hchars, Except.map, Except.ok.injEq] at hdecode
        subst hdecode
        rw [bytes, String.toList_ofList, encode_of_decodeFrom hchars]
  · rintro rfl
    exact decode_bytes text

end Sound

/-! ## Pieces of texts -/

/-- `data` is the bytes of some text. -/
def IsText (data : List UInt8) : Prop := ∃ text, data = encode text

theorem isText_bytes (text : String) : IsText (bytes text) := ⟨text.toList, rfl⟩

theorem IsText.append {left right : List UInt8} (hleft : IsText left) (hright : IsText right) :
    IsText (left ++ right) := by
  obtain ⟨leftText, rfl⟩ := hleft
  obtain ⟨rightText, rfl⟩ := hright
  exact ⟨leftText ++ rightText, (encode_append leftText rightText).symm⟩

theorem IsText.decode {data : List UInt8} (hdata : IsText data) :
    ∃ text, Text.decode data = .ok text ∧ bytes text = data := by
  obtain ⟨text, rfl⟩ := hdata
  exact ⟨String.ofList text, decode_encode text, by simp [bytes]⟩

/-! ## Boundaries -/

/-- `offset` lies between two characters of `text` or at one of its ends. -/
def Boundary (text : String) (offset : Nat) : Prop :=
  ∃ before after, text.toList = before ++ after ∧ (encode before).length = offset

theorem Boundary.le_length {text : String} {offset : Nat} (hoffset : Boundary text offset) :
    offset ≤ (bytes text).length := by
  obtain ⟨before, after, htext, rfl⟩ := hoffset
  simp [bytes, htext]

theorem boundary_iff_take {text : String} {offset : Nat} :
    Boundary text offset ↔
      ∃ count ∈ List.range (text.toList.length + 1),
        (encode (text.toList.take count)).length = offset := by
  constructor
  · rintro ⟨before, after, htext, hoffset⟩
    refine ⟨before.length, ?_, ?_⟩
    · simp only [List.mem_range, htext, List.length_append]
      omega
    · rw [htext, List.take_left, hoffset]
  · rintro ⟨count, -, hoffset⟩
    exact ⟨_, _, (List.take_append_drop count text.toList).symm, hoffset⟩

instance (text : String) (offset : Nat) : Decidable (Boundary text offset) :=
  decidable_of_iff _ boundary_iff_take.symm

theorem slice_natCast {α : Type} (sequence : List α) (start stop : Nat) :
    slice sequence (start : Int) (stop : Int) = (sequence.take stop).drop start := by
  have hclamp : ∀ offset : Nat,
      clampOffset sequence.length (offset : Int) = min offset sequence.length := by
    intro offset
    rw [clampOffset, if_neg (by omega), Int.toNat_natCast]
  rw [slice, hclamp, hclamp]
  by_cases hstart : start ≤ sequence.length
  · rw [Nat.min_eq_left hstart, ← List.take_eq_take_min]
  · have hshort : ∀ count, (sequence.take count).length ≤ sequence.length := by simp
    rw [List.drop_eq_nil_of_le, List.drop_eq_nil_of_le]
    · exact (hshort stop).trans (by omega)
    · exact (hshort _).trans (by omega)

theorem sliceFrom_natCast {α : Type} (sequence : List α) {start : Nat}
    (hstart : start ≤ sequence.length) :
    sliceFrom sequence (start : Int) = sequence.drop start := by
  rw [sliceFrom, clampOffset, if_neg (by omega), Int.toNat_natCast, Nat.min_eq_left hstart]

/-- Between two boundaries stand the bytes of a text; if they are reversed it is empty. -/
theorem Boundary.isText_slice {text : String} {start stop : Nat}
    (hstart : Boundary text start) (hstop : Boundary text stop) :
    IsText (slice (bytes text) (start : Int) (stop : Int)) := by
  obtain ⟨before, after, htext, rfl⟩ := hstart
  obtain ⟨before', after', htext', rfl⟩ := hstop
  rw [slice_natCast, bytes, htext', encode_append, List.take_left]
  rw [htext] at htext'
  rcases List.append_eq_append_iff.mp htext' with ⟨middle, rfl, -⟩ | ⟨middle, rfl, -⟩
  · exact ⟨middle, by rw [encode_append, List.drop_left]⟩
  · exact ⟨[], by simp⟩

theorem Boundary.isText_sliceFrom {text : String} {start : Nat}
    (hstart : Boundary text start) : IsText (sliceFrom (bytes text) (start : Int)) := by
  rw [sliceFrom_natCast _ hstart.le_length]
  obtain ⟨before, after, htext, rfl⟩ := hstart
  exact ⟨after, by rw [bytes, htext, encode_append, List.drop_left]⟩

end RubyLint.Text
