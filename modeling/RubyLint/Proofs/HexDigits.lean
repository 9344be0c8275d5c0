import RubyLint.Text.Blank
import RubyLint.Text.Hex
import Mathlib.Data.List.TakeWhile
import Mathlib.Tactic

/-!
# Hexadecimal digits read back

Writing a number puts the least significant digit last and reading folds from the first digit on.
Each step of the writer is therefore one step of the reader, and the number comes back by
induction on the quotient.  Leading zeros do not change it.
-/

namespace RubyLint.Text

theorem digitValue_upperHexDigit {n : Nat} (hn : n < 16) :
    digitValue (upperHexDigit n) = n := by
  have hall : ∀ m < 16, digitValue (upperHexDigit m) = m := by decide
  exact hall n hn

theorem isHexDigit_upperHexDigit {n : Nat} (hn : n < 16) :
    isHexDigit (upperHexDigit n) = true := by
  have hall : ∀ m < 16, isHexDigit (upperHexDigit m) = true := by decide
  exact hall n hn

theorem ofDigits_concat (base : Nat) (digits : List Char) (digit : Char) :
    ofDigits base (digits ++ [digit]) =
      ofDigits base digits * base + digitValue digit := by
  simp [ofDigits]

theorem ofDigits_upperHex (n : Nat) : ofDigits 16 (upperHex n) = n := by
  induction n using upperHex.induct with
  | case1 n hn =>
      rw [upperHex, if_pos hn]
      simp [ofDigits, digitValue_upperHexDigit hn]
  | case2 n hn ih =>
      have hdigit : n % 16 < 16 := Nat.mod_lt n (by decide)
      rw [upperHex, if_neg hn, ofDigits_concat, ih,
        digitValue_upperHexDigit hdigit]
      omega

theorem isHexDigit_of_mem_upperHex {n : Nat} {c : Char}
    (hc : c ∈ upperHex n) : isHexDigit c = true := by
  induction n using upperHex.induct with
  | case1 n hn =>
      rw [upperHex, if_pos hn, List.mem_singleton] at hc
      subst hc
      exact isHexDigit_upperHexDigit hn
  | case2 n hn ih =>
      rw [upperHex, if_neg hn, List.mem_append, List.mem_singleton] at hc
      rcases hc with hc | rfl
      · exact ih hc
      · exact isHexDigit_upperHexDigit (Nat.mod_lt n (by decide))

theorem upperHex_ne_nil (n : Nat) : upperHex n ≠ [] := by
  rw [upperHex]
  split <;> simp

theorem length_upperHex_le {n k : Nat} (hn : n < 16 ^ (k + 1)) :
    (upperHex n).length ≤ k + 1 := by
  induction k generalizing n with
  | zero =>
      rw [upperHex, if_pos (by simpa using hn)]
      simp
  | succ k ih =>
      rw [upperHex]
      split
      next => simp
      next =>
        have hquotient : n / 16 < 16 ^ (k + 1) := by
          rw [Nat.div_lt_iff_lt_mul (by decide)]
          rwa [Nat.pow_succ] at hn
        have hlength := ih hquotient
        simp only [List.length_append, List.length_singleton]
        omega

theorem ofDigits_replicate_zero_append (base k : Nat) (digits : List Char) :
    ofDigits base (List.replicate k '0' ++ digits) = ofDigits base digits := by
  induction k with
  | zero => simp
  | succ k ih =>
      have hzero : digitValue '0' = 0 := by decide
      rw [List.replicate_succ, List.cons_append, ← ih]
      simp [ofDigits, hzero]

theorem ofDigits_upperHexPadded (width n : Nat) :
    ofDigits 16 (upperHexPadded width n) = n := by
  unfold upperHexPadded
  rw [ofDigits_replicate_zero_append, ofDigits_upperHex]

theorem length_upperHexPadded {width n : Nat} (hn : n < 16 ^ (width + 1)) :
    (upperHexPadded (width + 1) n).length = width + 1 := by
  have hlength := length_upperHex_le hn
  simp only [upperHexPadded, List.length_append, List.length_replicate]
  omega

theorem isHexDigit_of_mem_upperHexPadded {width n : Nat} {c : Char}
    (hc : c ∈ upperHexPadded width n) : isHexDigit c = true := by
  simp only [upperHexPadded, List.mem_append, List.mem_replicate] at hc
  rcases hc with ⟨-, rfl⟩ | hc
  · decide
  · exact isHexDigit_of_mem_upperHex hc

theorem ne_of_isHexDigit {c other : Char} (hc : isHexDigit c = true)
    (hother : isHexDigit other = false) : c ≠ other := by
  rintro rfl
  rw [hc] at hother
  contradiction

/-- No digit separates words, so the digits between two braces are one word. -/
theorem isBlank_of_isHexDigit {c : Char} (hc : isHexDigit c = true) :
    isBlank c = false := by
  have hrange : 48 ≤ c.toNat ∧ c.toNat ≤ 102 := by
    simp only [isHexDigit, Bool.or_eq_true, Bool.and_eq_true, decide_eq_true_eq,
      Char.le_def, UInt32.le_iff_toNat_le] at hc
    change (48 ≤ c.toNat ∧ c.toNat ≤ 57 ∨ 97 ≤ c.toNat ∧ c.toNat ≤ 102) ∨
      65 ≤ c.toNat ∧ c.toNat ≤ 70 at hc
    omega
  have hnone : ¬ isBlank c = true := by
    intro hblank
    obtain ⟨range, hmem, hlow, hhigh⟩ := (inRanges_iff _ _).mp hblank
    -- every range of blanks ends below the digit zero or starts above the letters
    have hapart : ∀ r ∈ blankRanges, r.2 < 48 ∨ 102 < r.1 := by decide
    have := hapart range hmem
    omega
  simpa using hnone

theorem words_of_forall_not_blank {text : List Char} (hne : text ≠ [])
    (htext : ∀ c ∈ text, isBlank c = false) : words text = [text] := by
  cases text with
  | nil => contradiction
  | cons first rest =>
      have hfirst : isBlank first = false := htext first (by simp)
      have hrest : ∀ c ∈ rest, (!isBlank c) = true := by
        intro c hc
        simp [htext c (by simp [hc])]
      have htake : rest.takeWhile (!isBlank ·) = rest :=
        List.takeWhile_eq_self_iff.mpr hrest
      have hdrop : rest.dropWhile (!isBlank ·) = [] :=
        List.dropWhile_eq_nil_iff.mpr hrest
      rw [words, if_neg (by simp [hfirst]), htake, hdrop, words]

end RubyLint.Text
