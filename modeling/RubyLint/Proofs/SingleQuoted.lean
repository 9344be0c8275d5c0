import RubyLint.Literal.Decode
import RubyLint.Proofs.EscapeGrammar
import Mathlib.Tactic

/-!
# Single-quoted strings

A single-quoted body is cut from the left into pairs of a backslash and what it escapes, which is a
backslash or a delimiter, and into single characters.  A backslash stands alone only where nothing
follows that it could escape.  Every body can be cut in this way, and the value drops the backslash
of each pair.

Two things follow.  Escaping a text and reading it gives the text back.  And of a run of backslashes
half remain; if their number is odd, the last one belongs to the delimiter after it or, where there
is none, remains too.
-/

namespace RubyLint

open Text

/-- Delimiters of one character each. -/
def Delimiters.ofChars (opening closing : Char) : Delimiters :=
  ⟨opening.toString, closing.toString⟩

theorem Delimiters.contains_ofChars {opening closing c : Char} :
    (ofChars opening closing).contains c = true ↔ c = opening ∨ c = closing := by
  have hsame : ∀ d : Char, (d.toString == c.toString) = true ↔ c = d := by
    intro d
    rw [beq_iff_eq, String.ext_iff, Char.toString, Char.toString, String.toList_singleton,
      String.toList_singleton, List.cons.injEq]
    simp [eq_comm]
  rw [contains, Bool.or_eq_true]
  exact or_congr (hsame opening) (hsame closing)

namespace Grammar

/-- What a backslash escapes in a single-quoted body. -/
def escapable (opening closing : Char) : List Char := ['\\', opening, closing]

/-- A piece of a single-quoted body. -/
inductive SinglePiece (opening closing : Char) : Lexeme
  | pair {c : Char} {rest : List Char} (hc : c ∈ escapable opening closing) :
      SinglePiece opening closing ['\\', c] rest [c]
  | char {c : Char} {rest : List Char}
      (hc : c = '\\' → ∀ next ∈ rest.head?, next ∉ escapable opening closing) :
      SinglePiece opening closing [c] rest [c]

/-- Puts a backslash before every backslash and every delimiter. -/
def backslashed (opening closing : Char) (text : List Char) : List Char :=
  text.flatMap fun c => if c ∈ escapable opening closing then ['\\', c] else [c]

/-- How many of `count` backslashes before `after` remain. -/
def keptBackslashes (opening closing : Char) (count : Nat) (after : List Char) : Nat :=
  if after.head? = some opening ∨ after.head? = some closing then count / 2 else (count + 1) / 2

variable {opening closing : Char}

theorem escapes_iff {c next : Char} :
    (c == '\\' && (next == '\\' || (Delimiters.ofChars opening closing).contains next)) = true ↔
      c = '\\' ∧ next ∈ escapable opening closing := by
  simp [escapable, Delimiters.contains_ofChars]

theorem decodeSingle_pair {c : Char} (hc : c ∈ escapable opening closing) (rest : List Char) :
    decodeSingle (.ofChars opening closing) ('\\' :: c :: rest) =
      c :: decodeSingle (.ofChars opening closing) rest := by
  rw [decodeSingle, if_pos (escapes_iff.mpr ⟨rfl, hc⟩)]

theorem decodeSingle_char {c : Char} {rest : List Char}
    (hc : c = '\\' → ∀ next ∈ rest.head?, next ∉ escapable opening closing) :
    decodeSingle (.ofChars opening closing) (c :: rest) =
      c :: decodeSingle (.ofChars opening closing) rest := by
  cases rest with
  | nil => rfl
  | cons next rest =>
      rw [decodeSingle, if_neg]
      rw [escapes_iff]
      rintro ⟨hbackslash, hnext⟩
      exact hc hbackslash next rfl hnext

theorem SinglePiece.sequence_pair {c : Char} {more rest values : List Char}
    (hc : c ∈ escapable opening closing)
    (hmore : Sequence (SinglePiece opening closing) more rest values) :
    Sequence (SinglePiece opening closing) ('\\' :: c :: more) rest (c :: values) :=
  .cons (SinglePiece.pair hc) hmore

theorem SinglePiece.sequence_char {c : Char} {more rest values : List Char}
    (hc : c = '\\' → ∀ next ∈ (more ++ rest).head?, next ∉ escapable opening closing)
    (hmore : Sequence (SinglePiece opening closing) more rest values) :
    Sequence (SinglePiece opening closing) (c :: more) rest (c :: values) :=
  .cons (SinglePiece.char hc) hmore

theorem decodeSingle_append {text rest value : List Char}
    (htext : Sequence (SinglePiece opening closing) text rest value) :
    decodeSingle (.ofChars opening closing) (text ++ rest) =
      value ++ decodeSingle (.ofChars opening closing) rest := by
  induction htext with
  | nil => rfl
  | cons hfirst _ ih =>
      cases hfirst with
      | pair hc => exact (decodeSingle_pair hc _).trans (congrArg (_ :: ·) ih)
      | char hc => exact (decodeSingle_char hc).trans (congrArg (_ :: ·) ih)

/-- Every body is a sequence of pieces. -/
theorem sequence_decodeSingle (body : List Char) :
    Sequence (SinglePiece opening closing) body []
      (decodeSingle (.ofChars opening closing) body) := by
  fun_induction decodeSingle (.ofChars opening closing) body with
  | case1 => exact .nil
  | case2 c => exact SinglePiece.sequence_char (by simp) .nil
  | case3 c next rest hescapes ih =>
      obtain ⟨rfl, hnext⟩ := escapes_iff.mp hescapes
      exact SinglePiece.sequence_pair hnext ih
  | case4 c next rest hplain ih =>
      rw [escapes_iff] at hplain
      exact SinglePiece.sequence_char (by simpa using hplain) ih

theorem decodeSingle_eq_iff {body value : List Char} :
    decodeSingle (.ofChars opening closing) body = value ↔
      Sequence (SinglePiece opening closing) body [] value := by
  constructor
  · rintro rfl
    exact sequence_decodeSingle body
  · intro hbody
    simpa [decodeSingle] using decodeSingle_append hbody

theorem sequence_backslashed (text rest : List Char) :
    Sequence (SinglePiece opening closing) (backslashed opening closing text) rest text := by
  induction text with
  | nil => exact .nil
  | cons c text ih =>
      rw [backslashed, List.flatMap_cons]
      split
      next hc => exact SinglePiece.sequence_pair hc ih
      next hc =>
        have hplain : c ≠ '\\' := by
          rintro rfl
          simp [escapable] at hc
        exact SinglePiece.sequence_char (fun hbackslash => absurd hbackslash hplain) ih

/-! ## Runs of backslashes -/

/-- What follows a character other than a backslash is read on its own. -/
theorem decodeSingle_append_of_getLast {before : List Char}
    (hlast : before.getLast? ≠ some '\\') (after : List Char) :
    decodeSingle (.ofChars opening closing) (before ++ after) =
      decodeSingle (.ofChars opening closing) before ++
        decodeSingle (.ofChars opening closing) after := by
  fun_induction decodeSingle (.ofChars opening closing) before with
  | case1 => rfl
  | case2 c =>
      have hc : c ≠ '\\' := by simpa using hlast
      exact decodeSingle_char fun hbackslash => absurd hbackslash hc
  | case3 c next rest hescapes ih =>
      obtain ⟨rfl, hnext⟩ := escapes_iff.mp hescapes
      have hrest : rest.getLast? ≠ some '\\' := by
        cases rest with
        | nil => simp
        | cons d rest => simpa using hlast
      exact (decodeSingle_pair hnext _).trans (congrArg (next :: ·) (ih hrest))
  | case4 c next rest hplain ih =>
      rw [escapes_iff] at hplain
      have hrest : (next :: rest).getLast? ≠ some '\\' := by simpa using hlast
      have hc : c = '\\' → ∀ d ∈ (next :: rest ++ after).head?, d ∉ escapable opening closing := by
        simpa using hplain
      exact (decodeSingle_char hc).trans (congrArg (c :: ·) (ih hrest))

theorem sequence_replicate (count : Nat) (rest : List Char) :
    Sequence (SinglePiece opening closing) (List.replicate (2 * count) '\\') rest
      (List.replicate count '\\') := by
  induction count with
  | zero => exact .nil
  | succ count ih => exact SinglePiece.sequence_pair (by simp [escapable]) ih

theorem decodeSingle_backslashes {after : List Char} (hafter : after.head? ≠ some '\\')
    (count : Nat) :
    decodeSingle (.ofChars opening closing) (List.replicate count '\\' ++ after) =
      List.replicate (keptBackslashes opening closing count after) '\\' ++
        decodeSingle (.ofChars opening closing) after := by
  have hpairs : ∀ half rest,
      decodeSingle (.ofChars opening closing) (List.replicate (2 * half) '\\' ++ rest) =
        List.replicate half '\\' ++ decodeSingle (.ofChars opening closing) rest :=
    fun half rest => decodeSingle_append (sequence_replicate half rest)
  unfold keptBackslashes
  -- an even run is all pairs; of an odd one the last backslash is left over
  obtain ⟨half, rfl | rfl⟩ := count.even_or_odd'
  · rw [hpairs]
    have hhalf : 2 * half / 2 = half ∧ (2 * half + 1) / 2 = half := by omega
    rw [hhalf.1, hhalf.2, ite_self]
  · rw [List.replicate_succ', List.append_assoc, hpairs, List.singleton_append]
    have hhalf : (2 * half + 1) / 2 = half ∧ (2 * half + 1 + 1) / 2 = half + 1 := by omega
    rw [hhalf.1, hhalf.2]
    split
    next hdelimiter =>
      -- the last backslash escapes the delimiter
      cases after with
      | nil => simp at hdelimiter
      | cons c after =>
          have hc : c ∈ escapable opening closing := by
            simpa [escapable] using Or.inr hdelimiter
          have hplain : c ≠ '\\' := by simpa using hafter
          rw [decodeSingle_pair hc, decodeSingle_char fun hbackslash => absurd hbackslash hplain]
    next hother =>
      have hlast : ∀ next ∈ after.head?, next ∉ escapable opening closing := by
        intro next hnext
        rw [Option.mem_def] at hnext
        rw [hnext, ne_eq, Option.some.injEq] at hafter
        rw [hnext, Option.some.injEq, Option.some.injEq] at hother
        simpa [escapable] using And.intro hafter hother
      rw [decodeSingle_char fun _ => hlast, List.replicate_succ', List.append_assoc,
        List.singleton_append]

theorem decodeString_single_eq_ok_iff {body value : String} {delimiters : Delimiters} :
    decodeString body .single delimiters = .ok value ↔
      decodeSingle delimiters body.toList = value.toList := by
  rw [decodeString, Except.ok.injEq, String.ext_iff, String.toList_ofList]

/-- Between delimiters of one character, reading undoes escaping.  Every body has a value, which is
put together from the pieces that the body is a sequence of.  A longest run of backslashes is read
by its parity, and what stands on either side of it is read on its own. -/
theorem decodeString_single_inverts_escaping (opening closing : Char) :
    (∀ text, decodeString (String.ofList (backslashed opening closing text.toList)) .single
      (.ofChars opening closing) = .ok text) ∧
    (∀ body, ∃ value, decodeString body .single (.ofChars opening closing) = .ok value) ∧
    (∀ body value, decodeString body .single (.ofChars opening closing) = .ok value ↔
      Sequence (SinglePiece opening closing) body.toList [] value.toList) ∧
    ∀ before count after left right, before.toList.getLast? ≠ some '\\' →
      after.toList.head? ≠ some '\\' →
      decodeString before .single (.ofChars opening closing) = .ok left →
      decodeString after .single (.ofChars opening closing) = .ok right →
      decodeString (before ++ String.ofList (List.replicate count '\\') ++ after) .single
          (.ofChars opening closing) =
        .ok (left ++ String.ofList
          (List.replicate (keptBackslashes opening closing count after.toList) '\\') ++ right) := by
  simp only [decodeString_single_eq_ok_iff, String.toList_append, String.toList_ofList]
  refine ⟨?_, ?_, ?_, ?_⟩
  · intro text
    exact decodeSingle_eq_iff.mpr (sequence_backslashed text.toList [])
  · intro body
    exact ⟨String.ofList _, String.toList_ofList.symm⟩
  · intro body value
    exact decodeSingle_eq_iff
  · intro before count after left right hbefore hafter hleft hright
    rw [List.append_assoc, decodeSingle_append_of_getLast hbefore,
      decodeSingle_backslashes hafter, hleft, hright, List.append_assoc]

theorem decodeString_single_inverts_escaping_of_three_backslashes :
    decodeString "a\\\\\\)b" .single (.ofChars '(' ')') = .ok "a\\)b" ∧
    decodeString "a\\\\\\" .single (.ofChars '(' ')') = .ok "a\\\\" := by
  have hread := (decodeString_single_inverts_escaping '(' ')').2.2.2
  have hclosing := hread "a" 3 ")b" "a" ")b" (by decide) (by decide) rfl rfl
  have hend := hread "a" 3 "" "a" "" (by decide) (by decide) rfl rfl
  have hbody : "a" ++ String.ofList (List.replicate 3 '\\') ++ ")b" = "a\\\\\\)b" := by decide
  have hbody' : "a" ++ String.ofList (List.replicate 3 '\\') ++ "" = "a\\\\\\" := by decide
  rw [hbody] at hclosing
  rw [hbody'] at hend
  exact ⟨hclosing, hend⟩

end Grammar

end RubyLint
