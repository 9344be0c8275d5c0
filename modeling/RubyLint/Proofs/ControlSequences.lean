import RubyLint.Text.ControlSequence
import Mathlib.Tactic

/-!
# Texts without escape characters

Every control sequence starts with an escape character.  So a text loses nothing before its first
escape character, and a text that holds none is written as it is.
-/

namespace RubyLint.Text

theorem dropControlSequences_cons {c : Char} (hc : c ≠ '\x1b') (rest : List Char) :
    dropControlSequences (c :: rest) = c :: dropControlSequences rest := by
  have hnone : afterControlSequence? (c :: rest) = none := by
    unfold afterControlSequence?
    split
    next heq => simp_all
    next => rfl
  rw [dropControlSequences]
  split
  next rest' hrest' => simp [hnone] at hrest'
  next => rfl

theorem dropControlSequences_append {text : List Char} (htext : '\x1b' ∉ text)
    (rest : List Char) :
    dropControlSequences (text ++ rest) = text ++ dropControlSequences rest := by
  induction text with
  | nil => rfl
  | cons c text ih =>
      simp only [List.mem_cons, not_or] at htext
      rw [List.cons_append, dropControlSequences_cons (Ne.symm htext.1), ih htext.2,
        List.cons_append]

/-- A text is written as it is up to its first escape character. -/
theorem withoutControlSequences_append {text : String} (htext : '\x1b' ∉ text.toList)
    (rest : String) :
    withoutControlSequences (text ++ rest) = text ++ withoutControlSequences rest := by
  unfold withoutControlSequences
  rw [String.toList_append, dropControlSequences_append htext, String.ofList_append,
    String.ofList_toList]

theorem withoutControlSequences_eq_self {text : String} (htext : '\x1b' ∉ text.toList) :
    withoutControlSequences text = text := by
  have hempty : withoutControlSequences "" = "" := by decide +kernel
  have happend := withoutControlSequences_append htext ""
  rwa [hempty, String.append_empty] at happend

end RubyLint.Text
