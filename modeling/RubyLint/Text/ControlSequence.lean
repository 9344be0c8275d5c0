/-!
# Control sequences of terminals

A control sequence starts with an escape character and a bracket, goes on with parameters (digits,
semicolons and question marks) and ends with an ASCII letter.  It is meant for a terminal; what is
written elsewhere goes without it.  An escape character that starts no control sequence is text.
-/

namespace RubyLint.Text

/-- Whether `c` can stand among the parameters of a control sequence. -/
def isParameter (c : Char) : Bool := c == ';' || c == '?' || c.isDigit

/-- What follows the control sequence at the start of a text, if there is one. -/
def afterControlSequence? : List Char → Option (List Char)
  | '\x1b' :: '[' :: rest =>
    match rest.dropWhile isParameter with
    | c :: rest => if c.isAlpha then some rest else none
    | [] => none
  | _ => none

theorem length_lt_of_afterControlSequence? {text rest : List Char}
    (h : afterControlSequence? text = some rest) : rest.length < text.length := by
  unfold afterControlSequence? at h
  split at h
  next parameters =>
    have hle := (List.dropWhile_sublist isParameter (l := parameters)).length_le
    split at h
    next c after hafter =>
      rw [hafter, List.length_cons] at hle
      split at h
      · simp only [Option.some.injEq] at h
        subst h
        simp only [List.length_cons]
        omega
      · simp at h
    next => simp at h
  next => simp at h

def dropControlSequences (text : List Char) : List Char :=
  match h : afterControlSequence? text with
  | some rest =>
    have := length_lt_of_afterControlSequence? h
    dropControlSequences rest
  | none =>
    match text with
    | [] => []
    | c :: rest => c :: dropControlSequences rest
termination_by text.length

def withoutControlSequences (text : String) : String :=
  String.ofList (dropControlSequences text.toList)

end RubyLint.Text
