/-!
# Lines

Reading a text file turns every line ending into a line feed (`unifyNewlines`).  A diff compares
texts line by line, and its lines also end at the vertical tab, the form feed, the information
separators, the next-line control and the two Unicode separators; each line keeps its own ending
(`splitLines`), so joining the lines gives the text back.
-/

namespace RubyLint.Text

def unifyNewlineChars : List Char → List Char
  | '\r' :: '\n' :: rest => '\n' :: unifyNewlineChars rest
  | '\r' :: rest => '\n' :: unifyNewlineChars rest
  | c :: rest => c :: unifyNewlineChars rest
  | [] => []

/-- Turns carriage returns, alone or before a line feed, into line feeds. -/
def unifyNewlines (text : String) : String :=
  String.ofList (unifyNewlineChars text.toList)

/-- Whether a line ends after `c`. -/
def isLineEnd (c : Char) : Bool :=
  c == '\n' || c == '\r' || c == '\x0b' || c == '\x0c' || c == '\x1c' || c == '\x1d' ||
    c == '\x1e' || c == '\u0085' || c == '\u2028' || c == '\u2029'

def consToFirst (c : Char) : List (List Char) → List (List Char)
  | [] => [[c]]
  | line :: lines => (c :: line) :: lines

/-- The lines of a text, each with its ending; a carriage return and a line feed end one line. -/
def splitLines : List Char → List (List Char)
  | [] => []
  | '\r' :: '\n' :: rest => ['\r', '\n'] :: splitLines rest
  | c :: rest => if isLineEnd c then [c] :: splitLines rest else consToFirst c (splitLines rest)

theorem flatten_consToFirst (c : Char) (lines : List (List Char)) :
    (consToFirst c lines).flatten = c :: lines.flatten := by
  cases lines <;> simp [consToFirst]

/-- Nothing is lost when a text is cut into lines. -/
theorem flatten_splitLines (text : List Char) : (splitLines text).flatten = text := by
  fun_induction splitLines text <;> simp_all [flatten_consToFirst]

end RubyLint.Text
