/-!
# Quotes and delimiters

A Ruby string literal belongs to one of two families.  The single-quoted family takes nearly
every character as it stands, the double-quoted family knows escapes and interpolation.  A literal
may also be written between delimiters of its own choice, as in `%q(…)`; four of them close with
another character than they open with.
-/

namespace RubyLint

/-- The two families of string literals. -/
inductive Quote where
  | single
  | double
  deriving DecidableEq, Repr

namespace Quote

def delimiter : Quote → Char
  | .single => '\''
  | .double => '"'

def other : Quote → Quote
  | .single => .double
  | .double => .single

def ofDelimiter? (c : Char) : Option Quote :=
  if c == '\'' then some .single else if c == '"' then some .double else none

def wrap (quote : Quote) (body : List Char) : List Char :=
  quote.delimiter :: body ++ [quote.delimiter]

@[simp] theorem ofDelimiter?_delimiter (quote : Quote) :
    ofDelimiter? quote.delimiter = some quote := by
  cases quote <;> rfl

end Quote

/-- The character that closes what `opening` opens. -/
def closingChar : Char → Char
  | '(' => ')'
  | '[' => ']'
  | '\x7b' => '\x7d'
  | '<' => '>'
  | opening => opening

/-- The text that closes what `opening` opens; only a single bracket closes with another one. -/
def closingDelimiter (opening : String) : String :=
  match opening.toList with
  | [c] => (closingChar c).toString
  | _ => opening

/-- The texts on either side of the body of a literal. -/
structure Delimiters where
  opening : String
  closing : String
  deriving DecidableEq, Repr

namespace Delimiters

def ofOpening (opening : Char) : Delimiters :=
  ⟨opening.toString, (closingChar opening).toString⟩

/-- Whether `c` alone is one of the two delimiters. -/
def contains (delimiters : Delimiters) (c : Char) : Bool :=
  delimiters.opening == c.toString || delimiters.closing == c.toString

end Delimiters

end RubyLint
