/-!
# Words in capital letters

Names of severities are compared without regard to case, and they consist of ASCII letters only.
So it is enough to know, for each character, which ASCII letters its capital form or its case
folding consists of; a character whose form holds any other letter can stay as it is, because the
whole word then differs from every such name.
-/

namespace RubyLint.Text

/-- The characters beyond ASCII whose capital form consists of ASCII letters. -/
def asciiCapitals : List (Char × List Char) :=
  [('\u00DF', ['S', 'S']), ('\u0131', ['I']), ('\u017F', ['S']), ('\uFB00', ['F', 'F']),
   ('\uFB01', ['F', 'I']), ('\uFB02', ['F', 'L']), ('\uFB03', ['F', 'F', 'I']),
   ('\uFB04', ['F', 'F', 'L']), ('\uFB05', ['S', 'T']), ('\uFB06', ['S', 'T'])]

/-- The characters beyond ASCII whose case folding consists of ASCII letters. -/
def asciiFoldings : List (Char × List Char) :=
  [('\u00DF', ['s', 's']), ('\u017F', ['s']), ('\u1E9E', ['s', 's']), ('\u212A', ['k']),
   ('\uFB00', ['f', 'f']), ('\uFB01', ['f', 'i']), ('\uFB02', ['f', 'l']),
   ('\uFB03', ['f', 'f', 'i']), ('\uFB04', ['f', 'f', 'l']), ('\uFB05', ['s', 't']),
   ('\uFB06', ['s', 't'])]

/-- Writes `word` in capitals as far as ASCII letters come out. -/
def capitalize (word : String) : String :=
  String.ofList (word.toList.flatMap fun c => (asciiCapitals.lookup c).getD [c.toUpper])

/-- Folds the case of `word` as far as ASCII letters come out. -/
def foldCase (word : String) : String :=
  String.ofList (word.toList.flatMap fun c => (asciiFoldings.lookup c).getD [c.toLower])

end RubyLint.Text
