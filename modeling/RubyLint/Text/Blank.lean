import RubyLint.Text.Ranges

/-!
# Blank characters

A blank separates words: it is a character that Unicode 14.0 calls white space or whose
bidirectional type is a separator.  Besides the usual blanks this takes in the four information
separators U+001C to U+001F.  `words` cuts a text at its blanks.
-/

namespace RubyLint.Text

def blankRanges : List CodeRange :=
  [(0x9, 0xD), (0x1C, 0x20), (0x85, 0x85), (0xA0, 0xA0), (0x1680, 0x1680), (0x2000, 0x200A),
   (0x2028, 0x2029), (0x202F, 0x202F), (0x205F, 0x205F), (0x3000, 0x3000)]

/-- Whether `c` separates words. -/
def isBlank (c : Char) : Bool :=
  inRanges blankRanges c

/-- The maximal runs of characters that are not blank, in order. -/
def words : List Char → List (List Char)
  | [] => []
  | c :: rest =>
    if isBlank c then
      words rest
    else
      (c :: rest.takeWhile (!isBlank ·)) :: words (rest.dropWhile (!isBlank ·))
termination_by text => text.length
decreasing_by
  · simp
  · have rest_le := (List.dropWhile_suffix (l := rest) (!isBlank ·)).length_le
    simp only [List.length_cons]
    omega

end RubyLint.Text
