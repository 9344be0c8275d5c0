import RubyLint.Text.Slice

/-!
# Lines and columns of byte offsets

Lines and columns count from one.  A line ends at a line feed.  `position` counts columns in
characters of the source, where an ill-formed piece of UTF-8 counts as one; `bytePosition` counts
them in bytes.
-/

namespace RubyLint.Text

def lineFeed : UInt8 := 10

/-- The bytes after the last line feed. -/
def lastLine (input : List UInt8) : List UInt8 :=
  (input.reverse.takeWhile (· != lineFeed)).reverse

/-- The line and the column, in characters, of a signed byte offset. -/
def position (source : List UInt8) (offset : Int) : Nat × Nat :=
  let before := slice source 0 offset
  (before.count lineFeed + 1, (decodeLossy (lastLine before)).length + 1)

/-- The line and the column, in bytes, of a byte offset. -/
def bytePosition (source : List UInt8) (offset : Nat) : Nat × Nat :=
  let before := source.take offset
  (before.count lineFeed + 1, (lastLine before).length + 1)

end RubyLint.Text
