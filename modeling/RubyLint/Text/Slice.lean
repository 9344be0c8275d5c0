import RubyLint.Text.Utf8

/-!
# Slices with signed bounds

An offset into a sequence may be negative, and then counts from the end.  A bound outside the
sequence is moved to its nearer end, and a slice whose upper bound does not lie above its lower
bound is empty.
-/

namespace RubyLint.Text

/-- The place of `offset` in a sequence of `length` elements. -/
def clampOffset (length : Nat) (offset : Int) : Nat :=
  if offset < 0 then (offset + length).toNat else min offset.toNat length

/-- The elements from `start` up to, not including, `stop`. -/
def slice {α : Type} (sequence : List α) (start stop : Int) : List α :=
  let low := clampOffset sequence.length start
  let high := clampOffset sequence.length stop
  (sequence.take high).drop low

/-- The elements from `start` on. -/
def sliceFrom {α : Type} (sequence : List α) (start : Int) : List α :=
  sequence.drop (clampOffset sequence.length start)

end RubyLint.Text
