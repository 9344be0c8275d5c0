import RubyLint.Failure
import RubyLint.Issue
import RubyLint.Text.Slice
import RubyLint.Traced

/-!
# Applying edits to a source

Edits are applied from the left, ordered by start and then by end; edits with the same span keep
their order.  An edit that starts before the end of the last applied one is skipped.  The result
is the text between the applied edits and their replacements, in turn.
-/

namespace RubyLint

open Text

namespace Edit

def precedes (a b : Edit) : Bool :=
  a.start < b.start || (a.start == b.start && a.stop ≤ b.stop)

def inOrder (edits : List Edit) : List Edit :=
  edits.mergeSort precedes

/-- The edits that do not start before the end of the applied edit before them, the first of them
not before `cursor`. -/
def applicable (cursor : Int) : List Edit → List Edit
  | [] => []
  | edit :: rest =>
    if edit.start < cursor then applicable cursor rest else edit :: applicable edit.stop rest

/-- The edits that start before the end of the applied edit before them. -/
def overlapping (cursor : Int) : List Edit → List Edit
  | [] => []
  | edit :: rest =>
    if edit.start < cursor then edit :: overlapping cursor rest else overlapping edit.stop rest

/-- Puts the replacements of `edits` between the bytes of `data` from `cursor` on. -/
def splice (data : List UInt8) (cursor : Int) : List Edit → List UInt8
  | [] => sliceFrom data cursor
  | edit :: rest =>
    slice data cursor edit.start ++ bytes edit.replacement ++ splice data edit.stop rest

def applyAll (source : String) (edits : List Edit) : Traced Failure String := do
  let ordered := inOrder edits
  let _ ← Traced.collect
    (fun edit => Traced.write .debug .fixing
      ("Skipping overlapping edit at byte " ++ toString edit.start))
    (overlapping 0 ordered)
  Traced.ofExcept ((decode (splice (bytes source) 0 (applicable 0 ordered))).mapError
    Failure.illFormedText)

end Edit

/-- The edits of the issues that can be fixed. -/
def Issue.edits (issues : List Issue) : List Edit :=
  (issues.filter (·.autoFixable)).flatMap (·.fixes)

def applyFixes (source : String) (issues : List Issue) : Traced Failure String :=
  match Issue.edits issues with
  | [] => pure source
  | edits => Edit.applyAll source edits

end RubyLint
