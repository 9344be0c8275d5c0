import RubyLint.Text.Lines

/-!
# Unified diffs

Two texts are compared line by line.  The comparison looks for a long block of equal lines, puts
it aside, and goes on with what lies before and after it in both texts.  A block is found by its
start: the start of the longest run of equal lines, the earliest one if there are several, moved
back as far as the lines before it agree too.  In a text of two hundred lines or more, lines that
occur often do not count when runs are measured.  The block then takes all lines that agree from
its start on.

The changes are shown in hunks with up to three unchanged lines around them.
-/

namespace RubyLint.Diff

variable {α : Type} [DecidableEq α]

/-- A stretch of both texts: equal lines, or lines that give way to others. -/
inductive Chunk (α : Type) where
  | same (lines : List α)
  | change (removed added : List α)
  deriving DecidableEq, Repr

/-- The number of elements at the start of two lists up to the first that differ. -/
def agreement : List α → List α → Nat
  | a :: as, b :: bs => if a = b then agreement as bs + 1 else 0
  | _, _ => 0

/-- A line of the second text, and whether it counts when runs are measured. -/
abbrev MarkedLine (α : Type) := α × Bool

/-- The lengths of the runs that end at `line` and at each line of the second text, from those
that end at the line before. -/
def nextRuns (line : α) (second : List (MarkedLine α)) (runs : List Nat) : List Nat :=
  List.zipWith (fun marked run => if marked.2 ∧ marked.1 = line then run + 1 else 0)
    second (0 :: runs)

/-- A run of equal lines by its start in both texts and its length. -/
structure Run where
  first : Nat
  second : Nat
  length : Nat
  deriving DecidableEq, Repr

/-- The longest of `best` and the runs that end at line `first` and at the lines from `second` on;
the earlier one if there are several. -/
def longestOfRuns (first : Nat) : (second : Nat) → (runs : List Nat) → (best : Run) → Run
  | _, [], best => best
  | second, run :: rest, best =>
    longestOfRuns first (second + 1) rest
      (if best.length < run then ⟨first + 1 - run, second + 1 - run, run⟩ else best)

/-- The longest run that ends at line `index` of the first text or later. -/
def longestRunFrom (second : List (MarkedLine α)) :
    (index : Nat) → (first : List α) → (runs : List Nat) → (best : Run) → Run
  | _, [], _, best => best
  | index, line :: rest, runs, best =>
    let runs := nextRuns line second runs
    longestRunFrom second (index + 1) rest runs (longestOfRuns index 0 runs best)

/-- The block of equal lines to put aside; it has no line if the texts have none in common that
counts and their first lines differ. -/
def block (first : List α) (second : List (MarkedLine α)) : Run :=
  let lines := second.map (·.1)
  let run := longestRunFrom second 0 first (second.map fun _ => 0) ⟨0, 0, 0⟩
  let back := agreement (first.take run.first).reverse (lines.take run.second).reverse
  let i := run.first - back
  let j := run.second - back
  ⟨i, j, agreement (first.drop i) (lines.drop j)⟩

theorem agreement_le_length (as bs : List α) : agreement as bs ≤ as.length := by
  fun_induction agreement as bs <;> simp_all

theorem block_fits {first : List α} {second : List (MarkedLine α)} {i j length : Nat}
    (h : block first second = ⟨i, j, length⟩) :
    length ≤ first.length - i := by
  simp only [block, Run.mk.injEq] at h
  obtain ⟨rfl, rfl, rfl⟩ := h
  rw [← List.length_drop]
  exact agreement_le_length _ _

def chunks (first : List α) (second : List (MarkedLine α)) : List (Chunk α) :=
  match h : block first second with
  | ⟨_, _, 0⟩ =>
    if first.isEmpty && second.isEmpty then [] else [.change first (second.map (·.1))]
  | ⟨i, j, length + 1⟩ =>
    have := block_fits h
    chunks (first.take i) (second.take j) ++
      .same ((first.drop i).take (length + 1)) ::
        chunks (first.drop (i + (length + 1))) (second.drop (j + (length + 1)))
termination_by first.length
decreasing_by
  · simp only [List.length_take]
    omega
  · simp only [List.length_drop]
    omega

/-- Marks the lines that count: all of a short text, and in a text of two hundred lines or more
those that occur at most once for each full hundred lines and once more. -/
def mark (lines : List α) : List (MarkedLine α) :=
  let limit := lines.length / 100 + 1
  lines.map fun line => (line, lines.length < 200 || lines.count line ≤ limit)

def compare (before after : List α) : List (Chunk α) :=
  chunks before (mark after)

/-- A group of chunks with the number of lines before it in both texts. -/
structure Hunk (α : Type) where
  beforeStart : Nat
  afterStart : Nat
  chunks : List (Chunk α)
  deriving Repr

namespace Chunk

def before : Chunk α → List α
  | .same lines => lines
  | .change removed _ => removed

def after : Chunk α → List α
  | .same lines => lines
  | .change _ added => added

def isChange : Chunk α → Bool
  | .same _ => false
  | .change _ _ => true

end Chunk

namespace Hunk

def before (hunk : Hunk α) : List α := hunk.chunks.flatMap Chunk.before

def after (hunk : Hunk α) : List α := hunk.chunks.flatMap Chunk.after

def add (hunk : Hunk α) (chunk : Chunk α) : Hunk α :=
  { hunk with chunks := hunk.chunks ++ [chunk] }

def ifChanged (hunk : Hunk α) : List (Hunk α) :=
  if hunk.chunks.any Chunk.isChange then [hunk] else []

end Hunk

def contextLines : Nat := 3

/-- Cuts chunks into hunks, where `hunk` is the one begun and the chunks start after `i` and `j`
lines of the two texts. -/
def hunksFrom (hunk : Hunk α) (i j : Nat) : List (Chunk α) → List (Hunk α)
  | [] => hunk.ifChanged
  | [.same lines] => (hunk.add (.same (lines.take contextLines))).ifChanged
  | chunk :: rest =>
    let i' := i + chunk.before.length
    let j' := j + chunk.after.length
    match chunk with
    | .change _ _ => hunksFrom (hunk.add chunk) i' j' rest
    | .same lines =>
      if 2 * contextLines < lines.length then
        (hunk.add (.same (lines.take contextLines))).ifChanged ++
          hunksFrom ⟨i' - contextLines, j' - contextLines,
            [.same (lines.drop (lines.length - contextLines))]⟩ i' j' rest
      else
        hunksFrom (hunk.add chunk) i' j' rest

def hunks (chunks : List (Chunk α)) : List (Hunk α) :=
  match chunks with
  | .same lines :: rest =>
    let hidden := lines.length - contextLines
    hunksFrom ⟨hidden, hidden, [.same (lines.drop hidden)]⟩ lines.length lines.length rest
  | _ => hunksFrom ⟨0, 0, []⟩ 0 0 chunks

/-- The lines that a hunk covers of one text, by number and count; an empty range is named by the
line before it. -/
def rangeText (start length : Nat) : String :=
  if length = 1 then toString (start + 1)
  else if length = 0 then toString start ++ ",0"
  else toString (start + 1) ++ "," ++ toString length

def Hunk.header (hunk : Hunk α) : String :=
  "@@ -" ++ rangeText hunk.beforeStart hunk.before.length ++ " +" ++
    rangeText hunk.afterStart hunk.after.length ++ " @@\n"

def Chunk.text : Chunk String → String
  | .same lines => String.join (lines.map (" " ++ ·))
  | .change removed added =>
    String.join (removed.map ("-" ++ ·)) ++ String.join (added.map ("+" ++ ·))

def Hunk.text (hunk : Hunk String) : String :=
  hunk.header ++ String.join (hunk.chunks.map Chunk.text)

def linesOf (text : String) : List String :=
  (Text.splitLines text.toList).map String.ofList

/-- The unified diff of two texts of the file `path`; it is empty if they are equal. -/
def unified (path before after : String) : String :=
  match hunks (compare (linesOf before) (linesOf after)) with
  | [] => ""
  | shown =>
    "--- a/" ++ path ++ "\n+++ b/" ++ path ++ "\n" ++ String.join (shown.map Hunk.text)

end RubyLint.Diff
