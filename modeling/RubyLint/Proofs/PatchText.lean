import RubyLint.Proofs.PatchHunks

/-!
# Diffs read as patches

A text is a patch if, cut at line feeds, it has two lines that name the files and then hunks, each
with a header that gives its place and length in both texts and with as many lines as the header
says.  A printed diff puts lines one after the other as they are.  If each line but the last one ends
in a line feed, cutting the text at line feeds gives the lines back, and reading them gives back the
hunks.
-/

namespace RubyLint

namespace Text

/-- The lines of a text that is cut at line feeds; none stands after a last line feed. -/
def cutLines (text : List Char) : List (List Char) :=
  let pieces := text.splitOn '\n'
  if pieces.getLast? = some [] then pieces.dropLast else pieces

/-- A line that ends in a line feed and has no other. -/
def Fed (line : List Char) : Prop := ∃ content, '\n' ∉ content ∧ line = content ++ ['\n']

/-- A line that is not empty and has a line feed at most at its end. -/
def SingleLine (line : List Char) : Prop := Fed line ∨ line ≠ [] ∧ '\n' ∉ line

def lineContent (line : List Char) : List Char := line.takeWhile (· ≠ '\n')

/-- A line that is left open, unless it is empty. -/
def openLine (tail : List Char) : List (List Char) := if tail = [] then [] else [tail]

theorem flatten_openLine (tail : List Char) : (openLine tail).flatten = tail := by
  unfold openLine
  split
  next hnil => simp [hnil]
  next => simp

theorem lineContent_append {content : List Char} (hfeed : '\n' ∉ content) (rest : List Char) :
    lineContent (content ++ rest) = content ++ lineContent rest := by
  apply List.takeWhile_append_of_pos
  intro c hc
  rw [decide_eq_true_eq]
  rintro rfl
  exact hfeed hc

theorem lineContent_of_notMem {content : List Char} (hfeed : '\n' ∉ content) :
    lineContent content = content := by
  simpa [lineContent] using lineContent_append hfeed []

theorem lineContent_concat {content : List Char} (hfeed : '\n' ∉ content) :
    lineContent (content ++ ['\n']) = content := by
  simpa [lineContent] using lineContent_append hfeed ['\n']

theorem splitOn_flatten_append
    {lines : List (List Char)} (hlines : ∀ line ∈ lines, Fed line) {tail : List Char}
    (htail : '\n' ∉ tail) :
    (lines.flatten ++ tail).splitOn '\n' = lines.map lineContent ++ [tail] := by
  induction lines with
  | nil => exact List.splitOn_eq_singleton htail
  | cons line rest ih =>
      rw [List.forall_mem_cons] at hlines
      obtain ⟨⟨content, hfeed, rfl⟩, hrest⟩ := hlines
      rw [List.flatten_cons, List.append_assoc, List.append_assoc, List.singleton_append,
        List.splitOn_append_cons_self_of_not_mem hfeed, ih hrest, List.map_cons,
        lineContent_concat hfeed, List.cons_append]

theorem cutLines_flatten_append
    {lines : List (List Char)} (hlines : ∀ line ∈ lines, Fed line) {tail : List Char}
    (htail : '\n' ∉ tail) :
    cutLines (lines.flatten ++ tail) = (lines ++ openLine tail).map lineContent := by
  unfold cutLines openLine
  rw [splitOn_flatten_append hlines htail]
  by_cases hnil : tail = []
  · simp [hnil]
  · simp [hnil, lineContent_of_notMem htail]

/-- Lines that may stand one after the other come to an end in a line feed, up to the last one. -/
theorem exists_openLine
    {pieces : List (List Char)}
    (hpieces : ∀ piece ∈ pieces, SingleLine piece)
    (hfed : pieces.Pairwise fun piece _ => Fed piece) :
    ∃ lines tail, (∀ line ∈ lines, Fed line) ∧ '\n' ∉ tail ∧ pieces = lines ++ openLine tail := by
  rcases List.eq_nil_or_concat pieces with rfl | ⟨lines, last, rfl⟩
  · exact ⟨[], [], by simp, by simp, rfl⟩
  · rw [List.concat_eq_append] at hpieces hfed ⊢
    have hlines : ∀ line ∈ lines, Fed line := fun line hline =>
      (List.pairwise_append.mp hfed).2.2 line hline last (List.mem_singleton_self last)
    rcases hpieces last (List.mem_append_right _ (List.mem_singleton_self last)) with
      hlast | ⟨hnil, hfeed⟩
    · refine ⟨lines ++ [last], [], ?_, by simp, by simp [openLine]⟩
      intro line hline
      rcases List.mem_append.mp hline with hline | hline
      · exact hlines line hline
      · rwa [List.mem_singleton.mp hline]
    · exact ⟨lines, last, hlines, hfeed, by simp [openLine, hnil]⟩

theorem cutLines_flatten
    {pieces : List (List Char)}
    (hpieces : ∀ piece ∈ pieces, SingleLine piece)
    (hfed : pieces.Pairwise fun piece _ => Fed piece) :
    cutLines pieces.flatten = pieces.map lineContent := by
  obtain ⟨lines, tail, hlines, htail, rfl⟩ := exists_openLine hpieces hfed
  rw [← cutLines_flatten_append hlines htail, List.flatten_append, flatten_openLine]

/-- Whether the lines of a text end in line feeds, up to the last one. -/
def EndsInFeeds (text : List Char) : Prop := ∀ line ∈ (splitLines text).dropLast, '\n' ∈ line

instance (text : List Char) : Decidable (EndsInFeeds text) :=
  inferInstanceAs (Decidable (∀ line ∈ (splitLines text).dropLast, '\n' ∈ line))

theorem fed_append {content line : List Char} (hcontent : '\n' ∉ content) (hline : Fed line) :
    Fed (content ++ line) := by
  obtain ⟨rest, hfeed, rfl⟩ := hline
  exact ⟨content ++ rest, by simp [hcontent, hfeed], (List.append_assoc ..).symm⟩

theorem singleLine_append
    {content line : List Char} (hcontent : '\n' ∉ content) (hline : SingleLine line) :
    SingleLine (content ++ line) := by
  rcases hline with hfed | ⟨hnil, hfeed⟩
  · exact Or.inl (fed_append hcontent hfed)
  · exact Or.inr ⟨by simp [hnil], by simp [hcontent, hfeed]⟩

theorem fed_cons {c : Char} {line : List Char} (hc : c ≠ '\n') (hline : Fed line) :
    Fed (c :: line) :=
  @fed_append [c] line (by simp [hc.symm]) hline

theorem singleLine_cons {c : Char} {line : List Char} (hc : c ≠ '\n') (hline : SingleLine line) :
    SingleLine (c :: line) :=
  @singleLine_append [c] line (by simp [hc.symm]) hline

theorem singleLine_of_mem_splitLines
    {text line : List Char} (hline : line ∈ splitLines text) :
    SingleLine line := by
  fun_induction splitLines text generalizing line with
  | case1 => cases hline
  | case2 rest ih =>
      rcases List.mem_cons.mp hline with rfl | hline
      · exact Or.inl ⟨['\r'], by simp, rfl⟩
      · exact ih hline
  | case3 c rest hpair hend ih =>
      rcases List.mem_cons.mp hline with rfl | hline
      · by_cases hc : c = '\n'
        · subst hc
          exact Or.inl ⟨[], by simp, rfl⟩
        · exact Or.inr ⟨by simp, by simp [Ne.symm hc]⟩
      · exact ih hline
  | case4 c rest hpair hend ih =>
      have hc : c ≠ '\n' := by
        rintro rfl
        exact hend rfl
      cases hrest : splitLines rest with
      | nil =>
          rw [hrest, consToFirst, List.mem_singleton] at hline
          subst hline
          exact Or.inr ⟨by simp, by simp [hc.symm]⟩
      | cons first others =>
          rw [hrest, consToFirst, List.mem_cons] at hline
          rw [hrest] at ih
          rcases hline with rfl | hline
          · exact singleLine_cons hc (ih List.mem_cons_self)
          · exact ih (List.mem_cons_of_mem _ hline)

theorem pairwise_concat
    {α : Type} {P : α → Prop} {init : List α} (hinit : ∀ a ∈ init, P a) (last : α) :
    (init ++ [last]).Pairwise fun a _ => P a := by
  refine List.pairwise_append.mpr ⟨?_, List.pairwise_singleton _ _, ?_⟩
  · exact List.pairwise_of_forall_mem_list fun a ha _ _ => hinit a ha
  · exact fun a ha _ _ => hinit a ha

theorem EndsInFeeds.pairwise
    {text : List Char} (hends : EndsInFeeds text) :
    (splitLines text).Pairwise fun line _ => Fed line := by
  have hfed : ∀ line ∈ (splitLines text).dropLast, Fed line := by
    intro line hline
    rcases singleLine_of_mem_splitLines (List.mem_of_mem_dropLast hline) with hfed | ⟨-, hfeed⟩
    · exact hfed
    · exact absurd (hends line hline) hfeed
  rcases List.eq_nil_or_concat (splitLines text) with hnil | ⟨lines, last, hlines⟩
  · rw [hnil]
    exact List.Pairwise.nil
  · rw [hlines, List.concat_eq_append] at hfed ⊢
    rw [List.dropLast_concat] at hfed
    exact pairwise_concat hfed last

/-- A text whose lines end in line feeds is cut at line feeds, and what stands after the last one
is its last line, if there is anything. -/
theorem EndsInFeeds.exists_openLine
    {text : List Char} (hends : EndsInFeeds text) :
    ∃ lines tail, (∀ line ∈ lines, Fed line) ∧ '\n' ∉ tail ∧
      splitLines text = lines ++ openLine tail ∧
      text.splitOn '\n' = lines.map lineContent ++ [tail] := by
  obtain ⟨lines, tail, hlines, htail, hsplit⟩ :=
    Text.exists_openLine (fun _ hline => singleLine_of_mem_splitLines hline) hends.pairwise
  refine ⟨lines, tail, hlines, htail, hsplit, ?_⟩
  rw [← splitOn_flatten_append hlines htail, ← flatten_openLine tail, ← List.flatten_append,
    ← hsplit, flatten_splitLines]

end Text

/-! ## Reading a patch -/

structure Patch where
  beforeName : List Char
  afterName : List Char
  hunks : List (Patch.Hunk (List Char))

namespace Patch

def readNumber (digits : List Char) : Option Nat :=
  if digits ≠ [] ∧ digits.all Char.isDigit then some (Nat.ofDigitChars 10 digits 0) else none

/-- A range of lines as the number of lines before it and its length.  A range is named by its first
line, and an empty one by the line before it. -/
def range? (number length : Nat) : Option (Nat × Nat) :=
  if length = 0 then some (number, 0) else if number = 0 then none else some (number - 1, length)

def readRange (text : List Char) : Option (Nat × Nat) :=
  match text.splitOn ',' with
  | [number] => (readNumber number).bind fun number => range? number 1
  | [number, length] =>
    (readNumber number).bind fun number => (readNumber length).bind fun length =>
      range? number length
  | _ => none

def readHeader (line : List Char) : Option ((Nat × Nat) × (Nat × Nat)) :=
  match line.splitOn ' ' with
  | [['@', '@'], '-' :: before, '+' :: after, ['@', '@']] =>
    (readRange before).bind fun before => (readRange after).map fun after => (before, after)
  | _ => none

/-- Reads the lines of a hunk that has `m` lines of the first text and `n` lines of the second still
to come, and the hunks after it. -/
def readFrom : (m n : Nat) → List (List Char) →
    Option (List (Line (List Char)) × List (Hunk (List Char)))
  | 0, 0, [] => some ([], [])
  | 0, 0, header :: rest =>
    (readHeader header).bind fun (before, after) =>
      (readFrom before.2 after.2 rest).map fun (body, hunks) =>
        ([], ⟨before.1, after.1, body⟩ :: hunks)
  | m + 1, n + 1, (' ' :: text) :: rest =>
    (readFrom m n rest).map fun (body, hunks) => (.kept text :: body, hunks)
  | m + 1, n, ('-' :: text) :: rest =>
    (readFrom m n rest).map fun (body, hunks) => (.removed text :: body, hunks)
  | m, n + 1, ('+' :: text) :: rest =>
    (readFrom m n rest).map fun (body, hunks) => (.added text :: body, hunks)
  | _, _, _ => none

def read (text : List Char) : Option Patch :=
  match Text.cutLines text with
  | ('-' :: '-' :: '-' :: ' ' :: before) :: ('+' :: '+' :: '+' :: ' ' :: after) :: rest =>
    (readFrom 0 0 rest).map fun (_, hunks) => ⟨before, after, hunks⟩
  | _ => none

def apply (patch : Patch) (lines : List (List Char)) : Option (List (List Char)) :=
  applyFrom 0 0 patch.hunks lines

/-! ## Reading what is written -/

def Line.sign : Line α → Char
  | .kept _ => ' '
  | .removed _ => '-'
  | .added _ => '+'

theorem Line.sign_ne_feed (line : Line α) : line.sign ≠ '\n' := by
  cases line <;> simp [Line.sign]

def Line.text : Line α → α
  | .kept text => text
  | .removed text => text
  | .added text => text

/-- A line as it is written. -/
def Line.written (line : Line (List Char)) : List Char := line.sign :: line.text

theorem readFrom_line (line : Line (List Char)) (m n : Nat) (rest : List (List Char)) :
    readFrom (line.before.length + m) (line.after.length + n) (line.written :: rest) =
      (readFrom m n rest).map fun (body, hunks) => (line :: body, hunks) := by
  rw [Nat.add_comm, Nat.add_comm _ n]
  cases line with
  | kept text => rfl
  | removed text => cases n <;> rfl
  | added text => cases m <;> rfl

theorem readFrom_body (body : List (Line (List Char))) (m n : Nat) (rest : List (List Char)) :
    readFrom ((body.flatMap Line.before).length + m) ((body.flatMap Line.after).length + n)
        (body.map Line.written ++ rest) =
      (readFrom m n rest).map fun (body', hunks) => (body ++ body', hunks) := by
  induction body with
  | nil => simp
  | cons line body ih =>
      rw [List.flatMap_cons, List.flatMap_cons, List.length_append, List.length_append,
        Nat.add_assoc, Nat.add_assoc, List.map_cons, List.cons_append, readFrom_line, ih,
        Option.map_map]
      rfl

theorem readNumber_toDigits (n : Nat) : readNumber (Nat.toDigits 10 n) = some n := by
  unfold readNumber
  rw [if_pos, Nat.ofDigitChars_toDigits (by decide) (by decide)]
  refine ⟨Nat.toDigits_ne_nil, ?_⟩
  rw [List.all_eq_true]
  intro c hc
  exact Nat.isDigit_of_mem_toDigits (by decide) (by decide) hc

theorem notMem_toDigits {c : Char} (hc : c.isDigit = false) (n : Nat) : c ∉ Nat.toDigits 10 n := by
  intro hmem
  rw [Nat.isDigit_of_mem_toDigits (by decide) (by decide) hmem] at hc
  cases hc

theorem readRange_toDigits (n : Nat) : readRange (Nat.toDigits 10 n) = range? n 1 := by
  unfold readRange
  rw [List.splitOn_eq_singleton (notMem_toDigits rfl n)]
  simp [readNumber_toDigits]

theorem readRange_toDigits_pair (n k : Nat) :
    readRange (Nat.toDigits 10 n ++ ',' :: Nat.toDigits 10 k) = range? n k := by
  unfold readRange
  rw [List.splitOn_append_cons_self_of_not_mem (notMem_toDigits rfl n),
    List.splitOn_eq_singleton (notMem_toDigits rfl k)]
  simp [readNumber_toDigits]

theorem readRange_rangeText (start length : Nat) :
    readRange (Diff.rangeText start length).toList = some (start, length) := by
  unfold Diff.rangeText
  split
  next hone =>
    rw [Nat.toString_eq_repr, Nat.toList_repr, readRange_toDigits, hone]
    rfl
  next hone =>
    split
    next hzero =>
      have hpair := readRange_toDigits_pair start 0
      rw [hzero]
      simpa [range?] using hpair
    next hzero =>
      have hpair := readRange_toDigits_pair (start + 1) length
      simpa [range?, hzero] using hpair

theorem notMem_rangeText {c : Char} (hdigit : c.isDigit = false) (hcomma : c ≠ ',')
    (start length : Nat) : c ∉ (Diff.rangeText start length).toList := by
  have hnumber := notMem_toDigits hdigit
  have hzero : c ≠ '0' := by
    rintro rfl
    cases hdigit
  unfold Diff.rangeText
  split
  next => simpa using hnumber _
  next =>
    split
    next => simp [hnumber, hcomma, hzero]
    next => simp [hnumber, hcomma]

/-- The header of a hunk, without its line feed. -/
def Hunk.header (hunk : Hunk α) : List Char :=
  ['@', '@'] ++ ' ' :: (('-' :: (Diff.rangeText hunk.beforeStart hunk.before.length).toList) ++
    ' ' :: (('+' :: (Diff.rangeText hunk.afterStart hunk.after.length).toList) ++
      ' ' :: ['@', '@']))

theorem Hunk.feed_notMem_header (hunk : Hunk α) : '\n' ∉ hunk.header := by
  have hfeed : ∀ start length, '\n' ∉ (Diff.rangeText start length).toList :=
    notMem_rangeText rfl (by decide)
  simp [Hunk.header, hfeed]

theorem readHeader_header (hunk : Hunk α) :
    readHeader hunk.header =
      some ((hunk.beforeStart, hunk.before.length), (hunk.afterStart, hunk.after.length)) := by
  have hblank : ∀ start length, ' ' ∉ (Diff.rangeText start length).toList :=
    notMem_rangeText rfl (by decide)
  unfold readHeader Hunk.header
  rw [List.splitOn_append_cons_self_of_not_mem (by decide),
    List.splitOn_append_cons_self_of_not_mem (by simp [hblank]),
    List.splitOn_append_cons_self_of_not_mem (by simp [hblank]),
    List.splitOn_eq_singleton (by decide)]
  simp [readRange_rangeText]

/-- The lines of hunks as they are written. -/
def writtenHunks (hunks : List (Hunk (List Char))) : List (List Char) :=
  hunks.flatMap fun hunk => hunk.header :: hunk.body.map Line.written

theorem readFrom_zero
    {lines : List (List Char)} {body : List (Line (List Char))} {hunks : List (Hunk (List Char))}
    (hread : readFrom 0 0 lines = some (body, hunks)) : body = [] := by
  cases lines with
  | nil =>
      cases hread
      rfl
  | cons header rest =>
      rw [readFrom, Option.bind_eq_some_iff] at hread
      obtain ⟨ranges, -, hread⟩ := hread
      obtain ⟨read, -, hread⟩ := Option.map_eq_some_iff.mp hread
      cases hread
      rfl

theorem readFrom_header (hunk : Hunk α) (rest : List (List Char)) :
    readFrom 0 0 (hunk.header :: rest) =
      (readFrom hunk.before.length hunk.after.length rest).map fun (body, hunks) =>
        ([], ⟨hunk.beforeStart, hunk.afterStart, body⟩ :: hunks) := by
  rw [readFrom, readHeader_header]
  rfl

/-- A hunk that is short of a line is not read. -/
theorem readFrom_short
    {hunk : Hunk α} {body : List (Line (List Char))}
    (hbefore : hunk.before.length = (body.flatMap Line.before).length)
    (hafter : hunk.after.length = (body.flatMap Line.after).length + 1) :
    readFrom 0 0 (hunk.header :: body.map Line.written) = none := by
  have hbody := readFrom_body body 0 1 []
  rw [List.append_nil, Nat.add_zero] at hbody
  rw [readFrom_header, hbefore, hafter, hbody]
  rfl

theorem readFrom_hunks (hunks : List (Hunk (List Char))) (rest : List (List Char)) :
    readFrom 0 0 (writtenHunks hunks ++ rest) =
      (readFrom 0 0 rest).map fun (body, hunks') => (body, hunks ++ hunks') := by
  induction hunks with
  | nil => simp [writtenHunks]
  | cons hunk hunks ih =>
      have hbody := readFrom_body hunk.body 0 0 (writtenHunks hunks ++ rest)
      rw [ih, Nat.add_zero, Nat.add_zero] at hbody
      have hlines : writtenHunks (hunk :: hunks) ++ rest =
          hunk.header :: (hunk.body.map Line.written ++ (writtenHunks hunks ++ rest)) := by
        simp [writtenHunks]
      rw [hlines, readFrom_header, Hunk.before, Hunk.after, hbody]
      cases hrest : readFrom 0 0 rest with
      | none => rfl
      | some read =>
          obtain ⟨body', hunks'⟩ := read
          rw [readFrom_zero hrest]
          simp

end Patch

/-- Whether a text is a patch of the file `path` that leads from one text to another. -/
def IsPatch (path before after text : String) : Prop :=
  ∃ patch, Patch.read text.toList = some patch ∧
    patch.beforeName = ("a/" ++ path).toList ∧ patch.afterName = ("b/" ++ path).toList ∧
    patch.apply (before.toList.splitOn '\n') = some (after.toList.splitOn '\n')

/-! ## What a diff prints -/

namespace Diff

open Patch (Line)

/-- A line as it is printed. -/
def printed (line : Line String) : List Char := line.sign :: line.text.toList

theorem Chunk.toList_text (chunk : Chunk String) :
    chunk.text.toList = chunk.patchLines.flatMap printed := by
  cases chunk with
  | same lines =>
      rw [Chunk.text, String.toList_join, Chunk.patchLines, List.flatMap_map, List.flatMap_map]
      simp [printed, Line.sign, Line.text]
  | change removed added =>
      rw [Chunk.text, String.toList_append, String.toList_join, String.toList_join,
        Chunk.patchLines, List.flatMap_append, List.flatMap_map, List.flatMap_map,
        List.flatMap_map, List.flatMap_map]
      simp [printed, Line.sign, Line.text]

def content (line : String) : List Char := Text.lineContent line.toList

def Hunk.contents (hunk : Hunk String) : Patch.Hunk (List Char) := hunk.patch.map content

theorem lineContent_printed (line : Line String) :
    Text.lineContent (printed line) = (line.map content).written := by
  cases line <;>
    simp [printed, content, Line.map, Line.written, Line.sign, Line.text, Text.lineContent]

theorem Hunk.toList_header (hunk : Hunk String) :
    hunk.header.toList = hunk.contents.header ++ ['\n'] := by
  have hbefore : hunk.contents.before.length = hunk.before.length := by
    rw [Hunk.contents, Patch.Hunk.before_map, List.length_map, Hunk.before_patch]
  have hafter : hunk.contents.after.length = hunk.after.length := by
    rw [Hunk.contents, Patch.Hunk.after_map, List.length_map, Hunk.after_patch]
  unfold Patch.Hunk.header
  rw [hbefore, hafter]
  simp [Hunk.header, Hunk.contents, Hunk.patch, Patch.Hunk.map]

/-- A hunk that is printed, by its header without the line feed and its lines. -/
abbrev ShownHunk := List Char × List (Line String)

def Hunk.shown (hunk : Hunk String) : ShownHunk := (hunk.contents.header, hunk.patch.body)

def ShownHunk.pieces (hunk : ShownHunk) : List (List Char) :=
  (hunk.1 ++ ['\n']) :: hunk.2.map printed

/-- The lines of a diff as they are printed. -/
def pieces (path : String) (shown : List ShownHunk) : List (List Char) :=
  (("--- a/" ++ path).toList ++ ['\n']) :: (("+++ b/" ++ path).toList ++ ['\n']) ::
    shown.flatMap ShownHunk.pieces

theorem Hunk.toList_text (hunk : Hunk String) : hunk.text.toList = hunk.shown.pieces.flatten := by
  unfold Hunk.text Hunk.shown ShownHunk.pieces Hunk.patch
  rw [String.toList_append, String.toList_join, List.flatMap_map, List.flatten_cons,
    ← List.flatMap_def, List.flatMap_assoc, Hunk.toList_header]
  simp only [Chunk.toList_text]

theorem toList_unified
    {path before after : String}
    (hshown : hunks (compare (linesOf before) (linesOf after)) ≠ []) :
    (unified path before after).toList = (pieces path
      ((hunks (compare (linesOf before) (linesOf after))).map Hunk.shown)).flatten := by
  unfold unified pieces
  split
  next hnone => exact absurd hnone hshown
  next =>
    have hjoin : ∀ shown : List (Hunk String), (String.join (shown.map Hunk.text)).toList =
        ((shown.map Hunk.shown).flatMap ShownHunk.pieces).flatten := by
      intro shown
      rw [String.toList_join, List.flatMap_map, List.flatMap_map, ← List.flatMap_id,
        List.flatMap_assoc]
      simp only [Hunk.toList_text, List.flatMap_id]
    simp [hjoin]

/-- Hunks whose lines may be printed one after the other. -/
structure Readable (shown : List ShownHunk) : Prop where
  header : ∀ hunk ∈ shown, '\n' ∉ hunk.1
  body : ∀ hunk ∈ shown, hunk.2 ≠ []
  single : ∀ line ∈ shown.flatMap (·.2), Text.SingleLine line.text.toList
  fed : (shown.flatMap (·.2)).Pairwise fun line _ => Text.Fed line.text.toList

namespace Readable

theorem tail {hunk : ShownHunk} {rest : List ShownHunk} (hshown : Readable (hunk :: rest)) :
    Readable rest where
  header := (List.forall_mem_cons.mp hshown.header).2
  body := (List.forall_mem_cons.mp hshown.body).2
  single := fun line hline => hshown.single line (List.mem_append_right _ hline)
  fed := (List.pairwise_append.mp hshown.fed).2.1

theorem pairwise {shown : List ShownHunk} (hshown : Readable shown) :
    (shown.flatMap ShownHunk.pieces).Pairwise fun piece _ => Text.Fed piece := by
  induction shown with
  | nil => exact List.Pairwise.nil
  | cons hunk rest ih =>
      have hheader : Text.Fed (hunk.1 ++ ['\n']) :=
        ⟨hunk.1, hshown.header hunk List.mem_cons_self, rfl⟩
      obtain ⟨hbody, -, hcross⟩ := List.pairwise_append.mp hshown.fed
      rw [List.flatMap_cons, List.pairwise_append]
      refine ⟨?_, ih hshown.tail, ?_⟩
      · refine List.pairwise_cons.mpr ⟨fun _ _ => hheader, ?_⟩
        rw [List.pairwise_map]
        exact hbody.imp fun {line _} hline => Text.fed_cons line.sign_ne_feed hline
      · intro piece hpiece piece' hpiece'
        rcases List.mem_cons.mp hpiece with rfl | hpiece
        · exact hheader
        · obtain ⟨line, hline, rfl⟩ := List.mem_map.mp hpiece
          -- a hunk follows, and it shows a line
          obtain ⟨hunk', hhunk', -⟩ := List.mem_flatMap.mp hpiece'
          obtain ⟨line', hline'⟩ := List.exists_mem_of_ne_nil _ (hshown.tail.body hunk' hhunk')
          exact Text.fed_cons line.sign_ne_feed
            (hcross line hline line' (List.mem_flatMap.mpr ⟨hunk', hhunk', hline'⟩))

theorem singleLine
    {shown : List ShownHunk} (hshown : Readable shown) {piece : List Char}
    (hpiece : piece ∈ shown.flatMap ShownHunk.pieces) : Text.SingleLine piece := by
  obtain ⟨hunk, hhunk, hpiece⟩ := List.mem_flatMap.mp hpiece
  rcases List.mem_cons.mp hpiece with rfl | hpiece
  · exact Or.inl ⟨hunk.1, hshown.header hunk hhunk, rfl⟩
  · obtain ⟨line, hline, rfl⟩ := List.mem_map.mp hpiece
    exact Text.singleLine_cons line.sign_ne_feed
      (hshown.single line (List.mem_flatMap.mpr ⟨hunk, hhunk, hline⟩))

theorem cutLines_pieces
    {shown : List ShownHunk} (hshown : Readable shown) {path : String}
    (hpath : '\n' ∉ path.toList) :
    Text.cutLines (pieces path shown).flatten =
      ("--- a/" ++ path).toList :: ("+++ b/" ++ path).toList ::
        shown.flatMap fun hunk => hunk.1 :: hunk.2.map fun line => (line.map content).written := by
  have hname : '\n' ∉ ("--- a/" ++ path).toList := by simp [hpath]
  have hname' : '\n' ∉ ("+++ b/" ++ path).toList := by simp [hpath]
  have hcut := @Text.cutLines_flatten (pieces path shown) ?_ ?_
  · rw [hcut, pieces, List.map_cons, List.map_cons, Text.lineContent_concat hname,
      Text.lineContent_concat hname', List.map_flatMap]
    congr 2
    apply List.flatMap_congr
    intro hunk hhunk
    rw [ShownHunk.pieces, List.map_cons, Text.lineContent_concat (hshown.header hunk hhunk),
      List.map_map]
    simp only [Function.comp_def, lineContent_printed]
  · simp only [pieces, List.forall_mem_cons]
    exact ⟨Or.inl ⟨_, hname, rfl⟩, Or.inl ⟨_, hname', rfl⟩, fun _ => hshown.singleLine⟩
  · simp only [pieces, List.pairwise_cons]
    exact ⟨fun _ _ => ⟨_, hname, rfl⟩, fun _ _ => ⟨_, hname', rfl⟩, hshown.pairwise⟩

/-- Cutting the text at line feeds gives back the lines that were printed. -/
theorem read_pieces
    {shown : List ShownHunk} (hshown : Readable shown) {path : String}
    (hpath : '\n' ∉ path.toList) :
    Patch.read (pieces path shown).flatten =
      (Patch.readFrom 0 0 (shown.flatMap fun hunk =>
        hunk.1 :: hunk.2.map fun line => (line.map content).written)).map
          fun (_, hunks) => ⟨("a/" ++ path).toList, ("b/" ++ path).toList, hunks⟩ := by
  unfold Patch.read
  rw [hshown.cutLines_pieces hpath]
  simp

end Readable

end Diff

end RubyLint
