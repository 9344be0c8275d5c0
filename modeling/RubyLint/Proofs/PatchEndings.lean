import RubyLint.Proofs.LineMatching
import RubyLint.Proofs.PatchText

/-!
# When a diff is a patch

The lines of a diff are lines of the two texts, so what may be printed one after the other depends
on which of them are left open, and on where these stand in the comparison.  Let both texts have
lines that end in line feeds, up to a last line that may be left open.  If this last line is the
same in both, it is the last line of the comparison, and the diff is a patch.  If it is not, the
diff is no patch that leads from one text to the other: a line that is left open and removed runs
into the line that is added after it, so the last hunk is short of a line; and where no line runs
into another, the patch loses or leaves a line feed at the end.
-/

namespace RubyLint.Diff

open Patch (Line)

section Compare

variable {α : Type} {P : α → Prop}

theorem forall_patchLines
    {chunks : List (Chunk α)} (hbefore : ∀ text ∈ chunks.flatMap Chunk.before, P text)
    (hafter : ∀ text ∈ chunks.flatMap Chunk.after, P text) :
    ∀ line ∈ chunks.flatMap Chunk.patchLines, P line.text := by
  intro line hline
  obtain ⟨chunk, hchunk, hline⟩ := List.mem_flatMap.mp hline
  cases chunk with
  | same lines =>
      obtain ⟨text, htext, rfl⟩ := List.mem_map.mp hline
      exact hbefore text (List.mem_flatMap.mpr ⟨_, hchunk, htext⟩)
  | change removed added =>
      rcases List.mem_append.mp hline with hline | hline
      · obtain ⟨text, htext, rfl⟩ := List.mem_map.mp hline
        exact hbefore text (List.mem_flatMap.mpr ⟨_, hchunk, htext⟩)
      · obtain ⟨text, htext, rfl⟩ := List.mem_map.mp hline
        exact hafter text (List.mem_flatMap.mpr ⟨_, hchunk, htext⟩)

variable [DecidableEq α] {before after : List α}

theorem pairwise_compare
    (hbefore : ∀ text ∈ before, P text) (hafter : ∀ text ∈ after, P text) :
    ((compare before after).flatMap Chunk.patchLines).Pairwise fun line _ => P line.text := by
  have hlines := @forall_patchLines α P (compare before after)
    (by rwa [flatMap_before_compare]) (by rwa [flatMap_after_compare])
  exact List.pairwise_of_forall_mem_list fun line hline _ _ => hlines line hline

/-- If all lines but the last one of the comparison have a property, only that one may lack it. -/
theorem pairwise_compare_of_last
    (hbefore : ∀ text ∈ before, P text) (hafter : ∀ text ∈ after, P text)
    {init : List (Chunk α)} {chunk shorter : Chunk α} {last : Line α}
    (hchunks : compare (before ++ last.before) (after ++ last.after) = init ++ [chunk])
    (hfirst : chunk.before = shorter.before ++ last.before)
    (hsecond : chunk.after = shorter.after ++ last.after)
    (hlines : chunk.patchLines = shorter.patchLines ++ [last]) :
    ((init ++ [chunk]).flatMap Chunk.patchLines).Pairwise fun line _ => P line.text := by
  have hbefore' := flatMap_before_compare (before ++ last.before) (after ++ last.after)
  have hafter' := flatMap_after_compare (before ++ last.before) (after ++ last.after)
  rw [hchunks, List.flatMap_append, List.flatMap_singleton, hfirst, ← List.append_assoc,
    List.append_cancel_right_eq] at hbefore'
  rw [hchunks, List.flatMap_append, List.flatMap_singleton, hsecond, ← List.append_assoc,
    List.append_cancel_right_eq] at hafter'
  rw [List.flatMap_append, List.flatMap_singleton, hlines, ← List.append_assoc,
    ← List.flatMap_singleton Chunk.patchLines shorter, ← List.flatMap_append]
  refine Text.pairwise_concat (forall_patchLines ?_ ?_) last
  · rw [List.flatMap_append, List.flatMap_singleton, hbefore']
    exact hbefore
  · rw [List.flatMap_append, List.flatMap_singleton, hafter']
    exact hafter

theorem pairwise_compare_common_last
    (hbefore : ∀ text ∈ before, P text) (hafter : ∀ text ∈ after, P text)
    {last : α} (hlast : ¬ P last) :
    ((compare (before ++ [last]) (after ++ [last])).flatMap Chunk.patchLines).Pairwise
      fun line _ => P line.text := by
  obtain ⟨init, lines, hchunks⟩ := compare_common_last
    (fun hmem => hlast (hbefore last hmem)) (fun hmem => hlast (hafter last hmem))
  rw [hchunks]
  exact @pairwise_compare_of_last α P _ before after hbefore hafter init _ (.same lines)
    (.kept last) hchunks rfl rfl (by simp [Chunk.patchLines])

theorem pairwise_compare_last_added
    (hbefore : ∀ text ∈ before, P text) (hafter : ∀ text ∈ after, P text)
    {last : α} (hlast : ¬ P last) :
    ((compare before (after ++ [last])).flatMap Chunk.patchLines).Pairwise
      fun line _ => P line.text := by
  obtain ⟨init, removed, added, hchunks⟩ := @compare_last_added α _ before after last
    (fun hmem => hlast (hbefore last hmem))
  rw [hchunks]
  exact @pairwise_compare_of_last α P _ before after hbefore hafter init _ (.change removed added)
    (.added last) (by rwa [Line.before, List.append_nil]) (by simp [Chunk.before, Line.before]) rfl
    (by simp [Chunk.patchLines])

/-- A last line that lacks the property and is removed is the last line of the comparison, unless
a line is added after it. -/
theorem pairwise_compare_last_removed
    (hbefore : ∀ text ∈ before, P text) (hafter : ∀ text ∈ after, P text)
    {init : List (Chunk α)} {removed : List α} {last : α}
    (hchunks : compare (before ++ [last]) after = init ++ [.change (removed ++ [last]) []]) :
    ((compare (before ++ [last]) after).flatMap Chunk.patchLines).Pairwise
      fun line _ => P line.text := by
  rw [hchunks]
  exact @pairwise_compare_of_last α P _ before after hbefore hafter init _ (.change removed [])
    (.removed last) (by rwa [Line.after, List.append_nil]) rfl (by simp [Chunk.after, Line.after])
    (by simp [Chunk.patchLines])

end Compare

theorem flatMap_linesOf (text : String) : (linesOf text).flatMap String.toList = text.toList := by
  unfold linesOf
  rw [List.flatMap_map]
  simp only [String.toList_ofList]
  rw [List.flatMap_id', Text.flatten_splitLines]

theorem map_content_linesOf (text : String) :
    (linesOf text).map content = (Text.splitLines text.toList).map Text.lineContent := by
  simp [linesOf, content, Function.comp_def]

theorem hunks_compare_ne_nil {before after : String} (hne : before ≠ after) :
    hunks (compare (linesOf before) (linesOf after)) ≠ [] := by
  intro hnone
  have hleads := leads_hunks (compare (linesOf before) (linesOf after))
  rw [hnone, flatMap_before_compare, flatMap_after_compare] at hleads
  have htext := congrArg (fun lines => lines.flatMap String.toList) (Option.some.inj hleads)
  rw [flatMap_linesOf, flatMap_linesOf, String.toList_inj] at htext
  exact hne htext

theorem unified_self (path text : String) : unified path text text = "" := by
  have hnone : hunks (compare (linesOf text) (linesOf text)) = [] := by
    rw [compare_self]
    split
    next => rfl
    next => exact hunks_same _
  unfold unified
  rw [hnone]

theorem singleLine_of_mem_linesOf {text line : String} (hline : line ∈ linesOf text) :
    Text.SingleLine line.toList := by
  obtain ⟨chars, hchars, rfl⟩ := List.mem_map.mp hline
  rw [String.toList_ofList]
  exact Text.singleLine_of_mem_splitLines hchars

/-- The hunks apply to the lines of the first text without their endings. -/
theorem apply_contents (before after : String) :
    Patch.applyFrom 0 0 ((hunks (compare (linesOf before) (linesOf after))).map Hunk.contents)
      ((Text.splitLines before.toList).map Text.lineContent) =
      some ((Text.splitLines after.toList).map Text.lineContent) := by
  have hleads := leads_hunks (compare (linesOf before) (linesOf after))
  rw [flatMap_before_compare, flatMap_after_compare] at hleads
  have happly := Patch.applyFrom_map hleads content
  rwa [List.map_map, map_content_linesOf, map_content_linesOf] at happly

theorem singleLine_of_mem_shown
    {before after : String} {line : Line String}
    (hline : line ∈ (hunks (compare (linesOf before) (linesOf after))).flatMap (·.patch.body)) :
    Text.SingleLine line.text.toList := by
  refine @forall_patchLines String (fun text => Text.SingleLine text.toList)
    (compare (linesOf before) (linesOf after)) ?_ ?_ line ((flatMap_hunks_sublist _).subset hline)
  · rw [flatMap_before_compare]
    exact fun _ => singleLine_of_mem_linesOf
  · rw [flatMap_after_compare]
    exact fun _ => singleLine_of_mem_linesOf

theorem flatMap_written (shown : List (Hunk String)) :
    ((shown.map Hunk.shown).flatMap fun hunk =>
        hunk.1 :: hunk.2.map fun line => (line.map content).written) =
      Patch.writtenHunks (shown.map Hunk.contents) := by
  unfold Patch.writtenHunks
  rw [List.flatMap_map, List.flatMap_map]
  apply List.flatMap_congr
  intro hunk _
  simp [Hunk.shown, Hunk.contents, Patch.Hunk.map]

/-- If only the last line of the comparison may be left open, the diff reads as its hunks. -/
theorem read_unified
    {path before after : String} (hpath : '\n' ∉ path.toList) (hne : before ≠ after)
    (hfed : ((compare (linesOf before) (linesOf after)).flatMap Chunk.patchLines).Pairwise
      fun line _ => Text.Fed line.text.toList) :
    Patch.read (unified path before after).toList =
      some ⟨("a/" ++ path).toList, ("b/" ++ path).toList,
        (hunks (compare (linesOf before) (linesOf after))).map Hunk.contents⟩ := by
  have hshown : Readable ((hunks (compare (linesOf before) (linesOf after))).map Hunk.shown) := by
    refine ⟨?_, ?_, ?_, ?_⟩
    · rw [List.forall_mem_map]
      exact fun hunk _ => hunk.contents.feed_notMem_header
    · rw [List.forall_mem_map]
      exact fun hunk => body_patch_ne_nil_of_mem_hunks (nil_notMem_chunks _ _)
    · rw [List.flatMap_map]
      exact fun line => singleLine_of_mem_shown
    · rw [List.flatMap_map]
      exact List.Pairwise.sublist (flatMap_hunks_sublist _) hfed
  have hread := Patch.readFrom_hunks
    ((hunks (compare (linesOf before) (linesOf after))).map Hunk.contents) []
  rw [List.append_nil] at hread
  rw [toList_unified (hunks_compare_ne_nil hne), hshown.read_pieces hpath, flatMap_written, hread]
  simp [Patch.readFrom]

theorem isPatch_iff_of_read
    {path before after text : String} {hunks : List (Patch.Hunk (List Char))}
    (hread : Patch.read text.toList =
      some ⟨("a/" ++ path).toList, ("b/" ++ path).toList, hunks⟩) :
    IsPatch path before after text ↔
      Patch.applyFrom 0 0 hunks (before.toList.splitOn '\n') =
        some (after.toList.splitOn '\n') := by
  constructor
  · rintro ⟨patch, hpatch, -, -, happly⟩
    cases hread.symm.trans hpatch
    exact happly
  · exact fun happly => ⟨_, hread, rfl, rfl, happly⟩

theorem not_isPatch_of_read
    {path before after text : String} (hread : (Patch.read text.toList).isNone = true) :
    ¬ IsPatch path before after text := by
  rintro ⟨patch, hpatch, -⟩
  rw [hpatch] at hread
  cases hread

/-! ## Lines that run into each other -/

theorem pairwise_linesOf {text : String} (hends : Text.EndsInFeeds text.toList) :
    (linesOf text).Pairwise fun line _ => Text.Fed line.toList := by
  unfold linesOf
  rw [List.pairwise_map]
  simpa using hends.pairwise

/-- What is read of a last change: a line that is left open and removed runs into the line that is
added after it, so the two read as one removed line. -/
def joinedBody (earlier : List (Line String)) (last next : String) (added : List String) :
    List (Line String) :=
  earlier ++ Line.removed (last ++ "+" ++ next) :: added.map Line.added

theorem flatMap_printed_joinedBody
    (earlier : List (Line String)) (last next : String) (added : List String) :
    (joinedBody earlier last next added).flatMap printed = (earlier ++
      Line.removed last :: Line.added next :: added.map Line.added).flatMap printed := by
  simp [joinedBody, printed, Line.sign, Line.text]

theorem pairwise_joinedBody
    {earlier : List (Line String)} {last next : String} {added : List String}
    (hearlier : ∀ line ∈ earlier, Text.Fed line.text.toList) (hlast : '\n' ∉ last.toList)
    (hadded : (next :: added).Pairwise fun text _ => Text.Fed text.toList) :
    (joinedBody earlier last next added).Pairwise fun line _ => Text.Fed line.text.toList := by
  obtain ⟨hnext, hadded⟩ := List.pairwise_cons.mp hadded
  refine List.pairwise_append.mpr ⟨?_, List.pairwise_cons.mpr ⟨?_, ?_⟩, ?_⟩
  · exact List.pairwise_of_forall_mem_list fun line hline _ _ => hearlier line hline
  · intro line hline
    obtain ⟨text, htext, rfl⟩ := List.mem_map.mp hline
    have hjoined := @Text.fed_append (last.toList ++ ['+']) next.toList (by simp [hlast])
      (hnext text htext)
    simpa [Line.text] using hjoined
  · exact List.pairwise_map.mpr hadded
  · exact fun line hline _ _ => hearlier line hline

theorem singleLine_of_mem_joinedBody
    {earlier : List (Line String)} {last next : String} {added : List String}
    (hearlier : ∀ line ∈ earlier, Text.Fed line.text.toList) (hlast : '\n' ∉ last.toList)
    (hadded : ∀ text ∈ next :: added, Text.SingleLine text.toList)
    {line : Line String} (hline : line ∈ joinedBody earlier last next added) :
    Text.SingleLine line.text.toList := by
  rcases List.mem_append.mp hline with hline | hline
  · exact Or.inl (hearlier line hline)
  · rcases List.mem_cons.mp hline with rfl | hline
    · have hjoined := @Text.singleLine_append (last.toList ++ ['+']) next.toList (by simp [hlast])
        (hadded next List.mem_cons_self)
      simpa [Line.text] using hjoined
    · obtain ⟨text, htext, rfl⟩ := List.mem_map.mp hline
      exact hadded text (List.mem_cons_of_mem _ htext)

section Joined

variable {before after : String} {init : List (Chunk String)} {removed added : List String}
  {last next : String}

/-- The open line and the one after it stand in the last hunk, after lines with line feeds. -/
theorem exists_last_hunk
    (hbefore : Text.EndsInFeeds before.toList) (hafter : Text.EndsInFeeds after.toList)
    (hchunks : compare (linesOf before) (linesOf after) =
      init ++ [.change (removed ++ [last]) (next :: added)]) :
    ∃ front hunk rest, hunks (compare (linesOf before) (linesOf after)) = front ++ [hunk] ∧
      hunk.patch.body = rest ++ Line.removed last :: Line.added next :: added.map Line.added ∧
      ∀ line ∈ front.flatMap (·.patch.body) ++ rest, Text.Fed line.text.toList := by
  have hfirst := pairwise_linesOf hbefore
  have hsecond := pairwise_linesOf hafter
  rw [← flatMap_before_compare (linesOf before) (linesOf after), hchunks, List.flatMap_append,
    List.flatMap_singleton, Chunk.before, ← List.append_assoc, List.pairwise_append] at hfirst
  rw [← flatMap_after_compare (linesOf before) (linesOf after), hchunks, List.flatMap_append,
    List.flatMap_singleton, Chunk.after, List.pairwise_append] at hsecond
  have hfed : ∀ text ∈ init.flatMap Chunk.before ++ removed, Text.Fed text.toList :=
    fun text htext => hfirst.2.2 text htext last (List.mem_singleton_self last)
  have hinit : ∀ line ∈ init.flatMap Chunk.patchLines, Text.Fed line.text.toList :=
    @forall_patchLines String (fun text => Text.Fed text.toList) init
      (fun text htext => hfed text (List.mem_append_left _ htext))
      (fun text htext => hsecond.2.2 text htext next List.mem_cons_self)
  obtain ⟨front, start, start', earlier, hhunks⟩ :=
    hunks_concat_change init (removed ++ [last]) (next :: added)
  have hshown := flatMap_hunks_sublist (init ++ [.change (removed ++ [last]) (next :: added)])
  rw [hhunks, List.flatMap_append, List.flatMap_append, List.flatMap_singleton,
    List.flatMap_singleton, Hunk.patch, List.flatMap_append, List.flatMap_singleton,
    ← List.append_assoc, List.append_sublist_append_right] at hshown
  rw [← hchunks] at hhunks
  refine ⟨front, _, earlier.flatMap Chunk.patchLines ++ removed.map Line.removed, hhunks, ?_, ?_⟩
  · simp [Hunk.patch, Chunk.patchLines]
  · intro line hline
    rw [← List.append_assoc, List.mem_append] at hline
    rcases hline with hline | hline
    · exact hinit line (hshown.subset hline)
    · obtain ⟨text, htext, rfl⟩ := List.mem_map.mp hline
      exact hfed text (List.mem_append_right _ htext)

/-- A hunk whose open line runs into the next one, as it is printed. -/
def Hunk.joined (hunk : Hunk String) (rest : List (Line String)) (last next : String)
    (added : List String) : ShownHunk :=
  (hunk.contents.header, joinedBody rest last next added)

variable {front : List (Hunk String)} {hunk : Hunk String} {rest : List (Line String)}

theorem Hunk.flatten_pieces_joined
    (hbody : hunk.patch.body =
      rest ++ Line.removed last :: Line.added next :: added.map Line.added) :
    (hunk.joined rest last next added).pieces.flatten = hunk.shown.pieces.flatten := by
  rw [ShownHunk.pieces, ShownHunk.pieces, List.flatten_cons, List.flatten_cons,
    ← List.flatMap_def, ← List.flatMap_def, Hunk.joined, flatMap_printed_joinedBody, Hunk.shown,
    hbody]

/-- The header counts one line more than is there. -/
theorem Hunk.readFrom_joined
    (hbody : hunk.patch.body =
      rest ++ Line.removed last :: Line.added next :: added.map Line.added) :
    Patch.readFrom 0 0 ((hunk.joined rest last next added).1 ::
      (hunk.joined rest last next added).2.map fun line => (line.map content).written) = none := by
  have hbefore : hunk.contents.before.length =
      (((joinedBody rest last next added).map (Line.map content)).flatMap Line.before).length := by
    rw [Hunk.contents, Patch.Hunk.before_map, Line.flatMap_before_map, List.length_map,
      List.length_map, Patch.Hunk.before, hbody]
    simp [joinedBody, Line.before]
  have hafter : hunk.contents.after.length =
      (((joinedBody rest last next added).map (Line.map content)).flatMap Line.after).length +
        1 := by
    rw [Hunk.contents, Patch.Hunk.after_map, Line.flatMap_after_map, List.length_map,
      List.length_map, Patch.Hunk.after, hbody]
    simp [joinedBody, Line.after, Nat.add_assoc]
  have hshort := Patch.readFrom_short hbefore hafter
  rwa [List.map_map] at hshort

theorem readable_joined
    (hafter : Text.EndsInFeeds after.toList) (hadded : (next :: added).Sublist (linesOf after))
    (hlast : '\n' ∉ last.toList) (hbodies : ∀ hunk ∈ front, hunk.patch.body ≠ [])
    (hfed : ∀ line ∈ front.flatMap (·.patch.body) ++ rest, Text.Fed line.text.toList) :
    Readable (front.map Hunk.shown ++ [hunk.joined rest last next added]) := by
  have hlines : (front.map Hunk.shown ++ [hunk.joined rest last next added]).flatMap (·.2) =
      joinedBody (front.flatMap (·.patch.body) ++ rest) last next added := by
    simp [Hunk.joined, joinedBody, List.flatMap_map, Hunk.shown]
  refine ⟨?_, ?_, ?_, ?_⟩
  · simp only [List.forall_mem_append, List.forall_mem_map, List.forall_mem_singleton]
    exact ⟨fun hunk _ => hunk.contents.feed_notMem_header, hunk.contents.feed_notMem_header⟩
  · simp only [List.forall_mem_append, List.forall_mem_map, List.forall_mem_singleton]
    exact ⟨hbodies, by simp [Hunk.joined, joinedBody]⟩
  · rw [hlines]
    exact fun line => singleLine_of_mem_joinedBody hfed hlast
      fun text htext => singleLine_of_mem_linesOf (hadded.subset htext)
  · rw [hlines]
    exact pairwise_joinedBody hfed hlast ((pairwise_linesOf hafter).sublist hadded)

/-- If a line is added after a last line that is left open and removed, the diff is no patch. -/
theorem read_joined
    {path : String} (hpath : '\n' ∉ path.toList)
    (hbefore : Text.EndsInFeeds before.toList) (hafter : Text.EndsInFeeds after.toList)
    (hchunks : compare (linesOf before) (linesOf after) =
      init ++ [.change (removed ++ [last]) (next :: added)])
    (hlast : '\n' ∉ last.toList) :
    Patch.read (unified path before after).toList = none := by
  obtain ⟨front, hunk, rest, hhunks, hbody, hfed⟩ := exists_last_hunk hbefore hafter hchunks
  have hadded : (next :: added).Sublist (linesOf after) := by
    rw [← flatMap_after_compare (linesOf before) (linesOf after), hchunks, List.flatMap_append,
      List.flatMap_singleton, Chunk.after]
    exact List.sublist_append_right _ _
  have hbodies : ∀ hunk ∈ front, hunk.patch.body ≠ [] := by
    intro hunk hhunk
    have hmem : hunk ∈ hunks (compare (linesOf before) (linesOf after)) :=
      hhunks ▸ List.mem_append_left _ hhunk
    exact body_patch_ne_nil_of_mem_hunks (nil_notMem_chunks _ _) hmem
  have htext : (unified path before after).toList =
      (pieces path (front.map Hunk.shown ++ [hunk.joined rest last next added])).flatten := by
    rw [toList_unified (by simp [hhunks]), hhunks]
    simp [pieces, Hunk.flatten_pieces_joined hbody]
  rw [htext, (readable_joined hafter hadded hlast hbodies hfed).read_pieces hpath,
    List.flatMap_append, flatMap_written, Patch.readFrom_hunks, List.flatMap_singleton,
    Hunk.readFrom_joined hbody]
  rfl

end Joined

/-! ## Texts with the same last line -/

/-- The piece that a text has after its last line if nothing is left open. -/
def emptyPiece (tail : List Char) : List (List Char) := if tail = [] then [[]] else []

theorem splitOn_eq_append_emptyPiece
    {text : List Char} {lines : List (List Char)} {tail : List Char} (htail : '\n' ∉ tail)
    (hsplit : Text.splitLines text = lines ++ Text.openLine tail)
    (hcut : text.splitOn '\n' = lines.map Text.lineContent ++ [tail]) :
    text.splitOn '\n' = (Text.splitLines text).map Text.lineContent ++ emptyPiece tail := by
  rw [hcut, hsplit]
  unfold Text.openLine emptyPiece
  split
  next hnil => simp [hnil]
  next => simp [Text.lineContent_of_notMem htail]

section Endings

variable {before after : String} {lines lines' : List (List Char)} {tail tail' : List Char}

/-- Either only the last line of the comparison is left open, or a line is added after an open one
that is removed. -/
theorem pairwise_or_joined
    (hlines : ∀ line ∈ lines, Text.Fed line) (htail : '\n' ∉ tail)
    (hsplit : Text.splitLines before.toList = lines ++ Text.openLine tail)
    (hlines' : ∀ line ∈ lines', Text.Fed line) (htail' : '\n' ∉ tail')
    (hsplit' : Text.splitLines after.toList = lines' ++ Text.openLine tail') :
    ((compare (linesOf before) (linesOf after)).flatMap Chunk.patchLines).Pairwise
        (fun line _ => Text.Fed line.text.toList) ∧ (tail = tail' ∨ tail = [] ∨ tail' = []) ∨
      tail ≠ tail' ∧ ∃ init removed next added, compare (linesOf before) (linesOf after) =
        init ++ [.change (removed ++ [String.ofList tail]) (next :: added)] := by
  have hfed : ∀ lines : List (List Char), (∀ line ∈ lines, Text.Fed line) →
      ∀ text ∈ lines.map String.ofList, Text.Fed text.toList := by
    intro lines hlines text htext
    obtain ⟨chars, hchars, rfl⟩ := List.mem_map.mp htext
    rw [String.toList_ofList]
    exact hlines chars hchars
  have hopen : ∀ tail : List Char, '\n' ∉ tail → ¬ Text.Fed (String.ofList tail).toList := by
    rintro tail htail ⟨content, -, hcontent⟩
    rw [String.toList_ofList] at hcontent
    exact htail (by simp [hcontent])
  have hnotMem : ∀ {lines : List (List Char)} {tail : List Char}, (∀ line ∈ lines, Text.Fed line) →
      '\n' ∉ tail → String.ofList tail ∉ lines.map String.ofList :=
    fun hlines htail hmem => hopen _ htail (hfed _ hlines _ hmem)
  unfold linesOf
  rw [hsplit, hsplit', List.map_append, List.map_append]
  unfold Text.openLine
  by_cases hnil : tail = []
  · left
    rw [if_pos hnil, List.map_nil, List.append_nil]
    by_cases hnil' : tail' = []
    · rw [if_pos hnil', List.map_nil, List.append_nil]
      exact ⟨pairwise_compare (hfed lines hlines) (hfed lines' hlines'), Or.inr (Or.inl hnil)⟩
    · rw [if_neg hnil', List.map_singleton]
      exact ⟨pairwise_compare_last_added (hfed lines hlines) (hfed lines' hlines')
        (hopen tail' htail'), Or.inr (Or.inl hnil)⟩
  · rw [if_neg hnil, List.map_singleton]
    by_cases hnil' : tail' = []
    · rw [if_pos hnil', List.map_nil, List.append_nil]
      obtain ⟨init, removed, added, hchunks⟩ :=
        @compare_last_removed String _ (lines.map String.ofList) _ _ (hnotMem hlines' htail)
      cases added with
      | nil =>
          exact Or.inl ⟨pairwise_compare_last_removed (hfed lines hlines) (hfed lines' hlines')
            hchunks, Or.inr (Or.inr hnil')⟩
      | cons next added =>
          exact Or.inr ⟨fun heq => hnil (heq.trans hnil'), init, removed, next, added, hchunks⟩
    · rw [if_neg hnil', List.map_singleton]
      by_cases heq : tail = tail'
      · subst heq
        exact Or.inl ⟨pairwise_compare_common_last (hfed lines hlines) (hfed lines' hlines')
          (hopen tail htail), Or.inl rfl⟩
      · -- both last lines are left open, so one gives way to the other
        have hne : String.ofList tail ≠ String.ofList tail' := by
          rw [Ne, String.ofList_inj]
          exact heq
        refine Or.inr ⟨heq, compare_last_replaced ?_ ?_⟩
        · rw [List.mem_append, List.mem_singleton, not_or]
          exact ⟨hnotMem hlines htail', hne.symm⟩
        · rw [List.mem_append, List.mem_singleton, not_or]
          exact ⟨hnotMem hlines' htail, hne⟩

end Endings

/-- The diff of equal texts is empty.  The diff of two other texts whose lines end in line feeds is
a patch that leads from one to the other if and only if what stands after the last line feed is the
same in both. -/
theorem unified_isPatch_iff (path before after : String) :
    (before = after → unified path before after = "") ∧
      ('\n' ∉ path.toList → Text.EndsInFeeds before.toList → Text.EndsInFeeds after.toList →
        before ≠ after →
        (IsPatch path before after (unified path before after) ↔
          (before.toList.splitOn '\n').getLast? = (after.toList.splitOn '\n').getLast?)) := by
  refine ⟨?_, fun hpath hbefore hafter hne => ?_⟩
  · rintro rfl
    exact unified_self path before
  obtain ⟨lines, tail, hlines, htail, hsplit, hcut⟩ := hbefore.exists_openLine
  obtain ⟨lines', tail', hlines', htail', hsplit', hcut'⟩ := hafter.exists_openLine
  have hlast : (before.toList.splitOn '\n').getLast? = (after.toList.splitOn '\n').getLast? ↔
      tail = tail' := by
    rw [hcut, hcut', List.getLast?_concat, List.getLast?_concat, Option.some.injEq]
  rw [hlast]
  rcases pairwise_or_joined hlines htail hsplit hlines' htail' hsplit' with
    ⟨hfed, hends⟩ | ⟨hdiffer, init, removed, next, added, hchunks⟩
  · have hread := read_unified hpath hne hfed
    have happly := Patch.applyFrom_append (apply_contents before after) (emptyPiece tail)
    rw [← splitOn_eq_append_emptyPiece htail hsplit hcut] at happly
    rw [isPatch_iff_of_read hread, happly, Option.some.injEq,
      splitOn_eq_append_emptyPiece htail' hsplit' hcut', List.append_cancel_left_eq]
    rcases hends with rfl | rfl | rfl
    · simp
    · by_cases hnil : tail' = [] <;> simp [emptyPiece, hnil, eq_comm]
    · by_cases hnil : tail = [] <;> simp [emptyPiece, hnil]
  · have hnone := read_joined hpath hbefore hafter hchunks (by rwa [String.toList_ofList])
    exact iff_of_false (not_isPatch_of_read (by rw [hnone, Option.isNone_none])) hdiffer

theorem unified_isPatch_iff_of_open_lines :
    Text.EndsInFeeds "a\r\nb\nc".toList ∧ Text.EndsInFeeds "a\r\nx\nc".toList ∧
      IsPatch "x.rb" "a\r\nb\nc" "a\r\nx\nc" (unified "x.rb" "a\r\nb\nc" "a\r\nx\nc") :=
  ⟨by decide, by decide,
    ((unified_isPatch_iff "x.rb" "a\r\nb\nc" "a\r\nx\nc").2 (by decide) (by decide) (by decide)
      (by decide)).mpr (by decide)⟩

/-- Without a last line feed, with lines that end in a carriage return, or with a line feed in the
path, the diff is no patch. -/
theorem unified_not_isPatch :
    unified "x.rb" "a" "b" = "--- a/x.rb\n+++ b/x.rb\n@@ -1 +1 @@\n-a+b" ∧
      ¬ IsPatch "x.rb" "a" "b" (unified "x.rb" "a" "b") ∧
      ¬ IsPatch "x.rb" "a\rb\n" "a\rc\n" (unified "x.rb" "a\rb\n" "a\rc\n") ∧
      ¬ IsPatch "x\ny" "a\n" "b\n" (unified "x\ny" "a\n" "b\n") :=
  ⟨by decide +kernel, not_isPatch_of_read (by decide +kernel),
    not_isPatch_of_read (by decide +kernel), not_isPatch_of_read (by decide +kernel)⟩

end RubyLint.Diff
