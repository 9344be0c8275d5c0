import RubyLint.Proofs.TargetRuns
import Mathlib.Tactic

/-!
# Lines that no edit touches

A file is read, fixed in several passes and written again.  A stretch of bytes that the edits of a
pass leave alone stands in the result, moved by what the edits in front of it add or take away; and
from pass to pass it stands in the last text.  So a line that no edit touches is written back.  Its
terminator is another matter, since reading turns every terminator into a line feed: the line comes
back with the same bytes exactly if it ends with a line feed or with the file.
-/

namespace RubyLint

open Text

/-! ## The lines of a file -/

namespace Text

/-- The lines of a file, each with its terminator: a line feed, a carriage return or both. -/
def fileLines : List Char → List (List Char)
  | [] => []
  | '\r' :: '\n' :: rest => ['\r', '\n'] :: fileLines rest
  | c :: rest =>
    if c == '\n' || c == '\r' then [c] :: fileLines rest else consToFirst c (fileLines rest)

/-- A line consists of a text without line breaks and a terminator, which the last one may lack. -/
structure IsLine (line body ending : List Char) : Prop where
  eq : line = body ++ ending
  ne_nil : line ≠ []
  lineFeed : '\n' ∉ body
  carriageReturn : '\r' ∉ body
  ending : ending ∈ [[], ['\n'], ['\r'], ['\r', '\n']]

theorem IsLine.cons
    {c : Char} {line body ending : List Char} (hc : c ≠ '\n' ∧ c ≠ '\r')
    (hline : IsLine line body ending) : IsLine (c :: line) (c :: body) ending where
  eq := by rw [hline.eq, List.cons_append]
  ne_nil := List.cons_ne_nil c line
  lineFeed := by simp [Ne.symm hc.1, hline.lineFeed]
  carriageReturn := by simp [Ne.symm hc.2, hline.carriageReturn]
  ending := hline.ending

theorem exists_isLine_of_mem_fileLines
    {text line : List Char} (hline : line ∈ fileLines text) :
    ∃ body ending, IsLine line body ending := by
  fun_induction fileLines text generalizing line with
  | case1 => simp at hline
  | case2 rest ih =>
      rcases List.mem_cons.mp hline with rfl | hline
      · exact ⟨[], ['\r', '\n'], rfl, by simp, by simp, by simp, by simp⟩
      · exact ih hline
  | case3 c rest _ hc ih =>
      rcases List.mem_cons.mp hline with rfl | hline
      · refine ⟨[], [c], rfl, by simp, by simp, by simp, ?_⟩
        simp only [Bool.or_eq_true, beq_iff_eq] at hc
        rcases hc with rfl | rfl <;> simp
      · exact ih hline
  | case4 c rest _ hc ih =>
      simp only [Bool.or_eq_true, beq_iff_eq, not_or] at hc
      cases hrest : fileLines rest with
      | nil =>
          rw [hrest, consToFirst, List.mem_singleton] at hline
          subst hline
          exact ⟨[c], [], rfl, by simp, by simp [Ne.symm hc.1], by simp [Ne.symm hc.2], by simp⟩
      | cons first others =>
          rw [hrest] at hline ih
          rcases List.mem_cons.mp hline with rfl | hline
          · obtain ⟨body, ending, hfirst⟩ := ih List.mem_cons_self
            exact ⟨c :: body, ending, hfirst.cons hc⟩
          · exact ih (List.mem_cons_of_mem _ hline)

theorem unifyNewlineChars_cons
    {c : Char} (hc : c ≠ '\n' ∧ c ≠ '\r') (rest : List Char) :
    unifyNewlineChars (c :: rest) = c :: unifyNewlineChars rest := by
  rw [unifyNewlineChars]
  · rintro _ rfl
    exact absurd rfl hc.2
  · exact hc.2

theorem IsLine.unifyNewlineChars_eq
    {line body ending : List Char} (hline : IsLine line body ending) :
    unifyNewlineChars line = body ++ if ending = [] then [] else ['\n'] := by
  obtain ⟨rfl, -, hfeed, hreturn, hending⟩ := hline
  induction body with
  | nil =>
      simp only [List.mem_cons, List.not_mem_nil, or_false] at hending
      rcases hending with rfl | rfl | rfl | rfl <;> rfl
  | cons c body ih =>
      simp only [List.mem_cons, not_or] at hfeed hreturn
      rw [List.cons_append, unifyNewlineChars_cons ⟨Ne.symm hfeed.1, Ne.symm hreturn.1⟩,
        ih hfeed.2 hreturn.2, List.cons_append]

theorem IsLine.unifyNewlineChars_ne_nil
    {line body ending : List Char} (hline : IsLine line body ending) :
    unifyNewlineChars line ≠ [] := by
  rw [hline.unifyNewlineChars_eq]
  intro hnil
  obtain ⟨rfl, hending⟩ := List.append_eq_nil_iff.mp hnil
  split at hending
  next hnone => exact hline.ne_nil (by rw [hline.eq, hnone]; rfl)
  next => cases hending

theorem encode_ne_nil {text : List Char} (htext : text ≠ []) : encode text ≠ [] := by
  cases text with
  | nil => exact absurd rfl htext
  | cons c rest => simp [String.utf8EncodeChar_ne_nil]

theorem flatMap_consToFirst
    {c : Char} (hc : c ≠ '\n' ∧ c ≠ '\r') (lines : List (List Char)) :
    (consToFirst c lines).flatMap unifyNewlineChars = c :: lines.flatMap unifyNewlineChars := by
  cases lines with
  | nil => simp [consToFirst, unifyNewlineChars_cons hc, unifyNewlineChars]
  | cons line lines => simp [consToFirst, unifyNewlineChars_cons hc]

/-- Unifying the terminators of a file does so line by line. -/
theorem unifyNewlineChars_eq_flatMap (text : List Char) :
    unifyNewlineChars text = (fileLines text).flatMap unifyNewlineChars := by
  fun_induction fileLines text with
  | case1 => rfl
  | case2 rest ih =>
      rw [unifyNewlineChars, ih]
      rfl
  | case3 c rest hpair hc ih =>
      have hunified : unifyNewlineChars (c :: rest) = '\n' :: unifyNewlineChars rest := by
        simp only [Bool.or_eq_true, beq_iff_eq] at hc
        rcases hc with rfl | rfl
        · rw [unifyNewlineChars]
          · simp
          · simp
        · rw [unifyNewlineChars]
          intro rest' hrest'
          exact hpair rest' rfl hrest'
      have hline : unifyNewlineChars [c] = ['\n'] := by
        simp only [Bool.or_eq_true, beq_iff_eq] at hc
        rcases hc with rfl | rfl <;> rfl
      rw [hunified, List.flatMap_cons, hline, ih]
      rfl
  | case4 c rest _ hc ih =>
      simp only [Bool.or_eq_true, beq_iff_eq, not_or] at hc
      rw [unifyNewlineChars_cons hc, ih, flatMap_consToFirst hc]

end Text

/-! ## One pass -/

namespace Edit

/-- The edit stays on one side of the bytes between `start` and `stop` of a text of `size` bytes. -/
def LeavesAlone (size start stop : Nat) (edit : Edit) : Prop :=
  (clampOffset size edit.start ≤ start ∧ clampOffset size edit.stop ≤ start) ∨
    (stop ≤ clampOffset size edit.start ∧ stop ≤ clampOffset size edit.stop)

instance (size start stop : Nat) (edit : Edit) : Decidable (edit.LeavesAlone size start stop) :=
  inferInstanceAs (Decidable (_ ∨ _))

/-- Where a byte at `offset` that the edits leave alone comes to stand when they are put in from
`cursor` on. -/
def moved (size : Nat) (cursor : Int) (offset : Nat) : List Edit → Nat
  | [] => offset - clampOffset size cursor
  | edit :: rest =>
    if offset < clampOffset size edit.start then offset - clampOffset size cursor
    else (clampOffset size edit.start - clampOffset size cursor) +
      (bytes edit.replacement).length + moved size edit.stop offset rest

theorem clampOffset_le (size : Nat) (offset : Int) : clampOffset size offset ≤ size := by
  unfold clampOffset
  split <;> omega

theorem splice_keeps
    {data piece : List UInt8} {offset : Nat} (hpiece : piece ≠ [])
    (hdata : piece <+: data.drop offset) {cursor : Int} {edits : List Edit}
    (hcursor : clampOffset data.length cursor ≤ offset)
    (hedits : ∀ edit ∈ edits, edit.LeavesAlone data.length offset (offset + piece.length)) :
    piece <+: (splice data cursor edits).drop (moved data.length cursor offset edits) := by
  induction edits generalizing cursor with
  | nil =>
      rw [splice, moved, sliceFrom, List.drop_drop, Nat.add_sub_cancel' hcursor]
      exact hdata
  | cons edit rest ih =>
      rw [splice, moved]
      have hlength := clampOffset_le data.length edit.start
      rcases hedits edit (by simp) with ⟨hstart, hstop⟩ | ⟨hstart, hstop⟩
      · have hkept : (slice data cursor edit.start).length =
            clampOffset data.length edit.start - clampOffset data.length cursor := by
          simp [slice]
          omega
        rw [if_neg (by omega), ← hkept, ← List.length_append, ← List.drop_drop, List.drop_left]
        exact ih hstop fun other hother => hedits other (by simp [hother])
      · have hpos := List.length_pos_of_ne_nil hpiece
        have hkept : offset - clampOffset data.length cursor ≤
            (slice data cursor edit.start).length := by
          simp [slice]
          omega
        rw [if_pos (by omega), List.append_assoc, List.drop_append_of_le_length hkept]
        refine List.IsPrefix.trans ?_ (List.prefix_append _ _)
        rw [slice, List.drop_drop, Nat.add_sub_cancel' hcursor, List.drop_take,
          List.prefix_take_iff]
        exact ⟨hdata, by omega⟩

end Edit

/-- The edits that are applied to fix the issues, in order. -/
def Issue.applied (issues : List Issue) : List Edit :=
  Edit.applicable 0 (Edit.inOrder (Issue.edits issues))

theorem bytes_of_applyFixes
    {source text : String} {issues : List Issue}
    (happly : (applyFixes source issues).outcome = .ok text) :
    bytes text = Edit.splice (bytes source) 0 (Issue.applied issues) := by
  rw [applyFixes_eq_applyAll] at happly
  exact Edit.applyAll_outcome_eq_ok_iff.mp happly

/-! ## All passes -/

namespace FixRun

/-- In the sequence of texts that a run has made, the edits between one text and the next leave a
stretch of `size` bytes alone that stands at `offset` of the first text. -/
def Untouched (analysis : Analysis) (size : Nat) :
    (earlier offset : Nat) → (texts : List String) → Prop
  | earlier, offset, text :: text' :: texts =>
    ∀ issues, (analysis earlier text).outcome = .ok issues →
      (∀ edit ∈ Issue.applied issues,
        edit.LeavesAlone (bytes text).length offset (offset + size)) ∧
      Untouched analysis size (earlier + 1)
        (Edit.moved (bytes text).length 0 offset (Issue.applied issues)) (text' :: texts)
  | _, _, _ => True

theorem applied_filter (issues : List Issue) :
    Issue.applied (issues.filter (·.autoFixable)) = Issue.applied issues := by
  unfold Issue.applied Issue.edits
  rw [List.filter_filter]
  simp only [Bool.and_self]

/-- What the edits of every pass leave alone stands in the last text. -/
theorem Untouched.isInfix
    {analysis : Analysis} {piece : List UInt8} (hpiece : piece ≠ []) {texts : List String}
    {earlier offset : Nat} {first last : String}
    (hsteps : ∀ k text text', texts[k]? = some text → texts[k + 1]? = some text' →
      ∃ issues, (analysis (earlier + k) text).outcome = .ok issues ∧
        (applyFixes text (issues.filter (·.autoFixable))).outcome = .ok text')
    (hfirst : texts.head? = some first) (hlast : texts.getLast? = some last)
    (hdata : piece <+: (bytes first).drop offset)
    (huntouched : Untouched analysis piece.length earlier offset texts) :
    piece <:+: bytes last := by
  induction texts generalizing earlier offset first with
  | nil => cases hfirst
  | cons text rest ih =>
      cases hfirst
      cases rest with
      | nil =>
          cases hlast
          exact hdata.isInfix.trans (List.drop_suffix _ _).isInfix
      | cons text' texts =>
          obtain ⟨issues, hissues, happly⟩ := hsteps 0 text text' rfl rfl
          obtain ⟨hedits, hrest⟩ := huntouched issues hissues
          have hbytes := bytes_of_applyFixes happly
          rw [applied_filter] at hbytes
          have hcursor : clampOffset (bytes text).length 0 ≤ offset := by simp [clampOffset]
          have hnext := Edit.splice_keeps hpiece hdata hcursor hedits
          rw [← hbytes] at hnext
          refine ih ?_ rfl (by simpa using hlast) hnext hrest
          intro k text text' htext htext'
          rw [Nat.add_assoc, Nat.add_comm 1 k]
          exact hsteps (k + 1) text text' htext htext'

end FixRun

open FileSystem CommandLine

/-! ## The file -/

namespace Engine

variable {engine : Engine} {rules : List Rule} {path : Path} {text : String} {run : FixRun}

theorem isInfix_of_untouched
    {before after : List (List Char)} {line : List Char}
    (hfix : (engine.fix rules path FixRun.defaultMaxPasses (unifyNewlines text)).outcome = .ok run)
    (hlines : fileLines text.toList = before ++ line :: after)
    (hline : unifyNewlineChars line ≠ [])
    (huntouched : FixRun.Untouched (engine.analysis rules path)
      (encode (unifyNewlineChars line)).length 0
      (encode (before.flatMap unifyNewlineChars)).length run.analysed) :
    encode (unifyNewlineChars line) <:+: bytes run.source := by
  obtain ⟨issues, hissues, hresume⟩ := FixRun.start_eq_ok_iff.mp hfix
  have haccounts := (FixRun.accounts_initial hissues).of_ends (FixRun.ends_of_resume hresume)
  have hbytes : bytes (unifyNewlines text) = encode (before.flatMap unifyNewlineChars) ++
      (encode (unifyNewlineChars line) ++ encode (after.flatMap unifyNewlineChars)) := by
    rw [bytes, unifyNewlines, String.toList_ofList, unifyNewlineChars_eq_flatMap, hlines,
      List.flatMap_append, List.flatMap_cons, encode_append, encode_append]
  refine huntouched.isInfix (encode_ne_nil hline) ?_ haccounts.first haccounts.last ?_
  · intro k text text' htext htext'
    rw [Nat.zero_add]
    exact (haccounts.step k text text' htext htext').2
  · rw [hbytes, List.drop_left]
    exact List.prefix_append _ _

end Engine

/-- When fixing rewrites a file, every line that no edit touches is written back with a line feed
for its terminator.  A line that ends with a line feed or with the file is therefore written back as
it was; one that ends with a carriage return is not, if no edit brings a carriage return in. -/
theorem fix_writes_untouched_lines
    {engine : Engine} {rules : List Rule} {files files' : FileSystem} {path : Path}
    {text source : String} {run : FixRun} {before after : List (List Char)} {line : List Char}
    (hread : files.read path = .ok (bytes text))
    (hfix : (engine.fixFile rules files path).outcome = .ok (source, run, files'))
    (hmodified : run.modified source = true)
    (hlines : fileLines text.toList = before ++ line :: after)
    (huntouched : FixRun.Untouched (engine.analysis rules path)
      (encode (unifyNewlineChars line)).length 0
      (encode (before.flatMap unifyNewlineChars)).length run.analysed) :
    (∀ progress : Progress, progress.files = files →
      (progress.lintTarget engine rules .fix path).files = files') ∧
    ∃ written body ending,
      files'.read path = .ok written ∧ IsLine line body ending ∧
      encode (body ++ if ending = [] then [] else ['\n']) <:+: written ∧
      ('\r' ∉ ending → encode line <:+: written) ∧
      ((∀ rule ∈ rules, rule.WritesUnified) → '\r' ∈ ending → ¬ encode line <:+: written) := by
  have hmem : line ∈ fileLines text.toList := by
    rw [hlines]
    simp
  obtain ⟨body, ending, hline⟩ := exists_isLine_of_mem_fileLines hmem
  obtain ⟨htext, hwritten⟩ := Engine.fixFile_eq_ok_iff.mp hfix
  obtain ⟨hsource, hrun⟩ := Engine.fixText_eq_ok_iff.mp htext
  have hsource' : files.readText path = .ok (unifyNewlines text) :=
    readText_eq_ok_iff.mpr ⟨text, hread, rfl⟩
  cases hsource.symm.trans hsource'
  have hstands := Engine.isInfix_of_untouched hrun hlines hline.unifyNewlineChars_ne_nil huntouched
  rw [hline.unifyNewlineChars_eq] at hstands
  rw [Engine.written, if_pos hmodified] at hwritten
  refine ⟨?_, bytes run.source, body, ending, read_writeText_self hwritten hread, hline, hstands,
    ?_, ?_⟩
  · rintro progress rfl
    rw [Progress.lintTarget_fix_of_ok hfix]
  · intro hreturn
    have hsame : body ++ (if ending = [] then [] else ['\n']) = line := by
      have hending := hline.ending
      simp only [List.mem_cons, List.not_mem_nil, or_false] at hending
      rw [hline.eq]
      rcases hending with rfl | rfl | rfl | rfl <;> simp_all
    rwa [hsame] at hstands
  · intro hrules hreturn hline'
    -- the written text has no carriage return, and the terminator has one
    have hunified := (Engine.unified_of_fix hrules (unified_unifyNewlines text) hrun).1
    have hmem' : (13 : UInt8) ∈ encode line := by
      rw [hline.eq, encode_append, List.mem_append]
      right
      exact List.mem_flatMap.mpr ⟨'\r', hreturn, carriageReturn_mem_utf8EncodeChar_iff.mpr rfl⟩
    exact unified_iff.mp hunified (hline'.subset hmem')

/-! ## A file with two kinds of terminators -/

/-- The tree of a text whose second line is a call of `gsub`. -/
def mixedTree : Node :=
  ⟨0, "program", 0, 21, true, false, false, none,
    [.leaf "identifier" 0 1 true none,
      ⟨0, "call", 2, 18, true, false, false, none,
        [.leaf "identifier" 2 3 true (some "receiver"), .leaf "." 3 4 false (some "operator"),
          .leaf "identifier" 4 8 true (some "method"),
          ⟨0, "argument_list", 8, 18, true, false, false, some "arguments",
            [.leaf "(" 8 9 false none, .leaf "string" 9 12 true none, .leaf "," 12 13 false none,
              .leaf "string" 14 17 true none, .leaf ")" 17 18 false none]⟩]⟩,
      .leaf "identifier" 19 20 true none]⟩

def mixedEngine : Engine := ⟨fun _ => mixedTree, []⟩

def mixedPath : Path := ⟨"", ["x.rb"]⟩

def mixedFiles : FileSystem where
  root := .directory [("work", .directory
    [("x.rb", .file (bytes "y\r\ns.gsub('a', 'b')\nz\n"))])]
  workingDirectory := ["work"]
  access _ := .full

def mixedIssue : Issue :=
  ⟨mixedPath, 2, 3, "P001", "Use `tr` instead of `gsub`.", .warning, true,
    some "gsub('a', 'b')", 4, 18, [⟨4, 18, "tr('a', 'b')"⟩]⟩

def mixedRun : FixRun :=
  (FixRun.initial "y\ns.gsub('a', 'b')\nz\n" [mixedIssue]).afterPass "y\ns.tr('a', 'b')\nz\n" []

theorem analyze_mixedFiles :
    (mixedEngine.analyze Registry.builtin.rules mixedPath "y\ns.gsub('a', 'b')\nz\n").outcome =
      .ok [mixedIssue] :=
  Engine.analyze_builtin_eq_ok_iff.mpr
    ⟨[mixedIssue], by decide +kernel, List.mergeSort_singleton mixedIssue⟩

theorem applied_mixedIssue : Issue.applied [mixedIssue] = mixedIssue.fixes := by
  have hordered : Edit.inOrder mixedIssue.fixes = mixedIssue.fixes := List.mergeSort_singleton _
  have hedits : Issue.edits [mixedIssue] = mixedIssue.fixes := rfl
  rw [Issue.applied, hedits, hordered]
  rfl

theorem fixText_mixedFiles :
    (mixedEngine.fixText Registry.builtin.rules mixedFiles mixedPath).outcome =
      .ok ("y\ns.gsub('a', 'b')\nz\n", mixedRun) := by
  have hafter : (mixedEngine.analyze Registry.builtin.rules mixedPath
      "y\ns.tr('a', 'b')\nz\n").outcome = .ok [] :=
    Engine.analyze_builtin_eq_ok_iff.mpr ⟨[], by decide +kernel, List.mergeSort_nil⟩
  have happly : (applyFixes "y\ns.gsub('a', 'b')\nz\n" [mixedIssue]).outcome =
      .ok "y\ns.tr('a', 'b')\nz\n" := by
    have hordered : Edit.inOrder mixedIssue.fixes = mixedIssue.fixes := List.mergeSort_singleton _
    have hedits : Issue.edits [mixedIssue] = mixedIssue.fixes := rfl
    rw [applyFixes_eq_applyAll, hedits]
    simp only [Edit.applyAll, hordered]
    decide +kernel
  refine Engine.fixText_eq_ok_iff.mpr ⟨by decide +kernel, ?_⟩
  refine FixRun.start_eq_ok_iff.mpr ⟨[mixedIssue], analyze_mixedFiles, ?_⟩
  have hpass : FixRun.Pass (mixedEngine.analysis Registry.builtin.rules mixedPath)
      (.initial "y\ns.gsub('a', 'b')\nz\n" [mixedIssue]) mixedRun :=
    .intro happly (by decide) hafter
  exact (FixRun.resume_of_pass mixedPath hpass).trans
    (by rw [FixRun.resume_of_nothingFixable mixedPath rfl]; rfl)

theorem exists_fixFile_mixedFiles :
    ∃ files', (mixedEngine.fixFile Registry.builtin.rules mixedFiles mixedPath).outcome =
        .ok ("y\ns.gsub('a', 'b')\nz\n", mixedRun, files') ∧
      mixedFiles.writeText mixedPath "y\ns.tr('a', 'b')\nz\n" = .ok files' := by
  have hlocate : mixedFiles.locate mixedPath = .ok ["work", "x.rb"] := by decide +kernel
  obtain ⟨files', hwritten⟩ :=
    Engine.exists_written hlocate rfl rfl "y\ns.gsub('a', 'b')\nz\n" mixedRun
  refine ⟨files', Engine.fixFile_eq_ok_iff.mpr ⟨fixText_mixedFiles, hwritten⟩, ?_⟩
  rwa [Engine.written, if_pos (by decide)] at hwritten

/-- The only edit is on the second line. -/
theorem untouched_mixedFiles
    {size offset : Nat}
    (hedit : Edit.LeavesAlone 21 offset (offset + size) ⟨4, 18, "tr('a', 'b')"⟩) :
    FixRun.Untouched (mixedEngine.analysis Registry.builtin.rules mixedPath) size 0 offset
      mixedRun.analysed := by
  intro issues hissues
  cases hissues.symm.trans analyze_mixedFiles
  rw [applied_mixedIssue]
  refine ⟨?_, trivial⟩
  intro edit hmem
  rw [List.mem_singleton.mp hmem]
  exact hedit

theorem fix_writes_untouched_lines_of_mixedFiles :
    ∃ files' written,
      (mixedEngine.fixFile Registry.builtin.rules mixedFiles mixedPath).outcome =
        .ok ("y\ns.gsub('a', 'b')\nz\n", mixedRun, files') ∧
      files'.read mixedPath = .ok written ∧ bytes "z\n" <:+: written := by
  have hread : mixedFiles.read mixedPath = .ok (bytes "y\r\ns.gsub('a', 'b')\nz\n") := by
    decide +kernel
  have hlines : fileLines "y\r\ns.gsub('a', 'b')\nz\n".toList =
      ["y\r\n".toList, "s.gsub('a', 'b')\n".toList] ++ "z\n".toList :: [] := by decide +kernel
  obtain ⟨files', hfile, -⟩ := exists_fixFile_mixedFiles
  obtain ⟨-, written, body, ending, hwritten, hline, -, hkept, -⟩ :=
    fix_writes_untouched_lines hread hfile (by decide) hlines
      (untouched_mixedFiles (by decide +kernel))
  have hending : '\r' ∉ ending := by
    intro hreturn
    have hmem : '\r' ∈ "z\n".toList := by
      rw [hline.eq]
      exact List.mem_append_right body hreturn
    simp at hmem
  exact ⟨files', written, hfile, hwritten, hkept hending⟩

/-- A line that no edit touches can come back with another terminator. -/
theorem fix_changes_untouched_terminator :
    ∃ files' written,
      (mixedEngine.fixFile Registry.builtin.rules mixedFiles mixedPath).outcome =
        .ok ("y\ns.gsub('a', 'b')\nz\n", mixedRun, files') ∧
      fileLines "y\r\ns.gsub('a', 'b')\nz\n".toList =
        [] ++ "y\r\n".toList :: ["s.gsub('a', 'b')\n".toList, "z\n".toList] ∧
      FixRun.Untouched (mixedEngine.analysis Registry.builtin.rules mixedPath) 2 0 0
        mixedRun.analysed ∧
      files'.read mixedPath = .ok written ∧ ¬ bytes "y\r\n" <:+: written := by
  have hread : mixedFiles.read mixedPath = .ok (bytes "y\r\ns.gsub('a', 'b')\nz\n") := by
    decide +kernel
  obtain ⟨files', hfile, hwrite⟩ := exists_fixFile_mixedFiles
  exact ⟨files', bytes "y\ns.tr('a', 'b')\nz\n", hfile, by decide +kernel,
    untouched_mixedFiles (by decide), read_writeText_self hwrite hread, by decide +kernel⟩

end RubyLint
