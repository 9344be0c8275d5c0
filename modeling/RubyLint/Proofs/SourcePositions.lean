import RubyLint.Proofs.RuleOrder
import Mathlib.Data.List.DropRight
import Mathlib.Data.Prod.Lex
import Mathlib.Tactic

/-!
# Lines and columns of a source

The position of a byte offset is the line and the column at which the characters that begin before
the offset end.  An offset inside a character is therefore at the position after that character,
because what the cut leaves of its bytes counts as one character, and an offset past the end is at
the position of the end.  A later offset has the same characters before it and possibly more, and
each further character moves the end on.  So positions grow with the offsets, and on the boundaries
of characters no two of them agree.
-/

namespace RubyLint

namespace Text

/-- The line and the column at which a text ends. -/
def endPosition (text : List Char) : Nat × Nat :=
  (text.count '\n' + 1, (text.rtakeWhile (· != '\n')).length + 1)

/-- The characters of a text that begin before a byte offset. -/
def begunBefore : Nat → List Char → List Char
  | _, [] => []
  | 0, _ :: _ => []
  | offset + 1, c :: text =>
      c :: begunBefore (offset + 1 - (String.utf8EncodeChar c).length) text

/-! ## Line feeds in the bytes of a text -/

theorem utf8EncodeChar_newline : String.utf8EncodeChar '\n' = [lineFeed] := by
  decide

theorem lineFeed_not_mem_utf8EncodeChar {c : Char} (hc : c ≠ '\n') :
    lineFeed ∉ String.utf8EncodeChar c := by
  have hvalue : c.val.toNat ≠ 10 := by
    intro hten
    apply hc
    rw [← Char.ofNat_toNat c]
    exact congrArg Char.ofNat hten
  have hbyte : ∀ n, n < 256 → n ≠ 10 → lineFeed ≠ UInt8.ofNat n := by
    intro n hn hten hsame
    have htoNat := congrArg UInt8.toNat hsame
    rw [toNat_ofNat_of_lt hn] at htoNat
    exact hten htoNat.symm
  unfold String.utf8EncodeChar
  simp only
  split_ifs with hone htwo hthree
  all_goals simp only [List.mem_cons, List.not_mem_nil, or_false, not_or]
  · exact hbyte _ (by omega) hvalue
  · exact ⟨hbyte _ (by omega) (by omega), hbyte _ (by omega) (by omega)⟩
  · exact ⟨hbyte _ (by omega) (by omega), hbyte _ (by omega) (by omega),
      hbyte _ (by omega) (by omega)⟩
  · exact ⟨hbyte _ (by omega) (by omega), hbyte _ (by omega) (by omega),
      hbyte _ (by omega) (by omega), hbyte _ (by omega) (by omega)⟩

theorem count_lineFeed_encode (text : List Char) :
    (encode text).count lineFeed = text.count '\n' := by
  induction text with
  | nil => rfl
  | cons c text ih =>
      rw [encode_cons, List.count_append, ih]
      by_cases hc : c = '\n'
      · subst hc
        rw [utf8EncodeChar_newline, List.count_singleton_self, List.count_cons_self, add_comm]
      · rw [List.count_eq_zero.mpr (lineFeed_not_mem_utf8EncodeChar hc), zero_add,
          List.count_cons_of_ne hc]

theorem lastLine_append {left right : List UInt8} (hright : lineFeed ∉ right) :
    lastLine (left ++ right) = lastLine left ++ right := by
  have hplain : ∀ byte ∈ right.reverse, (byte != lineFeed) = true := by
    intro byte hbyte
    rw [bne_iff_ne]
    rintro rfl
    exact hright (List.mem_reverse.mp hbyte)
  rw [lastLine, List.reverse_append, List.takeWhile_append_of_pos hplain, List.reverse_append,
    List.reverse_reverse, lastLine]

theorem lastLine_encode (text : List Char) :
    lastLine (encode text) = encode (text.rtakeWhile (· != '\n')) := by
  induction text using List.reverseRecOn with
  | nil => rfl
  | append_singleton text c ih =>
      rw [encode_append]
      by_cases hc : c = '\n'
      · subst hc
        rw [List.rtakeWhile_concat_neg _ _ _ (by simp), encode_cons, utf8EncodeChar_newline]
        exact List.rtakeWhile_concat_neg _ _ _ (by simp)
      · have hbytes : lineFeed ∉ encode [c] := by
          rw [encode_cons, encode_nil, List.append_nil]
          exact lineFeed_not_mem_utf8EncodeChar hc
        rw [lastLine_append hbytes, ih, List.rtakeWhile_concat_pos _ _ _ (by simpa using hc),
          encode_append]

/-! ## Characters that are cut off -/

theorem decodeLossy_encode_append (text : List Char) (rest : List UInt8) :
    decodeLossy (encode text ++ rest) = text ++ decodeLossy rest := by
  induction text with
  | nil => rfl
  | cons c text ih =>
      obtain ⟨first, more, hbytes, hpiece⟩ := pieceAt_utf8EncodeChar c (encode text ++ rest)
      rw [encode_cons, List.append_assoc, hbytes, List.cons_append, decodeLossy, hpiece]
      simp only [List.drop_left, ih, List.cons_append]

/-- A character that is owed `owed` bytes takes all of them, and is found to be cut off when there
are fewer. -/
theorem continueChar_take
    {more value owed low high count : Nat} {data : List UInt8} {c : Char}
    (hpiece : continueChar more value owed low high data = .char c count) :
    count = more + owed ∧ ∀ kept < owed,
      continueChar more value owed low high (data.take kept) =
        .illFormed .unexpectedEnd (more + kept) := by
  induction owed generalizing more value low high data with
  | zero =>
      cases hpiece
      exact ⟨rfl, fun kept hkept => absurd hkept (Nat.not_lt_zero kept)⟩
  | succ owed ih =>
      obtain ⟨byte, rest, rfl, hlow, hhigh, hrest⟩ := exists_of_continueChar hpiece
      obtain ⟨hcount, hcut⟩ := ih hrest
      refine ⟨by omega, ?_⟩
      intro kept hkept
      cases kept with
      | zero => rfl
      | succ kept =>
          rw [List.take_succ_cons, continueChar, if_pos ⟨hlow, hhigh⟩, hcut kept (by omega)]
          congr 1
          omega

theorem ite_eq_of_ite_eq {α : Type} {p : Prop} [Decidable p] {a b a' b' x y : α}
    (hthen : a = x → a' = y) (helse : b = x → b' = y) (hite : (if p then a else b) = x) :
    (if p then a' else b') = y := by
  split at hite
  next hp => rw [if_pos hp, hthen hite]
  next hp => rw [if_neg hp, helse hite]

theorem pieceAt_take
    {first : UInt8} {rest : List UInt8} {c : Char} {more kept : Nat}
    (hpiece : pieceAt first rest = .char c more) (hkept : kept < more) :
    pieceAt first (rest.take kept) = .illFormed .unexpectedEnd kept := by
  have hcut : ∀ {value owed low high : Nat},
      continueChar 0 value owed low high rest = .char c more →
        continueChar 0 value owed low high (rest.take kept) =
          .illFormed .unexpectedEnd kept := by
    intro value owed low high hcontinue
    obtain ⟨hmore, htake⟩ := continueChar_take hcontinue
    rw [htake kept (by omega), Nat.zero_add]
  have hwhole : ∀ {d : Char}, Utf8Piece.char d 0 = .char c more →
      Utf8Piece.char d 0 = .illFormed .unexpectedEnd kept := by
    intro d hchar
    cases hchar
    omega
  have hinvalid : Utf8Piece.illFormed .invalidStart 0 = .char c more →
      Utf8Piece.illFormed .invalidStart 0 = .illFormed .unexpectedEnd kept := by
    intro hchar
    cases hchar
  -- the first byte takes the same branch whatever follows it
  unfold pieceAt at hpiece ⊢
  refine ite_eq_of_ite_eq hwhole (ite_eq_of_ite_eq hinvalid ?_) hpiece
  refine ite_eq_of_ite_eq hcut (ite_eq_of_ite_eq hcut (ite_eq_of_ite_eq hcut ?_))
  refine ite_eq_of_ite_eq hcut (ite_eq_of_ite_eq hcut (ite_eq_of_ite_eq hcut ?_))
  exact ite_eq_of_ite_eq hcut hinvalid

/-- What is left of a character that has been cut off counts as one character. -/
theorem length_decodeLossy_take {c : Char} {kept : Nat} (hpos : 0 < kept)
    (hkept : kept < (String.utf8EncodeChar c).length) :
    (decodeLossy ((String.utf8EncodeChar c).take kept)).length = 1 := by
  obtain ⟨first, more, hbytes, hpiece⟩ := pieceAt_utf8EncodeChar c []
  rw [hbytes, List.length_cons] at hkept
  obtain ⟨kept, rfl⟩ := Nat.exists_eq_succ_of_ne_zero hpos.ne'
  rw [List.append_nil] at hpiece
  have hcut := pieceAt_take hpiece (Nat.lt_of_succ_lt_succ hkept)
  rw [hbytes, List.take_succ_cons, decodeLossy, hcut]
  simp [decodeLossy]

/-! ## The position of an offset -/

/-- The bytes before an offset are those of whole characters, with the rest of a character that the
offset cuts in two. -/
theorem take_encode (text : List Char) (offset : Nat) :
    (encode text).take offset = encode (begunBefore offset text) ∨
      ∃ whole c kept, begunBefore offset text = whole ++ [c] ∧ 0 < kept ∧
        kept < (String.utf8EncodeChar c).length ∧
        (encode text).take offset = encode whole ++ (String.utf8EncodeChar c).take kept := by
  induction text generalizing offset with
  | nil => exact .inl (by simp [begunBefore])
  | cons c text ih =>
      cases offset with
      | zero => exact .inl rfl
      | succ offset =>
          rw [begunBefore, encode_cons, List.take_append]
          by_cases hcut : offset + 1 < (String.utf8EncodeChar c).length
          · -- the offset cuts the first character
            have hnone : offset + 1 - (String.utf8EncodeChar c).length = 0 := by omega
            have hbegun : begunBefore 0 text = [] := by cases text <;> rfl
            rw [hnone, hbegun, List.take_zero]
            exact .inr ⟨[], c, offset + 1, rfl, Nat.succ_pos offset, hcut, by simp⟩
          · rw [List.take_of_length_le (by omega)]
            rcases ih (offset + 1 - (String.utf8EncodeChar c).length) with
              hwhole | ⟨whole, d, kept, hbegun, hpos, hkept, htake⟩
            · exact .inl (by rw [hwhole, encode_cons])
            · refine .inr ⟨c :: whole, d, kept, ?_, hpos, hkept, ?_⟩
              · rw [hbegun, List.cons_append]
              · rw [htake, encode_cons, List.append_assoc]

theorem position_natCast (source : List UInt8) (offset : Nat) :
    position source offset = ((source.take offset).count lineFeed + 1,
      (decodeLossy (lastLine (source.take offset))).length + 1) := by
  have hslice := slice_natCast source 0 offset
  rw [Nat.cast_zero, List.drop_zero] at hslice
  rw [position, hslice]

/-- An offset is at the position at which the characters that begin before it end. -/
theorem position_eq_endPosition (text : List Char) (offset : Nat) :
    position (encode text) offset = endPosition (begunBefore offset text) := by
  rw [position_natCast, endPosition]
  rcases take_encode text offset with hwhole | ⟨whole, c, kept, hbegun, hpos, hkept, htake⟩
  · have hdecode := decodeLossy_encode_append
      ((begunBefore offset text).rtakeWhile (· != '\n')) []
    rw [List.append_nil, decodeLossy, List.append_nil] at hdecode
    rw [hwhole, count_lineFeed_encode, lastLine_encode, hdecode]
  · -- a line feed is a single byte, so the character that is cut is none
    have hc : c ≠ '\n' := by
      rintro rfl
      rw [utf8EncodeChar_newline, List.length_singleton] at hkept
      omega
    have hplain : lineFeed ∉ (String.utf8EncodeChar c).take kept := fun hmem =>
      lineFeed_not_mem_utf8EncodeChar hc (List.mem_of_mem_take hmem)
    rw [htake, hbegun, List.count_append, count_lineFeed_encode, List.count_eq_zero.mpr hplain,
      lastLine_append hplain, lastLine_encode, decodeLossy_encode_append, List.length_append,
      length_decodeLossy_take hpos hkept, List.count_append, List.count_singleton,
      List.rtakeWhile_concat_pos _ _ _ (by simpa using hc), List.length_append,
      List.length_singleton]
    simp [hc]

theorem begunBefore_length_encode (before after : List Char) :
    begunBefore (encode before).length (before ++ after) = before := by
  induction before with
  | nil => cases after <;> rfl
  | cons c before ih =>
      obtain ⟨first, more, hbytes, -⟩ := pieceAt_utf8EncodeChar c []
      have hlength : (encode (c :: before)).length =
          more.length + (encode before).length + 1 := by
        rw [encode_cons, hbytes, List.length_append, List.length_cons]
        omega
      have hrest : more.length + (encode before).length + 1 - (String.utf8EncodeChar c).length =
          (encode before).length := by
        rw [hbytes, List.length_cons]
        omega
      rw [hlength, List.cons_append, begunBefore, hrest, ih]

theorem begunBefore_prefix_of_le {a b : Nat} (hab : a ≤ b) (text : List Char) :
    begunBefore a text <+: begunBefore b text := by
  induction text generalizing a b with
  | nil => exact List.prefix_rfl
  | cons c text ih =>
      cases a with
      | zero => exact List.nil_prefix
      | succ a =>
          obtain ⟨b, rfl⟩ := Nat.exists_eq_succ_of_ne_zero (show b ≠ 0 by omega)
          rw [begunBefore, begunBefore, List.prefix_cons_inj]
          exact ih (by omega)

/-! ## Later offsets have later positions -/

theorem endPosition_lt_concat (text : List Char) (c : Char) :
    toLex (endPosition text) < toLex (endPosition (text ++ [c])) := by
  rw [Prod.Lex.toLex_lt_toLex, endPosition, endPosition, List.count_append]
  by_cases hc : c = '\n'
  · subst hc
    left
    simp
  · right
    rw [List.rtakeWhile_concat_pos _ _ _ (by simpa using hc)]
    simp [hc]

theorem endPosition_le_append (text more : List Char) :
    toLex (endPosition text) ≤ toLex (endPosition (text ++ more)) := by
  induction more using List.reverseRecOn with
  | nil => rw [List.append_nil]
  | append_singleton more c ih =>
      rw [← List.append_assoc]
      exact ih.trans (endPosition_lt_concat (text ++ more) c).le

theorem endPosition_lt_append (text : List Char) {more : List Char} (hmore : more ≠ []) :
    toLex (endPosition text) < toLex (endPosition (text ++ more)) := by
  rw [← List.dropLast_append_getLast hmore, ← List.append_assoc]
  exact (endPosition_le_append text more.dropLast).trans_lt (endPosition_lt_concat _ _)

variable {source : String}

theorem position_le_position {a b : Nat} (hab : a ≤ b) :
    toLex (position (bytes source) a) ≤ toLex (position (bytes source) b) := by
  rw [bytes, position_eq_endPosition, position_eq_endPosition]
  obtain ⟨more, hmore⟩ := begunBefore_prefix_of_le hab source.toList
  rw [← hmore]
  exact endPosition_le_append _ more

theorem position_length_encode
    {before after : List Char} (hsource : source.toList = before ++ after) :
    position (bytes source) (encode before).length = endPosition before := by
  rw [bytes, position_eq_endPosition, hsource, begunBefore_length_encode]

theorem position_lt_position {a b : Nat} (ha : Boundary source a) (hb : Boundary source b)
    (hab : a < b) : toLex (position (bytes source) a) < toLex (position (bytes source) b) := by
  obtain ⟨before, after, hsource, rfl⟩ := ha
  obtain ⟨before', after', hsource', rfl⟩ := hb
  rw [position_length_encode hsource, position_length_encode hsource']
  obtain ⟨more, hmore⟩ := begunBefore_prefix_of_le hab.le source.toList
  rw [hsource, begunBefore_length_encode, ← hsource, hsource', begunBefore_length_encode] at hmore
  rw [← hmore]
  apply endPosition_lt_append
  rintro rfl
  rw [List.append_nil] at hmore
  rw [hmore] at hab
  exact lt_irrefl _ hab

theorem le_of_position_le {a b : Nat} (ha : Boundary source a) (hb : Boundary source b)
    (hposition : toLex (position (bytes source) a) ≤ toLex (position (bytes source) b)) :
    a ≤ b := by
  by_contra hba
  exact absurd hposition (position_lt_position hb ha (not_le.mp hba)).not_ge

end Text

open Text

/-! ## The order of findings -/

/-- What the issue is about starts between two characters of `source`, and the line and the column
of the issue are those of this start. -/
structure Issue.Located (source : String) (issue : Issue) : Prop where
  starts : ∃ offset : Nat, issue.start = offset ∧ Boundary source offset
  line : issue.line = (position (bytes source) issue.start).1
  column : issue.column = (position (bytes source) issue.start).2

/-- The finding starts between two characters of `source`. -/
def Finding.AtBoundary (source : String) (finding : Finding) : Prop :=
  ∃ offset : Nat, finding.start.getD finding.node.start = offset ∧ Boundary source offset

/-- The rule makes its issues from findings that start between two characters of `source`. -/
def Rule.FindsAtBoundaries (source : String) (context : Context) (rule : Rule) : Prop :=
  ∀ found, (rule.check context).outcome = .ok found →
    ∀ issue ∈ found, ∃ finding : Finding,
      finding.AtBoundary source ∧ issue = rule.issue context finding

theorem Rule.findsAtBoundaries_reporting
    {source : String} {context : Context} (id name : String) (severity : Severity)
    (autoFixable : Bool) (description : String)
    {findings : Context → Traced Failure (List Finding)}
    (hfindings : ∀ found, (findings context).outcome = .ok found →
      ∀ finding ∈ found, finding.AtBoundary source) :
    (reporting id name severity autoFixable description findings).FindsAtBoundaries source
      context := by
  intro found hfound issue hissue
  obtain ⟨own, hown, hsame⟩ := Traced.bind_outcome_eq_ok_iff.mp hfound
  cases hsame
  obtain ⟨finding, hfinding, rfl⟩ := List.mem_map.mp hissue
  exact ⟨finding, hfindings own hown finding hfinding, rfl⟩

theorem Finding.AtBoundary.located
    {source : String} {finding : Finding} (hfinding : finding.AtBoundary source)
    {context : Context} (hcontext : context.source = bytes source) (rule : Rule) :
    (rule.issue context finding).Located source := by
  constructor
  · exact hfinding
  · rw [← hcontext]
    rfl
  · rw [← hcontext]
    rfl

theorem Issue.Located.rated
    {source : String} {issue : Issue} (hissue : issue.Located source)
    (severity : Option Severity) : (issue.rated severity).Located source :=
  ⟨hissue.starts, hissue.line, hissue.column⟩

theorem Issue.Located.start_le
    {source : String} {a b : Issue} (ha : a.Located source) (hb : b.Located source)
    (hab : toLex (a.line, a.column) ≤ toLex (b.line, b.column)) : a.start ≤ b.start := by
  obtain ⟨offset, hstart, hboundary⟩ := ha.starts
  obtain ⟨offset', hstart', hboundary'⟩ := hb.starts
  have hposition :
      toLex (position (bytes source) offset) ≤ toLex (position (bytes source) offset') := by
    rw [ha.line, ha.column, hb.line, hb.column, hstart, hstart', Prod.Lex.toLex_le_toLex] at hab
    rw [Prod.Lex.toLex_le_toLex]
    simpa using hab
  rw [hstart, hstart', Nat.cast_le]
  exact le_of_position_le hboundary hboundary' hposition

theorem Issue.pairwise_start_le
    {source : String} {issues : List Issue} (hissues : ∀ issue ∈ issues, issue.Located source)
    (hsorted : issues.Pairwise fun a b =>
      toLex (a.line, a.column) ≤ toLex (b.line, b.column)) :
    issues.Pairwise fun a b => a.start ≤ b.start := by
  apply hsorted.imp_of_mem
  intro a b ha hb hab
  exact (hissues a ha).start_le (hissues b hb) hab

theorem Issue.toLex_le_of_key_le {a b : Issue} (hab : a.key ≤ b.key) :
    toLex (a.line, a.column) ≤ toLex (b.line, b.column) := by
  rw [key, key, Prod.Lex.toLex_le_toLex, Prod.Lex.toLex_le_toLex] at hab
  rw [Prod.Lex.toLex_le_toLex]
  rcases hab with hline | ⟨hline, hcolumn | ⟨hcolumn, -⟩⟩
  · exact .inl hline
  · exact .inr ⟨hline, hcolumn.le⟩
  · exact .inr ⟨hline, hcolumn.le⟩

namespace Engine

theorem runRules_located
    {source : String} {context : Context} (hcontext : context.source = bytes source)
    {rules : List Rule} (hrules : ∀ rule ∈ rules, rule.FindsAtBoundaries source context)
    {overrides : SeverityOverrides} {issues : List Issue}
    (hissues : (runRules overrides rules context).outcome = .ok issues) :
    (∀ issue ∈ issues, issue.Located source) ∧
      issues.Pairwise fun a b => toLex (a.line, a.column) ≤ toLex (b.line, b.column) := by
  obtain ⟨hends, rfl⟩ := runRules_eq_ok_iff_flatMap.mp hissues
  constructor
  · intro issue hissue
    obtain ⟨rule, hrule, hreported⟩ := List.mem_flatMap.mp (List.mem_mergeSort.mp hissue)
    obtain ⟨found, hfound⟩ := hends rule hrule
    rw [Rule.reported, Rule.findings_eq hfound] at hreported
    obtain ⟨own, hown, rfl⟩ := List.mem_map.mp hreported
    obtain ⟨finding, hfinding, rfl⟩ := hrules rule hrule found hfound own hown
    exact (hfinding.located hcontext rule).rated _
  · apply (StableSort.pairwise_mergeSort Issue.precedes_iff _).imp
    intro a b hab
    exact Issue.toLex_le_of_key_le hab

end Engine

/-- The end of a part that a text begins with is at the line given by the line feeds of the part
and at the column given by the characters behind the last of them.  Offsets that do not go down,
also inside a character and past the end, have positions that do not go down, and two boundaries of
characters have positions in their own strict order.  So issues that start at boundaries and are
sorted by line and column are sorted by their starts, and the issues of an analysis are. -/
theorem position_follows_offsets (source : String) :
    (∀ before after : String, source = before ++ after →
      position (bytes source) (bytes before).length =
        (1 + before.toList.count '\n', 1 + (before.toList.rtakeWhile (· != '\n')).length)) ∧
    (∀ a b : Int, 0 ≤ a → a ≤ b →
      toLex (position (bytes source) a) ≤ toLex (position (bytes source) b)) ∧
    (∀ a b : Nat, Boundary source a → Boundary source b → a < b →
      toLex (position (bytes source) a) < toLex (position (bytes source) b)) ∧
    (∀ issues : List Issue, (∀ issue ∈ issues, issue.Located source) →
      issues.Pairwise (fun a b => toLex (a.line, a.column) ≤ toLex (b.line, b.column)) →
      issues.Pairwise fun a b => a.start ≤ b.start) ∧
    ∀ (context : Context) (rules : List Rule) (overrides : SeverityOverrides)
      (issues : List Issue), context.source = bytes source →
      (∀ rule ∈ rules, rule.FindsAtBoundaries source context) →
      (Engine.runRules overrides rules context).outcome = .ok issues →
      issues.Pairwise fun a b => a.start ≤ b.start := by
  refine ⟨?_, ?_, fun a b => position_lt_position, fun issues => Issue.pairwise_start_le, ?_⟩
  · intro before after hsource
    have hchars : source.toList = before.toList ++ after.toList := by
      rw [hsource, String.toList_append]
    rw [bytes, bytes, ← bytes, position_length_encode hchars, endPosition, add_comm,
      add_comm 1 (List.length _)]
  · intro a b ha hab
    obtain ⟨a, rfl⟩ := Int.eq_ofNat_of_zero_le ha
    obtain ⟨b, rfl⟩ := Int.eq_ofNat_of_zero_le (ha.trans hab)
    exact position_le_position (Int.ofNat_le.mp hab)
  · intro context rules overrides issues hcontext hrules hissues
    obtain ⟨hlocated, hsorted⟩ := Engine.runRules_located hcontext hrules hissues
    exact Issue.pairwise_start_le hlocated hsorted

/-- A rule that has a remark at each of the given offsets. -/
def remarksAt (offsets : List Nat) : Rule :=
  .reporting "R1" "remarks" .info false "" fun context =>
    pure (offsets.map fun offset : Nat => ⟨context.tree, "here", some offset, none, []⟩)

theorem findsAtBoundaries_remarksAt
    {source : String} {offsets : List Nat}
    (hoffsets : ∀ offset ∈ offsets, Boundary source offset) (context : Context) :
    (remarksAt offsets).FindsAtBoundaries source context := by
  apply Rule.findsAtBoundaries_reporting
  intro found hfound finding hfinding
  cases hfound
  obtain ⟨offset, hoffset, rfl⟩ := List.mem_map.mp hfinding
  exact ⟨offset, rfl, hoffsets offset hoffset⟩

theorem position_follows_offsets_of_accented :
    position (bytes "é\nx") 3 = (2, 1) ∧
    toLex (position (bytes "é\nx") 1) ≤ toLex (position (bytes "é\nx") 2) ∧
    toLex (position (bytes "é\nx") 0) < toLex (position (bytes "é\nx") 2) ∧
    ∃ issues, (Engine.runRules [] [remarksAt [3, 0]]
        ⟨.anonymous, bytes "é\nx", .leaf "program" 0 4 true none, []⟩).outcome = .ok issues ∧
      issues.map (·.start) = [0, 3] := by
  let context : Context := ⟨.anonymous, bytes "é\nx", .leaf "program" 0 4 true none, []⟩
  obtain ⟨hend, hweak, hstrict, -, hrun⟩ := position_follows_offsets "é\nx"
  have hboundary : ∀ offset ∈ [3, 0], Boundary "é\nx" offset := by decide
  have hends : ∀ rule ∈ [remarksAt [3, 0]], ∃ found, (rule.check context).outcome = .ok found := by
    intro rule hrule
    rw [List.mem_singleton.mp hrule]
    exact ⟨_, rfl⟩
  have hissues := Engine.runRules_eq_ok_iff_flatMap.mpr ⟨hends, @rfl _
    (([remarksAt [3, 0]].flatMap (Rule.reported [] context)).mergeSort Issue.precedes)⟩
  have hrules : ∀ rule ∈ [remarksAt [3, 0]], rule.FindsAtBoundaries "é\nx" context := by
    intro rule hrule
    rw [List.mem_singleton.mp hrule]
    exact findsAtBoundaries_remarksAt hboundary context
  refine ⟨hend "é\n" "x" (by decide), hweak 1 2 (by decide) (by decide),
    hstrict 0 2 (by decide) (by decide) (by decide), _, hissues, ?_⟩
  -- the starts are those of the remarks, and they are in order
  have hperm := (List.mergeSort_perm ([remarksAt [3, 0]].flatMap (Rule.reported [] context))
    Issue.precedes).map (·.start)
  have hsorted := List.pairwise_map.mpr (hrun context _ [] _ rfl hrules hissues)
  refine (hperm.trans (.swap 0 3 [])).eq_of_pairwise' hsorted ?_
  decide

end RubyLint
