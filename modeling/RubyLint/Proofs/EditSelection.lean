import RubyLint.Proofs.EditSplice
import Mathlib.Tactic

/-!
# Which edits are applied

Edits are gone through by their starts, those with the same start by their ends, and one that
starts before the end of the last applied edit is skipped.  So the applied edits lie apart, empty
ones at the same offset included, and a skipped edit starts inside an applied one in front of it.

The result is put together from the left in one go.  Replacing the spans of the applied edits one
at a time gives the same bytes, provided that it goes from the last edit to the first: then no
replacement moves a span that is still to be replaced.
-/

namespace RubyLint

open Text

namespace Edit

/-- Puts the replacement of `edit` in the place of its span. -/
def replaceSpan (edit : Edit) (data : List UInt8) : List UInt8 :=
  data.take edit.start.toNat ++ bytes edit.replacement ++ data.drop edit.stop.toNat

theorem applicable_append_overlapping_perm (cursor : Int) (edits : List Edit) :
    (applicable cursor edits ++ overlapping cursor edits).Perm edits := by
  induction edits generalizing cursor with
  | nil => exact .nil
  | cons edit rest ih =>
      rw [applicable, overlapping]
      split
      · exact List.perm_middle.trans ((ih cursor).cons edit)
      · exact (ih edit.stop).cons edit

theorem applied_append_skipped_perm (edits : List Edit) :
    (applied edits ++ skipped edits).Perm edits :=
  (applicable_append_overlapping_perm 0 _).trans (inOrder_perm edits)

/-! ## The applied edits lie apart -/

theorem sequential_applicable (cursor : Int) (edits : List Edit) :
    Sequential cursor (applicable cursor edits) := by
  induction edits generalizing cursor with
  | nil => trivial
  | cons edit rest ih =>
      rw [applicable]
      split
      next => exact ih cursor
      next hstart => exact ⟨by simpa using hstart, ih edit.stop⟩

theorem Sequential.le_start
    {cursor : Int} {edits : List Edit} (hsequential : Sequential cursor edits)
    (hspan : ∀ edit ∈ edits, edit.start ≤ edit.stop) : ∀ edit ∈ edits, cursor ≤ edit.start := by
  induction edits generalizing cursor with
  | nil => simp
  | cons edit rest ih =>
      obtain ⟨hcursor, hsequential⟩ := hsequential
      obtain ⟨hedit, hrest⟩ := List.forall_mem_cons.mp hspan
      refine List.forall_mem_cons.mpr ⟨hcursor, ?_⟩
      intro other hother
      have hstop := ih hsequential hrest other hother
      omega

theorem Sequential.pairwise
    {cursor : Int} {edits : List Edit} (hsequential : Sequential cursor edits)
    (hspan : ∀ edit ∈ edits, edit.start ≤ edit.stop) :
    edits.Pairwise fun a b => a.stop ≤ b.start := by
  induction edits generalizing cursor with
  | nil => exact .nil
  | cons edit rest ih =>
      obtain ⟨-, hrest⟩ := List.forall_mem_cons.mp hspan
      exact .cons (hsequential.2.le_start hrest) (ih hsequential.2 hrest)

/-! ## Why an edit is skipped -/

theorem overlapping_sublist (cursor : Int) (edits : List Edit) :
    (overlapping cursor edits).Sublist edits := by
  induction edits generalizing cursor with
  | nil => exact .slnil
  | cons edit rest ih =>
      rw [overlapping]
      split
      · exact (ih cursor).cons_cons edit
      · exact (ih edit.stop).cons edit

/-- A skipped edit starts before the cursor of the beginning, or before the end of an edit that has
been applied before it. -/
theorem exists_applicable_of_mem_overlapping
    {cursor : Int} {edits : List Edit} {edit : Edit} (hedit : edit ∈ overlapping cursor edits) :
    edit.start < cursor ∨ ∃ other ∈ applicable cursor edits,
      [other, edit].Sublist edits ∧ edit.start < other.stop := by
  induction edits generalizing cursor with
  | nil => simp [overlapping] at hedit
  | cons first rest ih =>
      rw [overlapping] at hedit
      rw [applicable]
      split at hedit
      next hskip =>
        rw [if_pos hskip]
        rcases List.mem_cons.mp hedit with rfl | hedit
        · exact .inl hskip
        · refine (ih hedit).imp_right ?_
          rintro ⟨other, hother, hbefore, hstop⟩
          exact ⟨other, hother, hbefore.cons first, hstop⟩
      next happly =>
        rw [if_neg happly]
        -- from here on the cursor is the end of `first`
        have hmem : edit ∈ rest := (overlapping_sublist _ rest).subset hedit
        rcases ih hedit with hstop | ⟨other, hother, hbefore, hstop⟩
        · exact .inr ⟨first, by simp, (List.singleton_sublist.mpr hmem).cons_cons first, hstop⟩
        · exact .inr ⟨other, by simp [hother], hbefore.cons first, hstop⟩

theorem precedes_of_sublist_inOrder {edits : List Edit} {a b : Edit}
    (hbefore : [a, b].Sublist (inOrder edits)) : precedes a b = true := by
  have hpairwise := (pairwise_precedes_inOrder edits).sublist hbefore
  simpa using hpairwise

theorem exists_applied_of_mem_skipped
    {edits : List Edit} (hstart : ∀ edit ∈ edits, 0 ≤ edit.start) {edit : Edit}
    (hedit : edit ∈ skipped edits) :
    ∃ other ∈ applied edits, [other, edit].Sublist (inOrder edits) ∧ precedes other edit = true ∧
      other.start ≤ edit.start ∧ edit.start < other.stop := by
  have hmem : edit ∈ edits :=
    (inOrder_perm edits).mem_iff.mp ((overlapping_sublist 0 _).subset hedit)
  rcases exists_applicable_of_mem_overlapping hedit with hnegative | ⟨other, hother, hbefore, hstop⟩
  · have hnonneg := hstart edit hmem
    omega
  · have hprecedes := precedes_of_sublist_inOrder hbefore
    refine ⟨other, hother, hbefore, hprecedes, ?_, hstop⟩
    rw [precedes_iff] at hprecedes
    omega

end Edit

/-! ## One edit at a time -/

/-- Replacing the spans from the last to the first makes of the text what putting in all edits
makes of it, whatever stands to the left. -/
theorem Spliced.foldr_replaceSpan
    {offset : Nat} {edits : List Edit} {before after : List UInt8}
    (hspliced : Spliced offset edits before after) {left : List UInt8}
    (hleft : left.length = offset) :
    edits.foldr Edit.replaceSpan (left ++ before) = left ++ after := by
  induction hspliced generalizing left with
  | rest => rfl
  | @edit offset edit edits before after kept replaced hstart hstop _ ih =>
      -- the later edits do not touch what stands in front of them, the span of this one included
      have hlater : edits.foldr Edit.replaceSpan (left ++ (kept ++ replaced ++ before)) =
          left ++ kept ++ replaced ++ after := by
        have hlength : (left ++ kept ++ replaced).length =
            offset + kept.length + replaced.length := by
          simp only [List.length_append, hleft]
        simpa using ih hlength
      have htake : (left ++ kept ++ replaced ++ after).take edit.start.toNat = left ++ kept := by
        rw [hstart, Int.toNat_natCast, List.append_assoc, List.take_left']
        rw [List.length_append, hleft]
      have hdrop : (left ++ kept ++ replaced ++ after).drop edit.stop.toNat = after := by
        rw [hstop, Int.toNat_natCast, List.drop_left']
        rw [List.length_append, List.length_append, hleft]
      rw [List.foldr_cons, hlater, Edit.replaceSpan, htake, hdrop]
      simp

namespace Edit

/-- Edits of spans between characters are applied without failure.  Each of them is applied or
skipped, and the skipped ones are noted in the log.  Every applied edit ends before the next one
starts; a skipped edit starts inside an applied one that precedes it.  The result is what replacing
the applied spans one by one from the last to the first leads to, and all that stands between the
spans is kept. -/
theorem applyAll_replaces_disjoint_spans
    {source : String} {edits : List Edit} (hfits : ∀ edit ∈ edits, edit.Fits source) :
    ∃ result, applyAll source edits = ⟨(skipped edits).map skipEntry, .ok result⟩ ∧
      (applied edits ++ skipped edits).Perm edits ∧
      (applied edits).Sublist (inOrder edits) ∧
      (applied edits).Pairwise (fun a b => a.stop ≤ b.start) ∧
      (∀ edit ∈ skipped edits, ∃ other ∈ applied edits, [other, edit].Sublist (inOrder edits) ∧
        precedes other edit = true ∧ other.start ≤ edit.start ∧ edit.start < other.stop) ∧
      bytes result = (applied edits).foldr replaceSpan (bytes source) ∧
      Spliced 0 (applied edits) (bytes source) (bytes result) := by
  have hfits' : ∀ edit ∈ applied edits, edit.Fits source :=
    fun edit hedit => hfits edit (mem_of_mem_applied hedit)
  have hstart : ∀ edit ∈ edits, 0 ≤ edit.start := by
    intro edit hedit
    obtain ⟨start, -, hstart, -⟩ := hfits edit hedit
    omega
  have hspan : ∀ edit ∈ applied edits, edit.start ≤ edit.stop := by
    intro edit hedit
    obtain ⟨start, stop, hstart, hstop, hle, -⟩ := hfits' edit hedit
    omega
  have hsequential : Sequential 0 (applied edits) := sequential_applicable 0 _
  obtain ⟨result, happly, hbytes⟩ := exists_applyAll fun edit hedit => (hfits edit hedit).aligned
  have hspliced : Spliced 0 (applied edits) (bytes source) (bytes result) := by
    rw [hbytes]
    exact spliced_splice (Nat.zero_le _) hfits' hsequential
  refine ⟨result, happly, applied_append_skipped_perm edits, applicable_sublist 0 _,
    hsequential.pairwise hspan, fun edit => exists_applied_of_mem_skipped hstart, ?_, hspliced⟩
  exact (@Spliced.foldr_replaceSpan _ _ _ _ hspliced [] rfl).symm

/-- Two insertions at one offset, a replacement of the character there, and a second replacement
that also takes the next character. -/
def crowdedEdits : List Edit :=
  [⟨0, 1, "A"⟩, ⟨1, 1, "+"⟩, ⟨1, 1, "-"⟩, ⟨1, 3, "e"⟩, ⟨1, 4, "!"⟩]

theorem applyAll_replaces_disjoint_spans_of_crowdedEdits :
    (∀ edit ∈ crowdedEdits, edit.Fits "aéz") ∧
      skipped crowdedEdits = [⟨1, 4, "!"⟩] ∧
      applyAll "aéz" crowdedEdits = ⟨[skipEntry ⟨1, 4, "!"⟩], .ok "A+-ez"⟩ := by
  have hfits : ∀ edit ∈ crowdedEdits, edit.Fits "aéz" := by
    have hboundary : ∀ offset ∈ [0, 1, 3, 4], Boundary "aéz" offset := by decide
    simp only [List.forall_mem_cons] at hboundary
    obtain ⟨h0, h1, h3, h4, -⟩ := hboundary
    simp only [crowdedEdits, List.forall_mem_cons]
    exact ⟨⟨0, 1, rfl, rfl, by omega, h0, h1⟩, ⟨1, 1, rfl, rfl, by omega, h1, h1⟩,
      ⟨1, 1, rfl, rfl, by omega, h1, h1⟩, ⟨1, 3, rfl, rfl, by omega, h1, h3⟩,
      ⟨1, 4, rfl, rfl, by omega, h1, h4⟩, by simp⟩
  have hordered : inOrder crowdedEdits = crowdedEdits :=
    List.mergeSort_of_pairwise (by decide)
  have hskipped : skipped crowdedEdits = [⟨1, 4, "!"⟩] := by
    rw [skipped, hordered]
    rfl
  have happlied : applied crowdedEdits = crowdedEdits.take 4 := by
    rw [applied, hordered]
    rfl
  obtain ⟨result, happly, -, -, -, -, hbytes, -⟩ := applyAll_replaces_disjoint_spans hfits
  have hresult : bytes result = bytes "A+-ez" := by
    rw [hbytes, happlied]
    decide
  have hsame : result = "A+-ez" := by
    have hdecode := decode_eq_ok_iff.mpr hresult
    rw [decode_bytes] at hdecode
    exact (Except.ok.inj hdecode)
  rw [hskipped, hsame] at happly
  exact ⟨hfits, hskipped, happly⟩

end Edit

end RubyLint
