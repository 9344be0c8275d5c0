import RubyLint.Edits
import RubyLint.Proofs.Outcomes
import RubyLint.Proofs.Utf8RoundTrip
import Mathlib.Tactic

/-!
# Putting edits into a text

What it means to replace the spans of some edits is stated as a relation: both texts consist of the
same kept pieces in the same order, with a replaced span between two of them in the one and its
replacement in the other.  Edits that follow one another are all applied, none is reported as
overlapping, and the text they are applied to and the result stand in this relation.  Disjoint
edits follow one another once they are ordered, and a span that no edit touches is kept.
-/

namespace RubyLint

open Text

/-- The bytes from `offset` on are `before`, and putting in the edits makes them `after`: the
pieces between the spans are kept, and each span gives way to its replacement. -/
inductive Spliced : Nat → List Edit → List UInt8 → List UInt8 → Prop
  | rest (offset : Nat) (kept : List UInt8) : Spliced offset [] kept kept
  | edit {offset : Nat} {edit : Edit} {edits : List Edit} {before after : List UInt8}
      (kept replaced : List UInt8)
      (hstart : edit.start = (offset + kept.length : Nat))
      (hstop : edit.stop = (offset + kept.length + replaced.length : Nat))
      (hedits : Spliced (offset + kept.length + replaced.length) edits before after) :
      Spliced offset (edit :: edits) (kept ++ replaced ++ before)
        (kept ++ bytes edit.replacement ++ after)

/-- The bytes between `start` and `stop` stand unchanged in the result, between what the edits on
their left and those on their right make of the rest. -/
def KeepsSpan (edits : List Edit) (before after : List UInt8) (start stop : Nat) : Prop :=
  ∃ left right before' after', edits = left ++ right ∧
    Spliced 0 left (before.take start) before' ∧ Spliced stop right (before.drop stop) after' ∧
    after = before' ++ slice before start stop ++ after'

namespace Edit

/-- One of the edits ends before the other starts. -/
def Disjoint (a b : Edit) : Prop :=
  a.stop ≤ b.start ∨ b.stop ≤ a.start

instance (a b : Edit) : Decidable (a.Disjoint b) :=
  inferInstanceAs (Decidable (_ ∨ _))

theorem Disjoint.symm {a b : Edit} (hdisjoint : a.Disjoint b) : b.Disjoint a :=
  Or.symm hdisjoint

/-- The edit covers a part of `source` that starts and ends between characters. -/
def Fits (source : String) (edit : Edit) : Prop :=
  ∃ start stop : Nat, edit.start = start ∧ edit.stop = stop ∧ start ≤ stop ∧
    Boundary source start ∧ Boundary source stop

/-- The edit starts and ends between characters of `source`, perhaps the wrong way round. -/
def Aligned (source : String) (edit : Edit) : Prop :=
  ∃ start stop : Nat, edit.start = start ∧ edit.stop = stop ∧
    Boundary source start ∧ Boundary source stop

theorem Fits.aligned {source : String} {edit : Edit} (hfits : edit.Fits source) :
    edit.Aligned source := by
  obtain ⟨start, stop, hstart, hstop, -, hboundary⟩ := hfits
  exact ⟨start, stop, hstart, hstop, hboundary⟩

/-- No edit starts before `cursor` or before the end of the one in front of it. -/
def Sequential : Int → List Edit → Prop
  | _, [] => True
  | cursor, edit :: rest => cursor ≤ edit.start ∧ Sequential edit.stop rest

theorem sequential_of_pairwise {cursor : Int} {edits : List Edit}
    (hcursor : ∀ edit ∈ edits, cursor ≤ edit.start)
    (hpairwise : edits.Pairwise fun a b => a.stop ≤ b.start) : Sequential cursor edits := by
  induction edits generalizing cursor with
  | nil => trivial
  | cons edit rest ih =>
      rw [List.pairwise_cons] at hpairwise
      exact ⟨hcursor edit (by simp), ih hpairwise.1 hpairwise.2⟩

theorem applicable_of_sequential {cursor : Int} {edits : List Edit}
    (hsequential : Sequential cursor edits) : applicable cursor edits = edits := by
  induction edits generalizing cursor with
  | nil => rfl
  | cons edit rest ih =>
      rw [applicable, if_neg (by simpa using hsequential.1), ih hsequential.2]

theorem overlapping_of_sequential {cursor : Int} {edits : List Edit}
    (hsequential : Sequential cursor edits) : overlapping cursor edits = [] := by
  induction edits generalizing cursor with
  | nil => rfl
  | cons edit rest ih =>
      rw [overlapping, if_neg (by simpa using hsequential.1), ih hsequential.2]

/-! ## The order of application -/

theorem inOrder_perm (edits : List Edit) : (inOrder edits).Perm edits :=
  List.mergeSort_perm edits precedes

theorem precedes_iff {a b : Edit} :
    precedes a b = true ↔ a.start < b.start ∨ a.start = b.start ∧ a.stop ≤ b.stop := by
  simp [precedes]

theorem pairwise_precedes_inOrder (edits : List Edit) :
    (inOrder edits).Pairwise fun a b => precedes a b := by
  apply List.pairwise_mergeSort
  · intro a b c hab hbc
    rw [precedes_iff] at hab hbc ⊢
    omega
  · intro a b
    rw [Bool.or_eq_true, precedes_iff, precedes_iff]
    omega

/-- The edits that are applied, in order. -/
def applied (edits : List Edit) : List Edit :=
  applicable 0 (inOrder edits)

/-- The edits that are skipped, in order. -/
def skipped (edits : List Edit) : List Edit :=
  overlapping 0 (inOrder edits)

theorem applicable_sublist (cursor : Int) (edits : List Edit) :
    (applicable cursor edits).Sublist edits := by
  induction edits generalizing cursor with
  | nil => exact .slnil
  | cons edit rest ih =>
      rw [applicable]
      split
      · exact (ih cursor).cons edit
      · exact (ih edit.stop).cons_cons edit

theorem mem_of_mem_applied {edits : List Edit} {edit : Edit} (hedit : edit ∈ applied edits) :
    edit ∈ edits :=
  (inOrder_perm edits).mem_iff.mp ((applicable_sublist 0 _).subset hedit)

/-- Disjoint edits that are not empty follow one another once they are ordered. -/
theorem sequential_inOrder {edits : List Edit} (hstart : ∀ edit ∈ edits, 0 ≤ edit.start)
    (hspan : ∀ edit ∈ edits, edit.start < edit.stop) (hdisjoint : edits.Pairwise Disjoint) :
    Sequential 0 (inOrder edits) := by
  have hmem : ∀ edit, edit ∈ inOrder edits ↔ edit ∈ edits := fun edit =>
    (inOrder_perm edits).mem_iff
  apply sequential_of_pairwise
  · intro edit hedit
    exact hstart edit ((hmem edit).mp hedit)
  · have hdisjoint' : (inOrder edits).Pairwise Disjoint :=
      ((inOrder_perm edits).pairwise_iff Disjoint.symm).mpr hdisjoint
    have hboth := (pairwise_precedes_inOrder edits).and hdisjoint'
    refine hboth.imp_of_mem ?_
    rintro a b ha hb ⟨hprecedes, hab⟩
    have hspan' := hspan b ((hmem b).mp hb)
    rw [precedes_iff] at hprecedes
    rcases hab with hab | hba
    · exact hab
    · omega

/-! ## The result -/

theorem drop_eq_append_drop (data : List UInt8) {start stop : Nat} (hspan : start ≤ stop) :
    data.drop start = (data.take stop).drop start ++ data.drop stop := by
  have hstop : data.drop stop = (data.drop start).drop (stop - start) := by
    rw [List.drop_drop, Nat.add_sub_cancel' hspan]
  rw [List.drop_take, hstop, List.take_append_drop]

theorem isText_splice {source : String} {cursor : Nat} {edits : List Edit}
    (hcursor : Boundary source cursor) (haligned : ∀ edit ∈ edits, edit.Aligned source) :
    IsText (splice (bytes source) cursor edits) := by
  induction edits generalizing cursor with
  | nil => exact hcursor.isText_sliceFrom
  | cons edit rest ih =>
      obtain ⟨start, stop, hstart, hstop, hstart', hstop'⟩ := haligned edit (by simp)
      have hrest := ih hstop' fun other hother => haligned other (by simp [hother])
      rw [splice, hstart, hstop]
      exact ((hcursor.isText_slice hstart').append (isText_bytes _)).append hrest

/-- What is written to the log about a skipped edit. -/
def skipEntry (edit : Edit) : Log.Entry :=
  ⟨.debug, .fixing, "Skipping overlapping edit at byte " ++ toString edit.start⟩

theorem applyAll_eq (source : String) (edits : List Edit) :
    applyAll source edits = ⟨(skipped edits).map skipEntry,
      (decode (splice (bytes source) 0 (applied edits))).mapError Failure.illFormedText⟩ := by
  show Traced.bind (Traced.collect _ (skipped edits)) _ = _
  rw [Traced.collect_write]
  show Traced.mk (_ ++ []) _ = _
  rw [List.append_nil]
  rfl

theorem applyAll_outcome_eq_ok_iff {source text : String} {edits : List Edit} :
    (applyAll source edits).outcome = .ok text ↔
      bytes text = splice (bytes source) 0 (applied edits) := by
  rw [applyAll_eq, Outcome.mapError_eq_ok_iff, decode_eq_ok_iff, eq_comm]

/-- Edits that start and end between characters leave a text. -/
theorem exists_applyAll {source : String} {edits : List Edit}
    (haligned : ∀ edit ∈ edits, edit.Aligned source) :
    ∃ text, applyAll source edits = ⟨(skipped edits).map skipEntry, .ok text⟩ ∧
      bytes text = splice (bytes source) 0 (applied edits) := by
  have hboundary : Boundary source 0 := ⟨[], source.toList, rfl, rfl⟩
  obtain ⟨text, hdecode, hbytes⟩ :=
    (isText_splice hboundary fun edit hedit => haligned edit (mem_of_mem_applied hedit)).decode
  rw [Nat.cast_zero] at hdecode hbytes
  exact ⟨text, by rw [applyAll_eq, hdecode]; rfl, hbytes⟩

theorem spliced_splice {source : String} {cursor : Nat} {edits : List Edit}
    (hcursor : cursor ≤ (bytes source).length) (hfits : ∀ edit ∈ edits, edit.Fits source)
    (hsequential : Sequential cursor edits) :
    Spliced cursor edits ((bytes source).drop cursor) (splice (bytes source) cursor edits) := by
  induction edits generalizing cursor with
  | nil =>
      rw [splice, sliceFrom_natCast _ hcursor]
      exact .rest cursor _
  | cons edit rest ih =>
      obtain ⟨start, stop, hstart, hstop, hspan, -, hstop'⟩ := hfits edit (by simp)
      obtain ⟨hcursor', hsequential⟩ := hsequential
      rw [hstart, Nat.cast_le] at hcursor'
      rw [hstop] at hsequential
      have hend := hstop'.le_length
      have hrest := ih hend (fun other hother => hfits other (by simp [hother])) hsequential
      -- the bytes from the cursor on are the kept piece, the span and what follows it
      have hkept : (((bytes source).take start).drop cursor).length = start - cursor := by
        simp; omega
      have hreplaced : (((bytes source).take stop).drop start).length = stop - start := by
        simp; omega
      have hoffset : cursor + (start - cursor) = start := by omega
      have hoffset' : start + (stop - start) = stop := by omega
      have hsplit : (bytes source).drop cursor =
          ((bytes source).take start).drop cursor ++ ((bytes source).take stop).drop start ++
            (bytes source).drop stop := by
        rw [drop_eq_append_drop _ hcursor', drop_eq_append_drop _ hspan, List.append_assoc]
      rw [splice, hstart, hstop, slice_natCast, hsplit]
      apply Spliced.edit
      · rw [hkept, hoffset, hstart]
      · rw [hkept, hreplaced, hoffset, hoffset', hstop]
      · rw [hkept, hreplaced, hoffset, hoffset']
        exact hrest

end Edit

/-- A piece that every edit leaves on one side is kept. -/
theorem Spliced.exists_kept {offset : Nat} {edits : List Edit} {before after : List UInt8}
    (hspliced : Spliced offset edits before after) {left middle right : List UInt8}
    (hbefore : before = left ++ middle ++ right)
    (hedits : ∀ edit ∈ edits, edit.stop ≤ (offset + left.length : Nat) ∨
      (offset + left.length + middle.length : Nat) ≤ edit.start) :
    ∃ edits' edits'' left' right', edits = edits' ++ edits'' ∧
      Spliced offset edits' left left' ∧
      Spliced (offset + left.length + middle.length) edits'' right right' ∧
      after = left' ++ middle ++ right' := by
  induction hspliced generalizing left with
  | rest offset kept => exact ⟨[], [], left, right, rfl, .rest _ _, .rest _ _, hbefore⟩
  | @edit offset edit edits before after kept replaced hstart hstop hrest ih =>
      rcases hedits edit (by simp) with hleft | hright
      · -- the edit lies in `left`, so what follows the edit starts with the rest of `left`
        have hstarts : kept ++ replaced <+: left := by
          refine List.prefix_of_prefix_length_le (List.prefix_append _ before) ?_ ?_
          · rw [hbefore, List.append_assoc]
            exact List.prefix_append _ _
          · rw [List.length_append]
            omega
        obtain ⟨left, rfl⟩ := hstarts
        have hbefore' : before = left ++ middle ++ right := by
          simpa using hbefore
        have hlength : offset + (kept ++ replaced ++ left).length =
            offset + kept.length + replaced.length + left.length := by
          simp only [List.length_append]
          omega
        rw [hlength] at hedits ⊢
        obtain ⟨edits', edits'', left', right', rfl, hleft', hright', rfl⟩ :=
          ih hbefore' fun other hother => hedits other (by simp [hother])
        exact ⟨edit :: edits', edits'', _, right', rfl,
          .edit kept replaced hstart hstop hleft', hright', by simp⟩
      · -- the edit lies behind `middle`, so all of `left ++ middle` is kept
        have hstarts : left ++ middle <+: kept := by
          refine List.prefix_of_prefix_length_le (hbefore ▸ List.prefix_append _ right) ?_ ?_
          · rw [List.append_assoc]
            exact List.prefix_append _ _
          · rw [List.length_append]
            omega
        obtain ⟨kept, rfl⟩ := hstarts
        have hright' : kept ++ replaced ++ before = right := by
          simpa using hbefore
        have hlength : offset + (left ++ middle ++ kept).length =
            offset + left.length + middle.length + kept.length := by
          simp only [List.length_append]
          omega
        rw [hlength] at hstart hstop hrest
        subst hright'
        exact ⟨[], edit :: edits, left, _, rfl, .rest _ _, .edit kept replaced hstart hstop hrest,
          by simp⟩

theorem Spliced.keepsSpan {edits : List Edit} {before after : List UInt8}
    (hspliced : Spliced 0 edits before after) {start stop : Nat} (hspan : start ≤ stop)
    (hstop : stop ≤ before.length)
    (hedits : ∀ edit ∈ edits, edit.stop ≤ start ∨ stop ≤ edit.start) :
    KeepsSpan edits before after start stop := by
  have hleft : (before.take start).length = start := by
    simp; omega
  have hmiddle : (slice before start stop).length = stop - start := by
    simp [slice_natCast]; omega
  have hbefore : before = before.take start ++ slice before start stop ++ before.drop stop := by
    rw [slice_natCast, List.append_assoc, ← Edit.drop_eq_append_drop _ hspan,
      List.take_append_drop]
  have hlength : 0 + (before.take start).length + (slice before start stop).length = stop := by
    omega
  obtain ⟨left, right, before', after', hsplit, hleft', hright', hafter⟩ :=
    hspliced.exists_kept hbefore (by rwa [hlength, hleft, Nat.zero_add])
  rw [hlength] at hright'
  exact ⟨left, right, before', after', hsplit, hleft', hright', hafter⟩

/-! ## Applying the edits of issues -/

theorem applyFixes_eq_applyAll (source : String) (issues : List Issue) :
    applyFixes source issues = Edit.applyAll source (Issue.edits issues) := by
  unfold applyFixes
  split
  next hnone =>
    have hwhole : Edit.splice (bytes source) 0 [] = bytes source :=
      @sliceFrom_natCast _ (bytes source) 0 (Nat.zero_le _)
    have hdecode := decode_bytes source
    rw [← hwhole] at hdecode
    rw [hnone]
    unfold Edit.applyAll
    simp only [Edit.inOrder, List.mergeSort_nil, Edit.applicable, Edit.overlapping, hdecode]
    rfl
  next => rfl

/-- Disjoint edits are all put in at once: none is reported as overlapping, and the result is the
source with the span of every edit replaced. -/
theorem Edit.applyAll_of_disjoint {source : String} {edits : List Edit}
    (hfits : ∀ edit ∈ edits, edit.Fits source)
    (hspan : ∀ edit ∈ edits, edit.start < edit.stop) (hdisjoint : edits.Pairwise Disjoint) :
    ∃ result, applyAll source edits = ⟨[], .ok result⟩ ∧
      Spliced 0 (inOrder edits) (bytes source) (bytes result) := by
  have hfits' : ∀ edit ∈ inOrder edits, edit.Fits source := by
    intro edit hedit
    exact hfits edit ((inOrder_perm edits).mem_iff.mp hedit)
  have hstart : ∀ edit ∈ edits, 0 ≤ edit.start := by
    intro edit hedit
    obtain ⟨start, -, hstart, -⟩ := hfits edit hedit
    omega
  have hsequential := sequential_inOrder hstart hspan hdisjoint
  obtain ⟨result, happly, hbytes⟩ := exists_applyAll fun edit hedit => (hfits edit hedit).aligned
  rw [skipped, overlapping_of_sequential hsequential] at happly
  rw [applied, applicable_of_sequential hsequential] at hbytes
  refine ⟨result, happly, ?_⟩
  rw [hbytes]
  exact spliced_splice (Nat.zero_le _) hfits' hsequential

end RubyLint
