import RubyLint.Proofs.EditSplice
import RubyLint.Proofs.StableSort
import Mathlib.Data.Prod.Lex
import Mathlib.Tactic

/-!
# The order in which edits are given

Edits are sorted by their spans before the first of them is applied.  Where edits with one span
agree on the replacement, the span determines the edit, so the sorted list depends only on which
edits there are and how often each occurs.  All that follows, the choice among overlapping edits
included, is read off the sorted list.  Hence neither the order of the issues nor the way the edits
are shared out among them leaves a trace.  No assumption is made on the spans themselves: they may
overlap, be empty or reversed, or lie outside the source.
-/

namespace RubyLint

open Text

namespace Edit

variable {edits others : List Edit}

/-- What edits are sorted by. -/
def span (edit : Edit) : ℤ ×ₗ ℤ :=
  toLex (edit.start, edit.stop)

/-- No two of the edits put different texts in the place of one span. -/
def Consistent (edits : List Edit) : Prop :=
  ∀ a ∈ edits, ∀ b ∈ edits, a.start = b.start → a.stop = b.stop → a.replacement = b.replacement

theorem precedes_iff_span_le (a b : Edit) : precedes a b = true ↔ a.span ≤ b.span := by
  rw [precedes_iff, span, span, Prod.Lex.toLex_le_toLex]

theorem Consistent.eq_of_span_eq (hconsistent : Consistent edits)
    {a b : Edit} (ha : a ∈ edits) (hb : b ∈ edits) (hspan : a.span = b.span) : a = b := by
  have hbounds : (a.start, a.stop) = (b.start, b.stop) := toLex.injective hspan
  obtain ⟨hstart, hstop⟩ := Prod.mk.inj hbounds
  have hreplacement := hconsistent a ha b hb hstart hstop
  cases a
  cases b
  simp_all

theorem inOrder_eq_of_perm (hconsistent : Consistent edits) (hperm : edits.Perm others) :
    inOrder edits = inOrder others := by
  apply StableSort.mergeSort_eq_of_perm precedes_iff_span_le hperm
  intro a ha b hb
  exact hconsistent.eq_of_span_eq ha hb

end Edit

/-- Applying fixes fails only where what it leads to is no text. -/
theorem applyFixes_outcome_cases (source : String) (issues : List Issue) :
    (∃ text, (applyFixes source issues).outcome = .ok text) ∨
      ∃ fault, (applyFixes source issues).outcome = .error (.illFormedText fault) := by
  rw [applyFixes_eq_applyAll, Edit.applyAll_eq]
  cases decode (Edit.splice (bytes source) 0 (Edit.applied (Issue.edits issues))) with
  | ok text => exact .inl ⟨text, rfl⟩
  | error fault => exact .inr ⟨fault, rfl⟩

/-- Two lists of issues whose fixable issues carry the same edits, each as often in the one as in
the other, lead to the same result and the same log: to a text, or to the same fault where the bytes
are no text.  The same edits are applied and the same are skipped. -/
theorem applyFixes_ignores_grouping
    (source : String) {issues others : List Issue}
    (hperm : (Issue.edits issues).Perm (Issue.edits others))
    (hconsistent : Edit.Consistent (Issue.edits issues)) :
    applyFixes source issues = applyFixes source others ∧
    ((∃ text, (applyFixes source issues).outcome = .ok text ∧
        (applyFixes source others).outcome = .ok text) ∨
      ∃ fault, (applyFixes source issues).outcome = .error (.illFormedText fault) ∧
        (applyFixes source others).outcome = .error (.illFormedText fault)) ∧
    Edit.applied (Issue.edits issues) = Edit.applied (Issue.edits others) ∧
    Edit.skipped (Issue.edits issues) = Edit.skipped (Issue.edits others) := by
  have horder := Edit.inOrder_eq_of_perm hconsistent hperm
  have happlied : Edit.applied (Issue.edits issues) = Edit.applied (Issue.edits others) := by
    rw [Edit.applied, Edit.applied, horder]
  have hskipped : Edit.skipped (Issue.edits issues) = Edit.skipped (Issue.edits others) := by
    rw [Edit.skipped, Edit.skipped, horder]
  have hsame : applyFixes source issues = applyFixes source others := by
    rw [applyFixes_eq_applyAll, applyFixes_eq_applyAll, Edit.applyAll_eq, Edit.applyAll_eq,
      happlied, hskipped]
  refine ⟨hsame, ?_, happlied, hskipped⟩
  rw [← hsame]
  simpa using applyFixes_outcome_cases source issues

/-- An issue that brings the given edits. -/
def issueWith (autoFixable : Bool) (fixes : List Edit) : Issue :=
  ⟨.anonymous, 1, 0, "P001", "", .warning, autoFixable, none, 0, 0, fixes⟩

theorem applyFixes_ignores_grouping_of_reversed_span :
    (applyFixes "abcdef" [issueWith true [⟨0, 4, "X"⟩],
      issueWith true [⟨3, 5, "Y"⟩, ⟨9, 2, "R"⟩]]).outcome = .ok "XefRcdef" ∧
    (applyFixes "abcdef" [issueWith true [⟨9, 2, "R"⟩, ⟨0, 4, "X"⟩],
      issueWith false [⟨0, 6, ""⟩], issueWith true [⟨3, 5, "Y"⟩]]).outcome = .ok "XefRcdef" := by
  let issues : List Issue := [issueWith true [⟨0, 4, "X"⟩],
    issueWith true [⟨3, 5, "Y"⟩, ⟨9, 2, "R"⟩]]
  let others : List Issue := [issueWith true [⟨9, 2, "R"⟩, ⟨0, 4, "X"⟩],
    issueWith false [⟨0, 6, ""⟩], issueWith true [⟨3, 5, "Y"⟩]]
  have hperm : (Issue.edits issues).Perm (Issue.edits others) := by decide
  have hconsistent : Edit.Consistent (Issue.edits issues) := by
    unfold Edit.Consistent
    decide
  have hordered : Edit.inOrder (Issue.edits issues) = Issue.edits issues :=
    List.mergeSort_of_pairwise (by decide)
  have hresult : (applyFixes "abcdef" issues).outcome = .ok "XefRcdef" := by
    rw [applyFixes_eq_applyAll, Edit.applyAll_outcome_eq_ok_iff, Edit.applied, hordered]
    decide
  have hsame := (applyFixes_ignores_grouping "abcdef" hperm hconsistent).1
  exact ⟨hresult, hsame ▸ hresult⟩

end RubyLint
