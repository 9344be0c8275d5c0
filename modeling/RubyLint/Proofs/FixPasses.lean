import RubyLint.Fixing
import RubyLint.Proofs.Outcomes
import Mathlib.Tactic

/-!
# Fixing pass by pass

The loop that fixes a text is told apart from its passes.  A pass applies the edits of the issues
that can be fixed, gets another text and has it analysed.  The loop makes passes until nothing can
be fixed, until the edits change nothing, or until the budget is used up, and a run of the loop is a
sequence of passes with one of these three ends.

Whatever holds of the first state and is kept by a pass therefore holds of the result.  Above all
this is the account that a state gives of the run so far: which texts were analysed, that each comes
from the one before by its own fixes, and that the issues at hand are those of the last one.
-/

namespace RubyLint

namespace FixRun

variable {analysis : Analysis} {source : String} {run next last final : FixRun} {n budget : Nat}

def fixable (run : FixRun) : List Issue :=
  run.issues.filter (·.autoFixable)

def initial (source : String) (issues : List Issue) : FixRun :=
  ⟨source, 0, 0, issues, [source]⟩

/-- The state after a pass that has made the text `source`, whose issues are `issues`. -/
def afterPass (run : FixRun) (source : String) (issues : List Issue) : FixRun where
  source := source
  passes := run.passes + 1
  fixedCount := run.fixedCount + (run.issues.length - issues.length)
  issues := issues
  analysed := run.analysed ++ [source]

/-- A pass that gets another text. -/
inductive Pass (analysis : Analysis) (run : FixRun) : FixRun → Prop
  | intro {source : String} {issues : List Issue}
      (happly : (applyFixes run.source run.fixable).outcome = .ok source)
      (hchanged : source ≠ run.source)
      (hissues : (analysis run.analysed.length source).outcome = .ok issues) :
      Pass analysis run (run.afterPass source issues)

inductive Passes (analysis : Analysis) : Nat → FixRun → FixRun → Prop
  | refl (run : FixRun) : Passes analysis 0 run run
  | cons {n : Nat} {run next last : FixRun} (hpass : Pass analysis run next)
      (hpasses : Passes analysis n next last) : Passes analysis (n + 1) run last

/-- The three ends of a run with a budget of passes. -/
inductive Ends (analysis : Analysis) (budget : Nat) (run : FixRun) : FixRun → Prop
  | exhausted {last : FixRun} (hpasses : Passes analysis budget run last) :
      Ends analysis budget run last
  | nothingFixable {n : Nat} {last : FixRun} (hn : n < budget)
      (hpasses : Passes analysis n run last) (hnone : last.fixable = []) :
      Ends analysis budget run last
  | unchanged {n : Nat} {last : FixRun} (hn : n < budget)
      (hpasses : Passes analysis n run last)
      (happly : (applyFixes last.source last.fixable).outcome = .ok last.source) :
      Ends analysis budget run { last with passes := last.passes + 1 }

theorem Ends.cons
    (hpass : Pass analysis run next) (hends : Ends analysis budget next final) :
    Ends analysis (budget + 1) run final := by
  cases hends with
  | exhausted hpasses => exact .exhausted (.cons hpass hpasses)
  | nothingFixable hn hpasses hnone =>
      exact .nothingFixable (Nat.succ_lt_succ hn) (.cons hpass hpasses) hnone
  | unchanged hn hpasses happly =>
      exact .unchanged (Nat.succ_lt_succ hn) (.cons hpass hpasses) happly

/-! ## The loop makes passes -/

theorem resume_of_nothingFixable (path : Path) (hnone : run.fixable = []) :
    resume analysis path (budget + 1) run = pure run := by
  have hempty : (run.issues.filter (·.autoFixable)).isEmpty = true := by
    rw [List.isEmpty_iff]
    exact hnone
  rw [resume]
  simp [hempty]

/-- What the loop does with a text that has issues to fix. -/
theorem resume_of_fixable (path : Path) (hsome : run.fixable ≠ []) :
    (resume analysis path (budget + 1) run).outcome =
      (applyFixes run.source run.fixable).outcome.bind fun text =>
        if text = run.source then .ok { run with passes := run.passes + 1 }
        else (analysis run.analysed.length text).outcome.bind fun issues =>
          (resume analysis path budget (run.afterPass text issues)).outcome := by
  have hsome' : (run.issues.filter (·.autoFixable)).isEmpty = false := by
    rw [List.isEmpty_eq_false_iff]
    exact hsome
  rw [resume]
  simp only [hsome', Bool.false_eq_true, if_false, Traced.outcome_bind, fixable]
  cases (applyFixes run.source (run.issues.filter (·.autoFixable))).outcome with
  | error e => rfl
  | ok text =>
      by_cases hsame : text = run.source
      · simp [hsame, Except.bind]
      · simp only [Except.bind, beq_iff_eq, hsame, if_false, Traced.outcome_bind]
        cases (analysis run.analysed.length text).outcome with
        | error e => rfl
        | ok issues =>
            -- the warning about a used-up budget leaves the outcome alone
            simp only
            split <;> rfl

theorem resume_of_pass (path : Path) (hpass : Pass analysis run next) :
    (resume analysis path (budget + 1) run).outcome =
      (resume analysis path budget next).outcome := by
  obtain ⟨happly, hchanged, hissues⟩ := hpass
  have hsome : run.fixable ≠ [] := by
    intro hnone
    rw [hnone] at happly
    cases happly
    exact hchanged rfl
  rw [resume_of_fixable path hsome, happly]
  simp only [Except.bind, hchanged, if_false, hissues]

theorem ends_of_resume
    {path : Path} (hresume : (resume analysis path budget run).outcome = .ok final) :
    Ends analysis budget run final := by
  induction budget generalizing run with
  | zero =>
      cases hresume
      exact .exhausted (.refl _)
  | succ budget ih =>
      by_cases hnone : run.fixable = []
      · rw [resume_of_nothingFixable path hnone] at hresume
        cases hresume
        exact .nothingFixable (Nat.succ_pos budget) (.refl _) hnone
      · rw [resume_of_fixable path hnone] at hresume
        obtain ⟨text, happly, hresume⟩ := Outcome.bind_eq_ok_iff.mp hresume
        split at hresume
        next hsame =>
          cases hresume
          rw [hsame] at happly
          exact .unchanged (Nat.succ_pos budget) (.refl _) happly
        next hchanged =>
          obtain ⟨issues, hissues, hresume⟩ := Outcome.bind_eq_ok_iff.mp hresume
          exact (ih hresume).cons (.intro happly hchanged hissues)

/-- The loop comes to an end if every analysis answers and the fixes of every text that passes lead
to can be applied. -/
theorem exists_resume
    (path : Path)
    (hanswers : ∀ earlier text, ∃ issues, (analysis earlier text).outcome = .ok issues)
    (hfixes : ∀ n last, n < budget → Passes analysis n run last →
      ∃ text, (applyFixes last.source last.fixable).outcome = .ok text) :
    ∃ final, (resume analysis path budget run).outcome = .ok final := by
  induction budget generalizing run with
  | zero => exact ⟨run, rfl⟩
  | succ budget ih =>
      by_cases hnone : run.fixable = []
      · exact ⟨run, by rw [resume_of_nothingFixable path hnone]; rfl⟩
      · obtain ⟨text, happly⟩ := hfixes 0 run (Nat.succ_pos budget) (.refl run)
        by_cases hsame : text = run.source
        · refine ⟨{ run with passes := run.passes + 1 }, ?_⟩
          rw [resume_of_fixable path hnone, happly]
          simp [Except.bind, hsame]
        · obtain ⟨issues, hissues⟩ := hanswers run.analysed.length text
          have hpass : Pass analysis run (run.afterPass text issues) :=
            .intro happly hsame hissues
          rw [resume_of_pass path hpass]
          apply ih
          intro n last hn hpasses
          exact hfixes (n + 1) last (Nat.succ_lt_succ hn) (.cons hpass hpasses)

/-! ## What passes keep -/

theorem Passes.invariant
    (Holds : FixRun → Prop) (hstep : ∀ run next, Pass analysis run next → Holds run → Holds next)
    (hpasses : Passes analysis n run last) (hrun : Holds run) : Holds last := by
  induction hpasses with
  | refl run => exact hrun
  | cons hpass hpasses ih => exact ih (hstep _ _ hpass hrun)

/-- What a pass keeps, and the number of passes does not matter to, holds at the end of a run. -/
theorem Ends.invariant
    (Holds : FixRun → Prop) (hstep : ∀ run next, Pass analysis run next → Holds run → Holds next)
    (hcount : ∀ run, Holds run → Holds { run with passes := run.passes + 1 })
    (hends : Ends analysis budget run final) (hrun : Holds run) : Holds final := by
  cases hends with
  | exhausted hpasses => exact hpasses.invariant Holds hstep hrun
  | nothingFixable _ hpasses _ => exact hpasses.invariant Holds hstep hrun
  | unchanged _ hpasses _ => exact hcount _ (hpasses.invariant Holds hstep hrun)

theorem Passes.passes_eq (hpasses : Passes analysis n run last) :
    last.passes = run.passes + n := by
  induction hpasses with
  | refl run => rfl
  | cons hpass hpasses ih =>
      cases hpass
      rw [ih]
      simp only [afterPass]
      omega

theorem Ends.passes_le (hends : Ends analysis budget run final) :
    final.passes ≤ run.passes + budget := by
  cases hends with
  | exhausted hpasses => exact hpasses.passes_eq.le
  | nothingFixable hn hpasses _ =>
      have hcount := hpasses.passes_eq
      omega
  | unchanged hn hpasses _ =>
      have hcount := hpasses.passes_eq
      simp only
      omega

/-- A run that has passes left over ends with a text that its own fixes do not change. -/
theorem Ends.settled
    (hends : Ends analysis budget run final) (hleft : final.passes < run.passes + budget) :
    final.fixable = [] ∨
      (applyFixes final.source final.fixable).outcome = .ok final.source := by
  cases hends with
  | exhausted hpasses => exact absurd hleft (by rw [hpasses.passes_eq]; omega)
  | nothingFixable _ _ hnone => exact .inl hnone
  | unchanged _ _ happly => exact .inr happly

/-! ## The account of a run -/

/-- What a state says about the run that has led to it from `source`. -/
structure Accounts (analysis : Analysis) (source : String) (run : FixRun) : Prop where
  first : run.analysed.head? = some source
  last : run.analysed.getLast? = some run.source
  answer : (analysis (run.analysed.length - 1) run.source).outcome = .ok run.issues
  step : ∀ earlier text text',
    run.analysed[earlier]? = some text → run.analysed[earlier + 1]? = some text' →
      text ≠ text' ∧ ∃ issues, (analysis earlier text).outcome = .ok issues ∧
        (applyFixes text (issues.filter (·.autoFixable))).outcome = .ok text'
  count : run.analysed.length ≤ run.passes + 1
  balance : ∀ issues, (analysis 0 source).outcome = .ok issues →
    issues.length ≤ run.fixedCount + run.issues.length

theorem accounts_initial
    {issues : List Issue} (hissues : (analysis 0 source).outcome = .ok issues) :
    (initial source issues).Accounts analysis source where
  first := rfl
  last := rfl
  answer := hissues
  step := by
    intro earlier text text' _ htext'
    simp [initial] at htext'
  count := le_rfl
  balance := by
    intro issues' hissues'
    rw [hissues] at hissues'
    cases hissues'
    simp [initial]

theorem Accounts.length_pos (haccounts : run.Accounts analysis source) :
    0 < run.analysed.length := by
  have hlast := haccounts.last
  cases hanalysed : run.analysed with
  | nil => simp [hanalysed] at hlast
  | cons text texts => simp

theorem Accounts.afterPass
    (haccounts : run.Accounts analysis source) (hpass : Pass analysis run next) :
    next.Accounts analysis source := by
  obtain ⟨happly, hchanged, hissues⟩ := hpass
  have hpos := haccounts.length_pos
  constructor
  · rw [FixRun.afterPass, List.head?_append, haccounts.first]
    rfl
  · simp [FixRun.afterPass]
  · simpa [FixRun.afterPass] using hissues
  · intro earlier text text' htext htext'
    simp only [FixRun.afterPass] at htext htext'
    by_cases hold : earlier + 1 < run.analysed.length
    · rw [List.getElem?_append_left (by omega)] at htext
      rw [List.getElem?_append_left hold] at htext'
      exact haccounts.step earlier text text' htext htext'
    · -- the later text is the new one, so the earlier one is the last of the old ones
      have hnew : earlier + 1 = run.analysed.length := by
        have hlt := (List.getElem?_eq_some_iff.mp htext').1
        simp only [List.length_append, List.length_singleton] at hlt
        omega
      have hlast := haccounts.last
      rw [List.getLast?_eq_getElem?, ← hnew, Nat.add_sub_cancel] at hlast
      rw [List.getElem?_append_left (by omega), hlast] at htext
      rw [hnew, List.getElem?_concat_length] at htext'
      cases htext
      cases htext'
      have hanswer := haccounts.answer
      rw [← hnew, Nat.add_sub_cancel] at hanswer
      exact ⟨Ne.symm hchanged, run.issues, hanswer, happly⟩
  · have hcount := haccounts.count
    simp only [FixRun.afterPass, List.length_append, List.length_singleton]
    omega
  · intro issues hfirst
    have hbalance := haccounts.balance issues hfirst
    simp only [FixRun.afterPass]
    omega

theorem Accounts.of_ends
    (haccounts : run.Accounts analysis source) (hends : Ends analysis budget run final) :
    final.Accounts analysis source := by
  refine hends.invariant (Accounts analysis source) ?_ ?_ haccounts
  · intro run next hpass hrun
    exact hrun.afterPass hpass
  · intro run hrun
    exact { hrun with count := Nat.le_succ_of_le hrun.count }

theorem start_eq_ok_iff
    {path : Path} {maxPasses : Int} :
    (start analysis path maxPasses source).outcome = .ok final ↔
      ∃ issues, (analysis 0 source).outcome = .ok issues ∧
        (resume analysis path maxPasses.toNat (initial source issues)).outcome = .ok final := by
  unfold start
  rw [Traced.bind_outcome_eq_ok_iff]
  rfl

/-- Fixing a text ends with the last analysed text and its issues, for every analysis that answers
and as long as the fixes can be applied.  There is an analysis for the first text and at most one
for each pass, each analysed text comes from the one before by its fixes and differs from it, no
issue gets lost from the count, and passes are left over only when the text is settled. -/
theorem start_reports_last_analysis
    (analysis : Analysis) (path : Path) (maxPasses : Int) (source : String)
    (hanswers : ∀ earlier text, ∃ issues, (analysis earlier text).outcome = .ok issues)
    (hfixes : ∀ n issues run, n < maxPasses.toNat → (analysis 0 source).outcome = .ok issues →
      Passes analysis n (initial source issues) run →
        ∃ text, (applyFixes run.source run.fixable).outcome = .ok text) :
    ∃ run, (start analysis path maxPasses source).outcome = .ok run ∧
      (run.passes : Int) ≤ max maxPasses 0 ∧ run.analysed.length ≤ run.passes + 1 ∧
      run.analysed.head? = some source ∧ run.analysed.getLast? = some run.source ∧
      (analysis (run.analysed.length - 1) run.source).outcome = .ok run.issues ∧
      (∀ earlier text text',
        run.analysed[earlier]? = some text → run.analysed[earlier + 1]? = some text' →
          text ≠ text' ∧ ∃ issues, (analysis earlier text).outcome = .ok issues ∧
            (applyFixes text (issues.filter (·.autoFixable))).outcome = .ok text') ∧
      (run.modified source = true ↔ run.source ≠ source) ∧
      (∀ issues, (analysis 0 source).outcome = .ok issues →
        issues.length ≤ run.fixedCount + run.issues.length) ∧
      ((run.passes : Int) < maxPasses →
        (∀ issue ∈ run.issues, issue.autoFixable = false) ∨
          (applyFixes run.source (run.issues.filter (·.autoFixable))).outcome =
            .ok run.source) := by
  obtain ⟨issues, hissues⟩ := hanswers 0 source
  obtain ⟨run, hresume⟩ : ∃ run,
      (resume analysis path maxPasses.toNat (initial source issues)).outcome = .ok run := by
    apply exists_resume path hanswers
    intro n last hn hpasses
    exact hfixes n issues last hn hissues hpasses
  have hends := ends_of_resume hresume
  have haccounts := (accounts_initial hissues).of_ends hends
  have hpasses := hends.passes_le
  have hsettled := hends.settled
  simp only [initial, Nat.zero_add] at hpasses hsettled
  refine ⟨run, start_eq_ok_iff.mpr ⟨issues, hissues, hresume⟩, by omega, haccounts.count,
    haccounts.first, haccounts.last, haccounts.answer, haccounts.step, bne_iff_ne,
    haccounts.balance, ?_⟩
  intro hleft
  rcases hsettled (by omega) with hnone | happly
  · left
    simpa [fixable] using hnone
  · exact .inr happly

/-! ## A fix that is offered again and again -/

/-- An issue whose fix puts an `x` in the place of the first byte. -/
def firstByteIssue : Issue :=
  ⟨.anonymous, 1, 1, "X", "", .style, true, none, 0, 1, [⟨0, 1, "x"⟩]⟩

def firstByteAnalysis : Analysis := fun _ _ => pure [firstByteIssue]

theorem applyFixes_firstByteIssue
    {text : String} (htext : text = "ab" ∨ text = "xb") :
    (applyFixes text [firstByteIssue]).outcome = .ok "xb" := by
  have hedits : Issue.edits [firstByteIssue] = [⟨0, 1, "x"⟩] := rfl
  have hordered : Edit.inOrder [⟨0, 1, "x"⟩] = [⟨0, 1, "x"⟩] := List.mergeSort_singleton _
  rw [applyFixes, hedits]
  simp only [Edit.applyAll, hordered]
  rcases htext with rfl | rfl <;> decide +kernel

theorem start_reports_last_analysis_of_firstByteIssue :
    ∃ run, (start firstByteAnalysis .anonymous 3 "ab").outcome = .ok run ∧
      run.passes ≤ 3 ∧ run.analysed.getLast? = some run.source ∧
      1 ≤ run.fixedCount + run.issues.length := by
  have hanswer : ∀ earlier text,
      (firstByteAnalysis earlier text).outcome = .ok [firstByteIssue] :=
    fun _ _ => rfl
  have hfixes : ∀ n issues run, n < (3 : Int).toNat →
      (firstByteAnalysis 0 "ab").outcome = .ok issues →
      Passes firstByteAnalysis n (initial "ab" issues) run →
        ∃ text, (applyFixes run.source run.fixable).outcome = .ok text := by
    intro n issues run _ hissues hpasses
    rw [hanswer] at hissues
    cases hissues
    have hstate : run.issues = [firstByteIssue] ∧ (run.source = "ab" ∨ run.source = "xb") := by
      refine hpasses.invariant
        (fun run => run.issues = [firstByteIssue] ∧ (run.source = "ab" ∨ run.source = "xb"))
        ?_ ⟨rfl, .inl rfl⟩
      rintro run next ⟨happly, -, hissues⟩ ⟨hrun, hsource⟩
      rw [hanswer] at hissues
      cases hissues
      have hsame : run.fixable = [firstByteIssue] := by
        rw [fixable, hrun]
        rfl
      rw [hsame, applyFixes_firstByteIssue hsource] at happly
      cases happly
      exact ⟨rfl, .inr rfl⟩
    refine ⟨"xb", ?_⟩
    rw [fixable, hstate.1]
    exact applyFixes_firstByteIssue hstate.2
  have hanswers : ∀ earlier text, ∃ issues,
      (firstByteAnalysis earlier text).outcome = .ok issues :=
    fun earlier text => ⟨_, hanswer earlier text⟩
  obtain ⟨run, hrun, hpasses, -, -, hlast, -, -, -, hbalance, -⟩ :=
    start_reports_last_analysis _ .anonymous 3 "ab" hanswers hfixes
  exact ⟨run, hrun, by omega, hlast, hbalance [firstByteIssue] (hanswer 0 "ab")⟩

end FixRun

end RubyLint
