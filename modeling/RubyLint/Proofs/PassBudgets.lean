import RubyLint.Proofs.FixPasses
import RubyLint.Proofs.ReplacementReports
import Mathlib.Tactic

/-!
# Splitting the budget of passes

Fixing with a budget of `m + n` passes comes to the same text and the same issues as fixing with a
budget of `m` and then fixing the result with a budget of `n`.  The second run analyses its text
anew where the long run goes on with the issues it has at hand, so the analysis has to depend on the
text alone.  A run that ends early leaves a settled text behind, and no budget gets past that one.
-/

namespace RubyLint

/-- The answer depends on the text and not on earlier analyses. -/
def Analysis.DependsOnText (analysis : Analysis) : Prop :=
  ∀ earlier earlier' text, (analysis earlier text).outcome = (analysis earlier' text).outcome

theorem Engine.analysis_dependsOnText (engine : Engine) (rules : List Rule) (path : Path) :
    (engine.analysis rules path).DependsOnText :=
  fun _ _ _ => rfl

namespace FixRun

variable {analysis : Analysis} {path : Path} {source : String} {run run' : FixRun}
  {m n budget : Nat}

/-- What a run has come to, when `earlier` issues had been fixed before it. -/
def tally (earlier : Nat) (run : FixRun) : String × List Issue × Nat :=
  (run.source, run.issues, earlier + run.fixedCount)

/-- The fixes of the text leave it as it is. -/
def Settled (run : FixRun) : Prop :=
  run.fixable = [] ∨ (applyFixes run.source run.fixable).outcome = .ok run.source

/-- The loop looks at nothing but the text and its issues, and only adds to the count. -/
theorem map_tally_resume
    (htext : analysis.DependsOnText) {earlier earlier' : Nat}
    (hrun : run.tally earlier = run'.tally earlier') :
    (resume analysis path budget run).outcome.map (tally earlier) =
      (resume analysis path budget run').outcome.map (tally earlier') := by
  induction budget generalizing run run' with
  | zero => exact congrArg Except.ok hrun
  | succ budget ih =>
      simp only [tally, Prod.mk.injEq] at hrun
      obtain ⟨hsource, hissues, hcount⟩ := hrun
      have hfixable : run'.fixable = run.fixable := by rw [fixable, fixable, hissues]
      by_cases hnone : run.fixable = []
      · rw [resume_of_nothingFixable path hnone,
          resume_of_nothingFixable path (hfixable.trans hnone)]
        simp [Except.map, tally, hsource, hissues, hcount]
      · rw [resume_of_fixable path hnone, resume_of_fixable path (hfixable ▸ hnone), hfixable,
          ← hsource]
        cases (applyFixes run.source run.fixable).outcome with
        | error e => rfl
        | ok text =>
            simp only [Except.bind]
            by_cases hsame : text = run.source
            · simp [hsame, Except.map, tally, hsource, hissues, hcount]
            · simp only [hsame, if_false]
              rw [htext run'.analysed.length run.analysed.length]
              cases (analysis run.analysed.length text).outcome with
              | error e => rfl
              | ok issues =>
                  apply ih
                  simp only [tally, afterPass, hissues, Prod.mk.injEq, true_and]
                  omega

/-! ## Settled texts -/

theorem resume_of_settled (hsettled : run.Settled) (path : Path) (budget : Nat) :
    ∃ passes, (resume analysis path budget run).outcome = .ok { run with passes := passes } := by
  cases budget with
  | zero => exact ⟨run.passes, rfl⟩
  | succ budget =>
      by_cases hnone : run.fixable = []
      · exact ⟨run.passes, by rw [resume_of_nothingFixable path hnone]; rfl⟩
      · have happly := hsettled.resolve_left hnone
        refine ⟨run.passes + 1, ?_⟩
        rw [resume_of_fixable path hnone, happly]
        simp [Except.bind]

theorem map_tally_resume_of_settled (hsettled : run.Settled) (earlier : Nat) :
    (resume analysis path budget run).outcome.map (tally earlier) = .ok (run.tally earlier) := by
  obtain ⟨passes, hresume⟩ := @resume_of_settled analysis run hsettled path budget
  rw [hresume]
  rfl

/-! ## Two budgets in turn -/

theorem resume_add (earlier : Nat) :
    (resume analysis path (m + n) run).outcome.map (tally earlier) =
      (resume analysis path m run).outcome.bind fun middle =>
        (resume analysis path n middle).outcome.map (tally earlier) := by
  induction m generalizing run with
  | zero => rw [Nat.zero_add]; rfl
  | succ m ih =>
      rw [Nat.succ_add]
      by_cases hnone : run.fixable = []
      · rw [resume_of_nothingFixable path hnone, resume_of_nothingFixable path hnone]
        exact (map_tally_resume_of_settled (.inl hnone) earlier).symm
      · rw [resume_of_fixable path hnone, resume_of_fixable path hnone]
        cases happly : (applyFixes run.source run.fixable).outcome with
        | error e => rfl
        | ok text =>
            simp only [Except.bind]
            by_cases hsame : text = run.source
            · -- the second loop tries the same fixes once more
              have hsettled : Settled { run with passes := run.passes + 1 } := by
                right
                rw [← hsame] at happly ⊢
                exact happly
              simp only [hsame, if_true]
              exact (map_tally_resume_of_settled hsettled earlier).symm
            · simp only [hsame, if_false]
              cases (analysis run.analysed.length text).outcome with
              | error e => rfl
              | ok issues => exact ih

theorem start_outcome (maxPasses : Int) :
    (start analysis path maxPasses source).outcome =
      (analysis 0 source).outcome.bind fun issues =>
        (resume analysis path maxPasses.toNat (initial source issues)).outcome := by
  unfold start
  rw [Traced.outcome_bind]
  rfl

/-- The issues of a result are those that a second run starts with. -/
theorem start_source_of_start
    (htext : analysis.DependsOnText) {maxPasses : Int}
    (hstart : (start analysis path maxPasses source).outcome = .ok run) (maxPasses' : Int) :
    (start analysis path maxPasses' run.source).outcome =
      (resume analysis path maxPasses'.toNat (initial run.source run.issues)).outcome := by
  obtain ⟨issues, hissues, hresume⟩ := start_eq_ok_iff.mp hstart
  have haccounts := (accounts_initial hissues).of_ends (ends_of_resume hresume)
  have hanswer : (analysis 0 run.source).outcome = .ok run.issues :=
    (htext 0 _ run.source).trans haccounts.answer
  rw [start_outcome, hanswer]
  rfl

/-- A long run comes to what two runs in turn come to, also when one of them fails. -/
theorem start_add (htext : analysis.DependsOnText) :
    (start analysis path (m + n : Nat) source).outcome.map (tally 0) =
      (start analysis path m source).outcome.bind fun first =>
        (start analysis path n first.source).outcome.map (tally first.fixedCount) := by
  cases hfirst : (start analysis path m source).outcome with
  | error e =>
      rw [start_outcome] at hfirst ⊢
      cases hissues : (analysis 0 source).outcome with
      | error e' =>
          rw [hissues] at hfirst
          cases hfirst
          rfl
      | ok issues =>
          rw [hissues] at hfirst
          simp only [Except.bind, Int.toNat_natCast] at hfirst ⊢
          rw [resume_add, hfirst]
          rfl
  | ok first =>
      obtain ⟨issues, hissues, hresume⟩ := start_eq_ok_iff.mp hfirst
      simp only [Except.bind]
      rw [start_source_of_start htext hfirst, start_outcome, hissues]
      simp only [Except.bind, Int.toNat_natCast] at hresume ⊢
      rw [resume_add, hresume]
      apply map_tally_resume htext
      simp [tally, initial]

theorem Settled.start_again
    (hsettled : run.Settled) (htext : analysis.DependsOnText) {maxPasses : Int}
    (hstart : (start analysis path maxPasses source).outcome = .ok run) (maxPasses' : Int) :
    ∃ again, (start analysis path maxPasses' run.source).outcome = .ok again ∧
      again.source = run.source ∧ again.issues = run.issues := by
  obtain ⟨passes, hresume⟩ := @resume_of_settled analysis (initial run.source run.issues) hsettled
    path maxPasses'.toNat
  exact ⟨_, (start_source_of_start htext hstart maxPasses').trans hresume, rfl, rfl⟩

/-- Fixing with a budget of `m + n` passes ends with the text and the issues that fixing with a
budget of `m`, and fixing the result with a budget of `n`, ends with; the number of fixed issues is
the sum of the two.  Once a run has passes left over, fixing its text again changes nothing. -/
theorem start_splits_budget
    (analysis : Analysis) (path : Path) (source : String) (m n : Nat)
    (htext : analysis.DependsOnText)
    (hanswers : ∀ earlier text, ∃ issues, (analysis earlier text).outcome = .ok issues)
    (hfixes : ∀ k issues run, k < m + n → (analysis 0 source).outcome = .ok issues →
      Passes analysis k (initial source issues) run →
        ∃ text, (applyFixes run.source run.fixable).outcome = .ok text) :
    ∃ whole first second,
      (start analysis path (m + n : Nat) source).outcome = .ok whole ∧
      (start analysis path m source).outcome = .ok first ∧
      (start analysis path n first.source).outcome = .ok second ∧
      whole.source = second.source ∧ whole.issues = second.issues ∧
      whole.fixedCount = first.fixedCount + second.fixedCount ∧
      (first.passes < m → ∀ maxPasses, ∃ again,
        (start analysis path maxPasses first.source).outcome = .ok again ∧
        again.modified first.source = false ∧ again.issues = first.issues) := by
  obtain ⟨issues, hissues⟩ := hanswers 0 source
  obtain ⟨whole, hresume⟩ : ∃ whole,
      (resume analysis path (m + n) (initial source issues)).outcome = .ok whole := by
    apply exists_resume path hanswers
    intro k last hk hpasses
    exact hfixes k issues last hk hissues hpasses
  have hwhole : (start analysis path (m + n : Nat) source).outcome = .ok whole :=
    start_eq_ok_iff.mpr ⟨issues, hissues, hresume⟩
  have hsplit := @start_add analysis path source m n htext
  rw [hwhole] at hsplit
  obtain ⟨first, hfirst, hsecond⟩ := Outcome.bind_eq_ok_iff.mp hsplit.symm
  obtain ⟨second, hsecond, htally⟩ := Outcome.map_eq_ok_iff.mp hsecond
  simp only [tally, Prod.mk.injEq, Nat.zero_add] at htally
  refine ⟨whole, first, second, hwhole, hfirst, hsecond, htally.1.symm, htally.2.1.symm,
    htally.2.2.symm, ?_⟩
  intro hleft maxPasses
  obtain ⟨issues', -, hresume'⟩ := start_eq_ok_iff.mp hfirst
  have hsettled : first.Settled :=
    (ends_of_resume hresume').settled (by simpa [initial] using hleft)
  obtain ⟨again, hagain, hsource, hissues'⟩ := hsettled.start_again htext hfirst maxPasses
  exact ⟨again, hagain, by simp [modified, hsource], hissues'⟩

/-! ## A rule whose fix is needed once -/

/-- Flags the text `ab`, whose fix makes it `xb`. -/
def firstByteRule : Rule :=
  ⟨"X", "first-byte", .style, true, "", fun context =>
    pure (if context.source = Text.bytes "ab" then [firstByteIssue] else [])⟩

def firstByteEngine : Engine := ⟨fun _ => .leaf "program" 0 2 true none, []⟩

theorem firstByteEngine_analysis (earlier : Nat) (text : String) :
    (firstByteEngine.analysis [firstByteRule] .anonymous earlier text).outcome =
      .ok (if Text.bytes text = Text.bytes "ab" then [firstByteIssue] else []) := by
  refine (Engine.analyze_outcome ..).trans
    (Engine.runRules_eq_ok_iff.mpr ⟨_, .cons ⟨_, rfl, rfl⟩ .nil, ?_⟩)
  have hnone : SeverityOverrides.for? firstByteEngine.overrides firstByteRule = none := rfl
  rw [SeverityOverrides.apply, hnone]
  simp only [Engine.context, List.flatten_cons, List.flatten_nil, List.append_nil]
  by_cases htext : Text.bytes text = Text.bytes "ab"
  · simp only [htext, if_true]
    exact List.mergeSort_singleton _
  · simp only [htext, if_false]
    exact List.mergeSort_nil

theorem start_splits_budget_of_firstByteEngine :
    ∃ whole first second,
      (firstByteEngine.fix [firstByteRule] .anonymous 3 "ab").outcome = .ok whole ∧
      (firstByteEngine.fix [firstByteRule] .anonymous 2 "ab").outcome = .ok first ∧
      (firstByteEngine.fix [firstByteRule] .anonymous 1 first.source).outcome = .ok second ∧
      whole.source = second.source ∧ whole.issues = second.issues ∧
      whole.fixedCount = first.fixedCount + second.fixedCount := by
  have hfixes : ∀ k issues run, k < 2 + 1 →
      (firstByteEngine.analysis [firstByteRule] .anonymous 0 "ab").outcome = .ok issues →
      Passes (firstByteEngine.analysis [firstByteRule] .anonymous) k (initial "ab" issues) run →
        ∃ text, (applyFixes run.source run.fixable).outcome = .ok text := by
    intro k issues run _ hissues hpasses
    rw [firstByteEngine_analysis, if_pos rfl] at hissues
    cases hissues
    have hstate : run.source = "ab" ∧ run.fixable = [firstByteIssue] ∨ run.fixable = [] := by
      refine hpasses.invariant
        (fun run => run.source = "ab" ∧ run.fixable = [firstByteIssue] ∨ run.fixable = [])
        ?_ (.inl ⟨rfl, rfl⟩)
      rintro run next ⟨happly, hchanged, hissues⟩ (⟨hsource, hfixable⟩ | hnone)
      · rw [hsource, hfixable, applyFixes_firstByteIssue (.inl rfl)] at happly
        cases happly
        rw [firstByteEngine_analysis, if_neg (by decide)] at hissues
        cases hissues
        exact .inr rfl
      · rw [hnone] at happly
        cases happly
        exact absurd rfl hchanged
    rcases hstate with ⟨hsource, hfixable⟩ | hnone
    · exact ⟨"xb", by rw [hsource, hfixable]; exact applyFixes_firstByteIssue (.inl rfl)⟩
    · exact ⟨run.source, by rw [hnone]; rfl⟩
  obtain ⟨whole, first, second, hwhole, hfirst, hsecond, hsource, hissues, hcount, -⟩ :=
    start_splits_budget _ .anonymous "ab" 2 1 (firstByteEngine.analysis_dependsOnText _ _)
      (fun earlier text => ⟨_, firstByteEngine_analysis earlier text⟩) hfixes
  exact ⟨whole, first, second, hwhole, hfirst, hsecond, hsource, hissues, hcount⟩

end FixRun

end RubyLint
