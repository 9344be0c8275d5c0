import RubyLint.Config
import RubyLint.Proofs.FixPasses
import RubyLint.Proofs.ReplacementReports
import RubyLint.Text.Lines
import Mathlib.Tactic

/-!
# Line endings stay unified

A text that was read from a file has no carriage return.  The literals that an edit writes have none
either, so fixing a text brings none in.  The fixed text can therefore be written as it is, and
reading it again gives back the same text.
-/

namespace RubyLint

open Text

/-! ## Texts without carriage returns -/

namespace Text

/-- No carriage return stands in the text. -/
def Unified (text : String) : Prop := '\r' ∉ text.toList

theorem carriageReturn_not_mem_unifyNewlineChars (text : List Char) :
    '\r' ∉ unifyNewlineChars text := by
  fun_induction unifyNewlineChars text with
  | case1 rest ih => simpa using ih
  | case2 rest _ ih => simpa using ih
  | case3 c rest _ hc ih =>
      simp only [List.mem_cons, not_or]
      exact ⟨fun h => hc h.symm, ih⟩
  | case4 => simp

theorem unified_unifyNewlines (text : String) : Unified (unifyNewlines text) := by
  unfold Unified unifyNewlines
  rw [String.toList_ofList]
  exact carriageReturn_not_mem_unifyNewlineChars text.toList

theorem unifyNewlineChars_of_not_mem {text : List Char} (htext : '\r' ∉ text) :
    unifyNewlineChars text = text := by
  fun_induction unifyNewlineChars text with
  | case1 rest ih => simp at htext
  | case2 rest _ ih => simp at htext
  | case3 c rest _ hc ih => rw [ih (by simp at htext; exact htext.2)]
  | case4 => rfl

theorem Unified.unifyNewlines_eq {text : String} (htext : Unified text) :
    unifyNewlines text = text := by
  rw [unifyNewlines, unifyNewlineChars_of_not_mem htext, String.ofList_toList]

theorem carriageReturn_mem_utf8EncodeChar_iff {c : Char} :
    (13 : UInt8) ∈ String.utf8EncodeChar c ↔ c = '\r' := by
  have hreturn : c = '\r' ↔ c.val.toNat = 13 := by
    rw [← Char.toNat_inj]
    rfl
  have hbyte : ∀ {n : Nat}, n < 256 → ((13 : UInt8) = UInt8.ofNat n ↔ n = 13) := by
    intro n hn
    rw [← UInt8.toNat_inj, toNat_ofNat_of_lt hn]
    exact eq_comm
  unfold String.utf8EncodeChar
  simp only
  rw [hreturn]
  -- the bytes of a character of more than one byte are all above the ASCII ones
  split_ifs
  · rw [List.mem_singleton, hbyte (by omega)]
  · simp only [List.mem_cons, List.not_mem_nil, or_false]
    rw [hbyte (by omega), hbyte (by omega)]
    omega
  · simp only [List.mem_cons, List.not_mem_nil, or_false]
    rw [hbyte (by omega), hbyte (by omega), hbyte (by omega)]
    omega
  · simp only [List.mem_cons, List.not_mem_nil, or_false]
    rw [hbyte (by omega), hbyte (by omega), hbyte (by omega), hbyte (by omega)]
    omega

theorem unified_iff {text : String} : Unified text ↔ (13 : UInt8) ∉ bytes text := by
  unfold Unified bytes encode
  simp [List.mem_flatMap, carriageReturn_mem_utf8EncodeChar_iff]

theorem Unified.append {left right : String} (hleft : Unified left) (hright : Unified right) :
    Unified (left ++ right) := by
  unfold Unified at *
  simp [hleft, hright]

end Text

/-! ## Applying edits -/

namespace Edit

theorem mem_splice
    {data : List UInt8} {cursor : Int} {edits : List Edit} {byte : UInt8}
    (hbyte : byte ∈ splice data cursor edits) :
    byte ∈ data ∨ ∃ edit ∈ edits, byte ∈ bytes edit.replacement := by
  induction edits generalizing cursor with
  | nil => exact .inl (List.mem_of_mem_drop hbyte)
  | cons edit rest ih =>
      rw [splice, List.append_assoc, List.mem_append, List.mem_append] at hbyte
      rcases hbyte with hkept | hwritten | hlater
      · exact .inl (List.mem_of_mem_take (List.mem_of_mem_drop hkept))
      · exact .inr ⟨edit, by simp, hwritten⟩
      · rcases ih hlater with hdata | ⟨other, hother, hwritten⟩
        · exact .inl hdata
        · exact .inr ⟨other, by simp [hother], hwritten⟩

theorem unified_of_applyAll
    {source text : String} {edits : List Edit} (hsource : Unified source)
    (hedits : ∀ edit ∈ edits, Unified edit.replacement)
    (happly : (applyAll source edits).outcome = .ok text) : Unified text := by
  rw [unified_iff, applyAll_outcome_eq_ok_iff.mp happly]
  intro hbyte
  rcases mem_splice hbyte with hdata | ⟨edit, hedit, hwritten⟩
  · exact unified_iff.mp hsource hdata
  · exact unified_iff.mp (hedits edit (mem_of_mem_applied hedit)) hwritten

end Edit

theorem unified_of_applyFixes
    {source text : String} {issues : List Issue} (hsource : Unified source)
    (hissues : ∀ issue ∈ issues, ∀ edit ∈ issue.fixes, Unified edit.replacement)
    (happly : (applyFixes source issues).outcome = .ok text) : Unified text := by
  rw [applyFixes_eq_applyAll] at happly
  refine Edit.unified_of_applyAll hsource ?_ happly
  intro edit hedit
  obtain ⟨issue, hissue, hedit⟩ := List.mem_flatMap.mp hedit
  exact hissues issue (List.mem_of_mem_filter hissue) edit hedit

/-! ## What the rules write -/

namespace Shortcut

theorem unified_of_method
    {call : CallSite} {shortcut : Shortcut} {name : String}
    (hname : method call shortcut = .ok name) : Unified name := by
  unfold Unified
  cases shortcut with
  | keep reason => cases hname
  | _ =>
      cases hname
      split <;> decide

variable [StackRoom] {source : List UInt8}

theorem unified_of_literal
    {value text : String} {node : Node}
    (hliteral : (literal source value node).outcome = .ok text) : Unified text := by
  unfold literal at hliteral
  obtain ⟨preference, -, hliteral⟩ := Traced.bind_outcome_eq_ok_iff.mp hliteral
  obtain ⟨encoded, hencoded, hliteral⟩ := Traced.bind_outcome_eq_ok_iff.mp hliteral
  rw [Traced.outcome_ofExcept, Outcome.mapError_eq_ok_iff] at hencoded
  cases hliteral
  unfold encodeText at hencoded
  split at hencoded
  next c _ =>
    cases hencoded
    exact (literalForm_encodeCharWith isPrintable c preference).lineBreak_not_mem_text (.inr rfl)
  next => cases hencoded

theorem unified_of_literals
    {shortcut : Shortcut} {first second : Node} {written : List String}
    (hliterals : (literals source shortcut first second).outcome = .ok written) :
    Unified (String.intercalate ", " written) := by
  have hcomma : Unified ", " := by unfold Unified; decide
  cases shortcut with
  | tr pattern replacement =>
      obtain ⟨left, hleft, hliterals⟩ := Traced.bind_outcome_eq_ok_iff.mp hliterals
      obtain ⟨right, hright, hliterals⟩ := Traced.bind_outcome_eq_ok_iff.mp hliterals
      cases hliterals
      have hwritten := ((unified_of_literal hleft).append hcomma).append (unified_of_literal hright)
      exact hwritten
  | delete pattern =>
      obtain ⟨left, hleft, hliterals⟩ := Traced.bind_outcome_eq_ok_iff.mp hliterals
      cases hliterals
      exact unified_of_literal hleft
  | keep reason => cases hliterals

theorem unified_of_edit
    {call : CallSite} {shortcut : Shortcut} {edit : Edit}
    (hedit : (Shortcut.edit source call shortcut).outcome = .ok edit) :
    Unified edit.replacement := by
  unfold Shortcut.edit at hedit
  split at hedit
  next =>
    obtain ⟨written, hwritten, hedit⟩ := Traced.bind_outcome_eq_ok_iff.mp hedit
    obtain ⟨name, hname, hedit⟩ := Traced.bind_outcome_eq_ok_iff.mp hedit
    cases hedit
    have harguments := unified_of_literals hwritten
    have hname := unified_of_method hname
    have hpunctuation : Unified "(" ∧ Unified ")" ∧ Unified " " := by unfold Unified; decide
    simp only
    split
    · exact ((hname.append hpunctuation.1).append harguments).append hpunctuation.2.1
    · exact (hname.append hpunctuation.2.2).append harguments
  next => cases hedit

end Shortcut

/-- The edits of the rule bring no carriage return in. -/
def Rule.WritesUnified (rule : Rule) : Prop :=
  ∀ context issues, (rule.check context).outcome = .ok issues →
    ∀ issue ∈ issues, ∀ edit ∈ issue.fixes, Unified edit.replacement

theorem Rule.characterReplacement_writesUnified [StackRoom] :
    characterReplacement.WritesUnified := by
  intro context issues hcheck issue hissue edit hedit
  obtain ⟨place, -, finding, hfinding, rfl⟩ := (mem_check_iff hcheck).mp hissue
  change edit ∈ finding.fixes at hedit
  cases examined_of_replacementFinding? hfinding with
  | flagged _ _ _ _ _ _ hfixes =>
      split at hfixes
      next =>
        rw [hfixes] at hedit
        cases hedit
      next =>
        obtain ⟨written, hwritten, hfixes⟩ := hfixes
        rw [hfixes, List.mem_singleton] at hedit
        subst hedit
        exact Shortcut.unified_of_edit hwritten

theorem Config.eq_of_mem_enabledRules [StackRoom]
    {config : Config} {rule : Rule} (hrule : rule ∈ config.enabledRules .builtin) :
    rule = .characterReplacement := by
  unfold enabledRules Registry.enabled at hrule
  have hbuiltin : rule ∈ Registry.builtin.rules := List.mem_of_mem_filter hrule
  rw [Registry.builtin, List.mem_singleton] at hbuiltin
  exact hbuiltin

theorem Config.writesUnified_of_mem_enabledRules [StackRoom]
    {config : Config} {rule : Rule} (hrule : rule ∈ config.enabledRules .builtin) :
    rule.WritesUnified := by
  rw [eq_of_mem_enabledRules hrule]
  exact Rule.characterReplacement_writesUnified

/-! ## Analysing and fixing -/

namespace Engine

variable {engine : Engine} {rules : List Rule} {path : Path} {source : String}

theorem exists_found_of_analyze
    {issues : List Issue} {issue : Issue}
    (hanalyze : (engine.analyze rules path source).outcome = .ok issues) (hissue : issue ∈ issues) :
    ∃ rule ∈ rules, ∃ own, (rule.check (engine.context path source)).outcome = .ok own ∧
      ∃ found ∈ own,
        { found with severity := (engine.overrides.for? rule).getD found.severity } = issue := by
  rw [analyze_outcome] at hanalyze
  obtain ⟨found, hfound, hsorted⟩ := Traced.bind_outcome_eq_ok_iff.mp hanalyze
  cases hsorted
  rw [List.mem_mergeSort, List.mem_flatten] at hissue
  obtain ⟨reported, hreported, hissue⟩ := hissue
  obtain ⟨rule, hrule, hreported⟩ := Traced.exists_of_mem_collect hfound hreported
  obtain ⟨own, hown, hreported⟩ := Traced.bind_outcome_eq_ok_iff.mp hreported
  cases hreported
  exact ⟨rule, hrule, own, hown, SeverityOverrides.mem_apply_iff.mp hissue⟩

theorem unified_of_analyze
    {issues : List Issue} (hrules : ∀ rule ∈ rules, rule.WritesUnified)
    (hanalyze : (engine.analyze rules path source).outcome = .ok issues) :
    ∀ issue ∈ issues, ∀ edit ∈ issue.fixes, Unified edit.replacement := by
  intro issue hissue
  obtain ⟨rule, hrule, own, hown, found, hfound, rfl⟩ := exists_found_of_analyze hanalyze hissue
  exact hrules rule hrule _ own hown found hfound

/-- Fixing a text without carriage returns gives such a text, and the issues that the run ends with
are those of its text. -/
theorem unified_of_fix
    {maxPasses : Int} {run : FixRun} (hrules : ∀ rule ∈ rules, rule.WritesUnified)
    (hsource : Unified source) (hfix : (engine.fix rules path maxPasses source).outcome = .ok run) :
    Unified run.source ∧ (engine.analyze rules path run.source).outcome = .ok run.issues := by
  obtain ⟨issues, hissues, hresume⟩ := FixRun.start_eq_ok_iff.mp hfix
  refine (FixRun.ends_of_resume hresume).invariant (fun run =>
    Unified run.source ∧ (engine.analyze rules path run.source).outcome = .ok run.issues) ?_ ?_
      ⟨hsource, hissues⟩
  · rintro run _ ⟨happly, -, hissues⟩ ⟨hunified, hanalyze⟩
    refine ⟨unified_of_applyFixes hunified ?_ happly, hissues⟩
    intro issue hissue
    exact unified_of_analyze hrules hanalyze issue (List.mem_of_mem_filter hissue)
  · intro run hrun
    exact hrun

end Engine

end RubyLint
