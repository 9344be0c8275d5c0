import RubyLint.Proofs.RegexGrammar
import RubyLint.Proofs.ShortcutClassification
import RubyLint.Proofs.StringGrammar
import Mathlib.Tactic

/-!
# One body, read as a regular expression and as a string

Every piece of a regular expression is a piece of a double-quoted string and stands for the same
characters there.  What a string reads in a way of its own after a backslash, a regular expression
reads alike or refuses.  So a body that has a value as a regular expression has the same value as a
string, and two calls that differ in which of the two literals holds the body of their pattern are
not turned into different ones.
-/

namespace RubyLint

open Text

namespace Grammar

theorem mem_stringLetters_of_mem_shortLetters {letter c : Char}
    (hletter : (letter, c) ∈ shortLetters) : (letter, c) ∈ stringLetters := by
  fin_cases hletter <;> decide

theorem isSpecialEscape_of_isOctalDigit {c : Char} (hoctal : isOctalDigit c = true)
    (hzero : c ≠ '0') : isSpecialEscape c = true := by
  simp only [isOctalDigit, Bool.and_eq_true, decide_eq_true_eq] at hoctal
  have hlow : 48 ≤ c.toNat := hoctal.1
  have hhigh : c.toNat ≤ 55 := hoctal.2
  obtain ⟨code, hcode⟩ : ∃ code, c.toNat = code := ⟨_, rfl⟩
  obtain rfl := (toNat_eq_iff.mp hcode).2
  rw [hcode] at hlow hhigh
  interval_cases code
  · exact absurd rfl hzero
  all_goals decide

theorem StringEscape.of_regexEscape {text rest value : List Char}
    (hescape : RegexEscape text rest value) : StringEscape text rest value := by
  cases hescape with
  | short hletter => exact .short (mem_stringLetters_of_mem_shortLetters hletter)
  | octal hdigits hvalue =>
      obtain ⟨-, c, hc, -, hascii⟩ := octalDigits_zero_iff.mpr ⟨hdigits, _, rfl, hvalue⟩
      cases hc
      exact .octal (Greedy.cons_iff.mpr ⟨by decide, hdigits⟩) (by simp) hvalue hascii
  | hex hdigits => exact .hex hdigits
  | unicode hdigits => exact .unicode hdigits
  | @self c _ hspecial hzero hnewline =>
      -- every other letter and digit that a string knows is refused after a backslash
      have hletters : (stringLetters.map Prod.fst).all isSpecialEscape = true := by decide
      have hothers : ['x', 'u', 'c', 'C', 'M'].all isSpecialEscape = true := by decide
      rw [List.all_eq_true] at hletters hothers
      rw [← Bool.not_eq_true] at hspecial
      refine .self (fun hc => hspecial (hletters c hc)) hnewline ?_
        fun hc => hspecial (hothers c hc)
      rw [← Bool.not_eq_true]
      exact fun hoctal => hspecial (isSpecialEscape_of_isOctalDigit hoctal hzero)

theorem StringPiece.of_regexPiece {text rest value : List Char}
    (hpiece : RegexPiece text rest value) : StringPiece text rest value :=
  hpiece.1.mono fun _ _ _ => StringEscape.of_regexEscape

end Grammar

open Grammar

theorem decodeString_of_decodeRegex {body value : String} (hregex : decodeRegex body = .ok value)
    (delimiters : Delimiters) : decodeString body .double delimiters = .ok value := by
  rw [decodeRegex_eq_ok_iff, scans_regexToken.readTokens_eq_ok_iff] at hregex
  exact decodeDouble_eq_ok_iff.mpr (hregex.mono fun _ _ _ => StringPiece.of_regexPiece)

/-! ## Patterns with the same body -/

namespace Node

variable {source : List UInt8} {node : Node} {body value : String}

/-- `node` is a regular expression literal with the given body. -/
def RegexBody (source : List UInt8) (node : Node) (body : String) : Prop :=
  node.kind = "regex" ∧ ∃ text parts, node.text source = .ok text ∧
    splitRegex text = some parts ∧ parts.pattern = body

/-- `node` is a string literal of the double-quoted family with the given body. -/
def DoubleBody (source : List UInt8) (node : Node) (body : String) : Prop :=
  node.kind = "string" ∧ ∃ text parts, node.text source = .ok text ∧
    splitString text = some parts ∧ parts.quote = .double ∧ parts.body = body

theorem RegexBody.decodeRegex_eq (hbody : node.RegexBody source body)
    (hvalue : node.PatternValue source value) : decodeRegex body = .ok value := by
  obtain ⟨hkind, text, parts, htext, hsplit, rfl⟩ := hbody
  cases hvalue with
  | string hstring => simp [hstring.kind] at hkind
  | regex hregex =>
      obtain ⟨text', parts', htext', hsplit', -, hdecode⟩ := hregex.matches_only
      rw [htext] at htext'
      cases htext'
      rw [hsplit] at hsplit'
      cases hsplit'
      exact hdecode
  | ofString hconstructor => simp [hconstructor.kind] at hkind
  | ofRegex hconstructor => simp [hconstructor.kind] at hkind

theorem DoubleBody.decodeString_eq (hbody : node.DoubleBody source body)
    (hvalue : node.PatternValue source value) :
    ∃ delimiters, decodeString body .double delimiters = .ok value := by
  obtain ⟨hkind, text, parts, htext, hsplit, hquote, rfl⟩ := hbody
  cases hvalue with
  | string hstring =>
      obtain ⟨text', htext', parts', hsplit', hdecode⟩ := hstring.reads
      rw [htext] at htext'
      cases htext'
      rw [hsplit] at hsplit'
      cases hsplit'
      rw [hquote] at hdecode
      exact ⟨_, hdecode⟩
  | regex hregex => simp [hregex.kind] at hkind
  | ofString hconstructor => simp [hconstructor.kind] at hkind
  | ofRegex hconstructor => simp [hconstructor.kind] at hkind

theorem StringValue.unique {other : String} (hvalue : node.StringValue source value)
    (hother : node.StringValue source other) : value = other := by
  rw [stringValue_iff_resolve] at hvalue hother
  obtain ⟨literal, hresolve, hvalue⟩ := hvalue
  obtain ⟨literal', hresolve', hother⟩ := hother
  rw [hresolve] at hresolve'
  cases hresolve'
  rw [hvalue] at hother
  cases hother
  rfl

end Node

/-- The arguments of the call are a pattern as `pattern` says and a string literal of the value
`replacement`. -/
def CallSite.Replaces (source : List UInt8) (call : CallSite)
    (pattern : Node → Prop) (replacement : String) : Prop :=
  ∃ first second, call.arguments = [first, second] ∧ pattern first ∧
    second.StringValue source replacement

/-- What becomes of a call that replaces `pattern` by `replacement`. -/
def Shortcut.substituting (pattern replacement : String) : Shortcut :=
  if replacement = "" then .delete pattern else .tr pattern replacement

theorem Shortcut.exists_eq_substituting [StackRoom]
    {source : List UInt8} {call : CallSite} {pattern : Node → Prop} {replacement : String}
    {shortcut : Shortcut} (hcall : call.Replaces source pattern replacement)
    (hdecision : (ofCall source call).outcome = .ok shortcut)
    (hshortcut : ∀ reason, shortcut ≠ .keep reason) :
    ∃ node value, pattern node ∧ node.PatternValue source value ∧
      shortcut = substituting value replacement := by
  obtain ⟨first, second, harguments, hpattern, hreplacement⟩ := hcall
  obtain ⟨first', second', htakes, houtcome⟩ := (ofCall_eq_iff hshortcut).mp hdecision
  cases harguments.symm.trans htakes.arguments
  refine ⟨first, ?_⟩
  cases shortcut with
  | tr value target =>
      obtain ⟨hvalue, -, htarget, hone⟩ := ofArguments_eq_tr_iff.mp houtcome
      obtain rfl := htarget.unique hreplacement
      have hne : target ≠ "" := by
        rintro rfl
        simp at hone
      exact ⟨value, hpattern, hvalue, by rw [substituting, if_neg hne]⟩
  | delete value =>
      obtain ⟨hvalue, -, htarget⟩ := ofArguments_eq_delete_iff.mp houtcome
      obtain rfl := htarget.unique hreplacement
      exact ⟨value, hpattern, hvalue, rfl⟩
  | keep reason => exact absurd rfl (hshortcut reason)

/-- A body with a value as a regular expression has the same value as a double-quoted string, so
the two readings never give a body different values.  Two calls that replace such literals of one
body by the same text are turned into the same call if neither of them is kept. -/
theorem decodeRegex_restricts_decodeString [StackRoom] :
    (∀ body value delimiters, decodeRegex body = .ok value →
      decodeString body .double delimiters = .ok value) ∧
    (∀ body value value' delimiters, decodeRegex body = .ok value →
      decodeString body .double delimiters = .ok value' → value = value') ∧
    ∀ source source' (call call' : CallSite) body replacement shortcut shortcut',
      call.Replaces source (·.RegexBody source body) replacement →
      call'.Replaces source' (·.DoubleBody source' body) replacement →
      (Shortcut.ofCall source call).outcome = .ok shortcut →
      (Shortcut.ofCall source' call').outcome = .ok shortcut' →
      (∀ reason, shortcut ≠ .keep reason) → (∀ reason, shortcut' ≠ .keep reason) →
      shortcut = shortcut' := by
  have hagree : ∀ body value value' delimiters, decodeRegex body = .ok value →
      decodeString body .double delimiters = .ok value' → value = value' := by
    intro body value value' delimiters hregex hstring
    rw [decodeString_of_decodeRegex hregex] at hstring
    exact Except.ok.inj hstring
  refine ⟨fun _ _ delimiters hregex => decodeString_of_decodeRegex hregex delimiters, hagree, ?_⟩
  intro source source' call call' body replacement shortcut shortcut' hcall hcall' hdecision
    hdecision' hshortcut hshortcut'
  obtain ⟨node, value, hbody, hvalue, rfl⟩ :=
    Shortcut.exists_eq_substituting hcall hdecision hshortcut
  obtain ⟨node', value', hbody', hvalue', rfl⟩ :=
    Shortcut.exists_eq_substituting hcall' hdecision' hshortcut'
  obtain ⟨delimiters, hstring⟩ := hbody'.decodeString_eq hvalue'
  rw [hagree body value value' delimiters (hbody.decodeRegex_eq hvalue) hstring]

/-! ## A dot, written by its code -/

def escapedDotMethod : Node := .leaf "identifier" 2 6 true (some "method")

/-- The tree of a substitution whose pattern is a literal of six bytes. -/
def escapedDotCall (kind : String) : Node :=
  ⟨0, "call", 0, 19, true, false, false, none,
    [.leaf "identifier" 0 1 true (some "receiver"), .leaf "." 1 2 false (some "operator"),
      escapedDotMethod,
      ⟨0, "argument_list", 6, 19, true, false, false, some "arguments",
        [.leaf "(" 6 7 false none, .leaf kind 7 13 true none, .leaf "," 13 14 false none,
          .leaf "string" 15 18 true none, .leaf ")" 18 19 false none]⟩]⟩

def escapedDotSite (kind : String) : CallSite :=
  (escapedDotCall kind).callView escapedDotMethod (some ".") "gsub"

def regexDotSource : List UInt8 := bytes "s.gsub(/\\x2e/, '_')"

def stringDotSource : List UInt8 := bytes "s.gsub(\"\\x2e\", '_')"

theorem decodeRegex_restricts_decodeString_of_escapedDot :
    decodeRegex "\\x2e" = .ok "." ∧ decodeString "\\x2e" .double ⟨"\"", "\""⟩ = .ok "." ∧
    ∃ shortcut, (Shortcut.ofCall regexDotSource (escapedDotSite "regex")).outcome = .ok shortcut ∧
      (Shortcut.ofCall stringDotSource (escapedDotSite "string")).outcome = .ok shortcut ∧
      ∀ reason, shortcut ≠ .keep reason := by
  have hregex : decodeRegex "\\x2e" = .ok "." := by decide +kernel
  have hcall : (escapedDotSite "regex").Replaces regexDotSource
      (·.RegexBody regexDotSource "\\x2e") "_" := by
    refine ⟨_, _, rfl, ⟨rfl, "/\\x2e/", ⟨"\\x2e", [], ⟨"/", "/"⟩⟩, ?_, ?_, rfl⟩, ?_⟩
    · decide +kernel
    · decide +kernel
    · exact (@Fact.ofReplacementNode_eq_fixed_iff _ _ _ '_').mp (by decide +kernel)
  have hcall' : (escapedDotSite "string").Replaces stringDotSource
      (·.DoubleBody stringDotSource "\\x2e") "_" := by
    refine ⟨_, _, rfl,
      ⟨rfl, "\"\\x2e\"", ⟨.double, "\\x2e", ⟨"\"", "\""⟩⟩, ?_, ?_, rfl, rfl⟩, ?_⟩
    · decide +kernel
    · decide +kernel
    · exact (@Fact.ofReplacementNode_eq_fixed_iff _ _ _ '_').mp (by decide +kernel)
  have hdecision : (Shortcut.ofCall regexDotSource (escapedDotSite "regex")).outcome =
      .ok (.tr "." "_") := by decide +kernel
  obtain ⟨shortcut, hdecision', hshortcut⟩ : ∃ shortcut,
      (Shortcut.ofCall stringDotSource (escapedDotSite "string")).outcome = .ok shortcut ∧
        ∀ reason, shortcut ≠ .keep reason :=
    ⟨.tr "." "_", by decide +kernel, by simp⟩
  have hsame := decodeRegex_restricts_decodeString.2.2 _ _ _ _ _ _ _ _ hcall hcall' hdecision
    hdecision' (by simp) hshortcut
  exact ⟨hregex, decodeRegex_restricts_decodeString.1 _ _ _ hregex, _, hdecision,
    hsame ▸ hdecision', by simp⟩

end RubyLint
