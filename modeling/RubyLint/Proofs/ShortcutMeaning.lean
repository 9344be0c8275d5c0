import RubyLint.Proofs.CharacterLiteral
import RubyLint.Proofs.ShortcutClassification
import Mathlib.Tactic

/-!
# The faster method does the same

The meaning of the calls is given by three functions on texts: replacing every occurrence of a
text, translating one character, and deleting one character.  When the pattern has one character,
an occurrence is a character, and the first function agrees with the other two.  What the edit
writes into the source reads back as the values that the old arguments had, so the new call has
the meaning of the old one for every subject.
-/

namespace RubyLint

open Text

/-! ## What the methods do to a subject -/

/-- Puts `replacement` in the place of every occurrence of `pattern`, from the left and without
overlap, where `pattern` has at least one character. -/
def replaceOccurrences (pattern replacement : List Char) (subject : List Char) : List Char :=
  match subject with
  | [] => []
  | c :: rest =>
    if pattern.isPrefixOf (c :: rest) then
      replacement ++ replaceOccurrences pattern replacement (rest.drop (pattern.length - 1))
    else
      c :: replaceOccurrences pattern replacement rest
termination_by subject.length

/-- Replaces every occurrence of `pattern`; an empty text occurs before each character and at the
end. -/
def gsubText (subject pattern replacement : String) : String :=
  String.ofList <|
    match pattern.toList with
    | [] => replacement.toList ++ subject.toList.flatMap (· :: replacement.toList)
    | chars => replaceOccurrences chars replacement.toList subject.toList

/-- Replaces every character `source`, which has to be one character, by `target`. -/
def trText (subject source target : String) : Option String :=
  match source.toList with
  | [c] =>
    some (String.ofList (subject.toList.flatMap fun d => if d = c then target.toList else [d]))
  | _ => none

/-- Leaves out every character `source`, which has to be one character. -/
def deleteText (subject source : String) : Option String :=
  match source.toList with
  | [c] => some (String.ofList (subject.toList.filter (· ≠ c)))
  | _ => none

theorem replaceOccurrences_singleton (c : Char) (replacement subject : List Char) :
    replaceOccurrences [c] replacement subject =
      subject.flatMap fun d => if d = c then replacement else [d] := by
  induction subject with
  | nil => simp [replaceOccurrences]
  | cons d rest ih =>
      rw [replaceOccurrences, List.flatMap_cons]
      by_cases hd : d = c
      · simp [hd, ih]
      · have hstarts : [c].isPrefixOf (d :: rest) = false := by
          simp [List.isPrefixOf, Ne.symm hd]
        simp [hstarts, hd, ih]

theorem filter_ne_eq_flatMap (c : Char) (subject : List Char) :
    subject.filter (· ≠ c) = subject.flatMap fun d => if d = c then [] else [d] := by
  induction subject with
  | nil => rfl
  | cons d rest ih =>
      rw [List.filter_cons, List.flatMap_cons, ih]
      by_cases hd : d = c <;> simp [hd]

theorem trText_eq_gsubText {pattern : String} (hone : pattern.length = 1)
    (subject target : String) :
    trText subject pattern target = some (gsubText subject pattern target) := by
  obtain ⟨c, rfl⟩ := length_eq_one_iff_toString.mp hone
  simp [trText, gsubText, replaceOccurrences_singleton]

theorem deleteText_eq_gsubText {pattern : String} (hone : pattern.length = 1)
    (subject : String) : deleteText subject pattern = some (gsubText subject pattern "") := by
  obtain ⟨c, rfl⟩ := length_eq_one_iff_toString.mp hone
  have hdelete := filter_ne_eq_flatMap c subject.toList
  simp_all [deleteText, gsubText, replaceOccurrences_singleton]

/-! ## The literals of the edit -/

theorem readsAs_encodeChar (c : Char) (preference : Quote) :
    ReadsAs (encodeChar c preference).text c.toString := by
  have hform := literalForm_encodeCharWith isPrintable c preference
  exact ⟨_, splitString_wrap _ _, hform.decodeString_body⟩

theorem ReadsAs.unique {text value other : String} (hvalue : ReadsAs text value)
    (hother : ReadsAs text other) : value = other := by
  obtain ⟨parts, hsplit, hdecode⟩ := hvalue
  obtain ⟨parts', hsplit', hdecode'⟩ := hother
  rw [hsplit] at hsplit'
  cases hsplit'
  rw [hdecode] at hdecode'
  cases hdecode'
  rfl

/-- What stands in the place of a call: `method`, with an exclamation mark if the name of the old
method ends in one, and the literals in parentheses if the call has them. -/
def CallSite.rewritten (call : CallSite) (method : String) (literals : List String) : String :=
  let name := method ++ if ['!'] <:+ call.methodName.toList then "!" else ""
  let arguments := String.intercalate ", " literals
  if call.parenthesized then name ++ "(" ++ arguments ++ ")" else name ++ " " ++ arguments

theorem CallSite.isBang_iff {call : CallSite} :
    call.isBang = true ↔ ['!'] <:+ call.methodName.toList := by
  rw [isBang, beq_iff_eq, List.getLast?_eq_some_iff]
  exact exists_congr fun _ => eq_comm

namespace Shortcut

variable [StackRoom] {source : List UInt8}

theorem exists_literal {node : Node} {argument : Argument} (c : Char)
    (hresolve : (Argument.resolve source node).outcome = .ok argument) :
    ∃ text, (literal source c.toString node).outcome = .ok text ∧ ReadsAs text c.toString := by
  have hpreference : ∃ preference, (quotePreference source node).outcome = .ok preference := by
    unfold quotePreference
    simp only [Traced.bind_outcome_eq_ok_iff]
    cases argument <;> exact ⟨_, _, hresolve, rfl⟩
  obtain ⟨preference, hpreference⟩ := hpreference
  refine ⟨(encodeChar c preference).text, ?_, readsAs_encodeChar c preference⟩
  have hencode : encodeText c.toString preference = .ok (encodeChar c preference) := by
    simp [encodeText]
  unfold literal
  rw [Traced.bind_outcome_eq_ok_iff]
  refine ⟨preference, hpreference, ?_⟩
  rw [Traced.bind_outcome_eq_ok_iff]
  exact ⟨_, Outcome.mapError_eq_ok_iff.mpr hencode, rfl⟩

theorem literals_tr {first second : Node} {c r firstLiteral secondLiteral : String}
    (hfirst : (literal source c first).outcome = .ok firstLiteral)
    (hsecond : (literal source r second).outcome = .ok secondLiteral) :
    (literals source (.tr c r) first second).outcome = .ok [firstLiteral, secondLiteral] := by
  unfold literals
  rw [Traced.bind_outcome_eq_ok_iff]
  refine ⟨firstLiteral, hfirst, ?_⟩
  rw [Traced.bind_outcome_eq_ok_iff]
  exact ⟨secondLiteral, hsecond, rfl⟩

theorem literals_delete {first second : Node} {c firstLiteral : String}
    (hfirst : (literal source c first).outcome = .ok firstLiteral) :
    (literals source (.delete c) first second).outcome = .ok [firstLiteral] := by
  unfold literals
  rw [Traced.bind_outcome_eq_ok_iff]
  exact ⟨firstLiteral, hfirst, rfl⟩

theorem edit_outcome {call : CallSite} {shortcut : Shortcut} {first second : Node}
    {written : List String} {name : String} (harguments : call.arguments = [first, second])
    (hwritten : (literals source shortcut first second).outcome = .ok written)
    (hname : method call shortcut =
      .ok (name ++ if ['!'] <:+ call.methodName.toList then "!" else "")) :
    (edit source call shortcut).outcome =
      .ok ⟨call.span.1, call.span.2, call.rewritten name written⟩ := by
  unfold edit
  simp only [harguments]
  rw [Traced.bind_outcome_eq_ok_iff]
  refine ⟨written, hwritten, ?_⟩
  rw [Traced.bind_outcome_eq_ok_iff]
  exact ⟨_, hname, rfl⟩

theorem edit_tr {call : CallSite} {pattern replacement : String}
    (hdecision : (ofCall source call).outcome = .ok (.tr pattern replacement)) :
    pattern.length = 1 ∧ ∃ first second firstLiteral secondLiteral,
      call.arguments = [first, second] ∧
      first.PatternValue source pattern ∧ second.StringValue source replacement ∧
      (edit source call (.tr pattern replacement)).outcome =
        .ok ⟨call.span.1, call.span.2, call.rewritten "tr" [firstLiteral, secondLiteral]⟩ ∧
      ReadsAs firstLiteral pattern ∧ ReadsAs secondLiteral replacement := by
  obtain ⟨first, second, htakes, hdecision⟩ := (ofCall_eq_iff (by simp)).mp hdecision
  have harguments := htakes.arguments
  obtain ⟨hpattern, hone, hreplacement, hone'⟩ := ofArguments_eq_tr_iff.mp hdecision
  obtain ⟨c, rfl⟩ := length_eq_one_iff_toString.mp hone
  obtain ⟨r, rfl⟩ := length_eq_one_iff_toString.mp hone'
  obtain ⟨argument, hresolve, -⟩ := Node.patternValue_iff_resolve.mp hpattern
  obtain ⟨argument', hresolve', -⟩ := Node.stringValue_iff_resolve.mp hreplacement
  obtain ⟨firstLiteral, hfirst, hreads⟩ := exists_literal c hresolve
  obtain ⟨secondLiteral, hsecond, hreads'⟩ := exists_literal r hresolve'
  have hedit := edit_outcome harguments (literals_tr hfirst hsecond)
    (show method call _ = .ok ("tr" ++ _) by simp [method, CallSite.isBang_iff])
  exact ⟨hone, first, second, firstLiteral, secondLiteral, harguments, hpattern, hreplacement,
    hedit, hreads, hreads'⟩

theorem edit_delete {call : CallSite} {pattern : String}
    (hdecision : (ofCall source call).outcome = .ok (.delete pattern)) :
    pattern.length = 1 ∧ ∃ first second firstLiteral,
      call.arguments = [first, second] ∧
      first.PatternValue source pattern ∧ second.StringValue source "" ∧
      (edit source call (.delete pattern)).outcome =
        .ok ⟨call.span.1, call.span.2, call.rewritten "delete" [firstLiteral]⟩ ∧
      ReadsAs firstLiteral pattern := by
  obtain ⟨first, second, htakes, hdecision⟩ := (ofCall_eq_iff (by simp)).mp hdecision
  have harguments := htakes.arguments
  obtain ⟨hpattern, hone, hreplacement⟩ := ofArguments_eq_delete_iff.mp hdecision
  obtain ⟨c, rfl⟩ := length_eq_one_iff_toString.mp hone
  obtain ⟨argument, hresolve, -⟩ := Node.patternValue_iff_resolve.mp hpattern
  obtain ⟨firstLiteral, hfirst, hreads⟩ := exists_literal c hresolve
  have hedit := edit_outcome harguments (literals_delete hfirst)
    (show method call _ = .ok ("delete" ++ _) by simp [method, CallSite.isBang_iff])
  exact ⟨hone, first, second, firstLiteral, harguments, hpattern, hreplacement, hedit, hreads⟩

/-- A decision that does not keep the call gives it a new method and an edit. -/
theorem exists_edit {call : CallSite} {shortcut : Shortcut}
    (hshortcut : ∀ reason, shortcut ≠ .keep reason)
    (hdecision : (ofCall source call).outcome = .ok shortcut) :
    (∃ name, method call shortcut = .ok name) ∧
      ∃ text, (edit source call shortcut).outcome = .ok ⟨call.span.1, call.span.2, text⟩ := by
  cases shortcut with
  | tr pattern replacement =>
      obtain ⟨-, _, _, _, _, -, -, -, hedit, -⟩ := edit_tr hdecision
      exact ⟨⟨_, rfl⟩, _, hedit⟩
  | delete pattern =>
      obtain ⟨-, _, _, _, -, -, -, hedit, -⟩ := edit_delete hdecision
      exact ⟨⟨_, rfl⟩, _, hedit⟩
  | keep reason => exact absurd rfl (hshortcut reason)

/-- The edit that replaces a call of `gsub` is written without fail.  It covers the call from the
name of the method on, its literals read back as the values of the old arguments, and for every
subject the new method does with them what replacing all occurrences does with the old ones. -/
theorem edit_keeps_meaning (source : List UInt8) (call : CallSite) :
    (∀ pattern replacement,
      (ofCall source call).outcome = .ok (.tr pattern replacement) →
        ∃ first second firstLiteral secondLiteral,
          call.arguments = [first, second] ∧
          first.PatternValue source pattern ∧ second.StringValue source replacement ∧
          (edit source call (.tr pattern replacement)).outcome =
            .ok ⟨call.span.1, call.span.2,
              call.rewritten "tr" [firstLiteral, secondLiteral]⟩ ∧
          ReadsAs firstLiteral pattern ∧ ReadsAs secondLiteral replacement ∧
          ∀ subject read read', ReadsAs firstLiteral read → ReadsAs secondLiteral read' →
            trText subject read read' = some (gsubText subject pattern replacement)) ∧
      ∀ pattern,
        (ofCall source call).outcome = .ok (.delete pattern) →
          ∃ first second firstLiteral,
            call.arguments = [first, second] ∧
            first.PatternValue source pattern ∧ second.StringValue source "" ∧
            (edit source call (.delete pattern)).outcome =
              .ok ⟨call.span.1, call.span.2, call.rewritten "delete" [firstLiteral]⟩ ∧
            ReadsAs firstLiteral pattern ∧
            ∀ subject read, ReadsAs firstLiteral read →
              deleteText subject read = some (gsubText subject pattern "") := by
  constructor
  · intro pattern replacement hdecision
    obtain ⟨hone, first, second, firstLiteral, secondLiteral, harguments, hpattern, hreplacement,
      hedit, hreads, hreads'⟩ := edit_tr hdecision
    refine ⟨first, second, firstLiteral, secondLiteral, harguments, hpattern, hreplacement, hedit,
      hreads, hreads', ?_⟩
    intro subject read read' hread hread'
    rw [← hreads.unique hread, ← hreads'.unique hread']
    exact trText_eq_gsubText hone subject replacement
  · intro pattern hdecision
    obtain ⟨hone, first, second, firstLiteral, harguments, hpattern, hreplacement, hedit,
      hreads⟩ := edit_delete hdecision
    refine ⟨first, second, firstLiteral, harguments, hpattern, hreplacement, hedit, hreads, ?_⟩
    intro subject read hread
    rw [← hreads.unique hread]
    exact deleteText_eq_gsubText hone subject

end Shortcut

/-! ## A call without parentheses -/

/-- A substitution in place, of nothing for a regular expression. -/
def inPlaceSource : String := "s.gsub! /x/, ''"

def inPlaceMethod : Node := .leaf "identifier" 2 7 true (some "method")

/-- The view of the call that `inPlaceSource` is. -/
def inPlaceSite : CallSite :=
  Node.callView
    ⟨0, "call", 0, 15, true, false, false, none,
      [.leaf "identifier" 0 1 true (some "receiver"), .leaf "." 1 2 false (some "operator"),
        inPlaceMethod,
        ⟨0, "argument_list", 8, 15, true, false, false, some "arguments",
          [.leaf "regex" 8 11 true none, .leaf "," 11 12 false none,
            .leaf "string" 13 15 true none]⟩]⟩
    inPlaceMethod (some ".") "gsub!"

theorem Shortcut.edit_keeps_meaning_of_samples :
    (∃ pattern replacement,
      (edit (bytes constructorSource) constructorSite (.tr "." "_")).outcome =
        .ok ⟨2, 29, "tr(" ++ String.intercalate ", " [pattern, replacement] ++ ")"⟩ ∧
      ReadsAs pattern "." ∧ ReadsAs replacement "_" ∧
      ∀ subject, trText subject "." "_" = some (gsubText subject "." "_")) ∧
    ∃ pattern,
      (edit (bytes inPlaceSource) inPlaceSite (.delete "x")).outcome =
        .ok ⟨2, 15, "delete! " ++ String.intercalate ", " [pattern]⟩ ∧
      ReadsAs pattern "x" ∧
      ∀ subject, deleteText subject "x" = some (gsubText subject "x" "") := by
  constructor
  · obtain ⟨_, _, pattern, replacement, -, -, -, hedit, hpattern, hreplacement, hmeaning⟩ :=
      (edit_keeps_meaning (bytes constructorSource) constructorSite).1 "." "_" (by decide +kernel)
    exact ⟨pattern, replacement, hedit, hpattern, hreplacement,
      fun subject => hmeaning subject "." "_" hpattern hreplacement⟩
  · obtain ⟨_, _, pattern, -, -, -, hedit, hpattern, hmeaning⟩ :=
      (edit_keeps_meaning (bytes inPlaceSource) inPlaceSite).2 "x" (by decide +kernel)
    exact ⟨pattern, hedit, hpattern, fun subject => hmeaning subject "x" hpattern⟩

end RubyLint
