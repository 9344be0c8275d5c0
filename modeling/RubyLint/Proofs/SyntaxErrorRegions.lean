import RubyLint.Proofs.ReplacementReports
import Mathlib.Tactic

/-!
# Calls in syntax errors

Three notions of an error meet when a call is passed over: the flag of the tree that says whether
it holds any error, the list of errors that is collected if the flag is set, and the kinds of the
nodes above the call.  A call at or below an error node has that node above it, and the node sets
the flag and stands in the list.  So the list is never empty when the nodes above a call have to be
searched, and asking first whether it is empty changes nothing.
-/

namespace RubyLint

open Text

namespace Place

/-- `inner` is `outer` itself or is reached from it through children. -/
def Within (inner outer : Place) : Prop :=
  Relation.ReflTransGen (fun child parent => child ∈ parent.below) inner outer

theorem within_iff {inner outer : Place} :
    inner.Within outer ↔ inner = outer ∨ ∃ child ∈ outer.below, inner.Within child := by
  unfold Within
  rw [Relation.ReflTransGen.cases_tail_iff]
  constructor
  · rintro (rfl | ⟨child, hinner, hchild⟩)
    · exact .inl rfl
    · exact .inr ⟨child, hchild, hinner⟩
  · rintro (rfl | ⟨child, hchild, hinner⟩)
    · exact .inl rfl
    · exact .inr ⟨child, hinner, hchild⟩

theorem mem_walkStack_iff {place : Place} {stack : List Place} :
    place ∈ walkStack stack ↔ ∃ top ∈ stack, place.Within top := by
  induction stack using walkStack.induct with
  | case1 => simp [walkStack]
  | case2 top rest ih =>
      rw [walkStack, List.mem_cons, ih]
      simp only [List.mem_append, List.mem_cons, or_and_right, exists_or, exists_eq_left]
      rw [@within_iff place top, or_assoc]

theorem mem_walk_iff {inner outer : Place} : inner ∈ outer.walk ↔ inner.Within outer := by
  simp [walk, mem_walkStack_iff]

theorem above_of_mem_below {child parent : Place} (hchild : child ∈ parent.below) :
    child.above = parent.node :: parent.above := by
  obtain ⟨node, -, rfl⟩ := List.mem_map.mp hchild
  rfl

/-- What lies below a place has its node above it. -/
theorem Within.eq_or_mem_above {inner outer : Place} (hinner : inner.Within outer) :
    inner = outer ∨ outer.node ∈ inner.above := by
  induction hinner using Relation.ReflTransGen.head_induction_on with
  | refl => exact .inl rfl
  | head hchild _ ih =>
      rw [above_of_mem_below hchild]
      rcases ih with rfl | habove
      · exact .inr List.mem_cons_self
      · exact .inr (List.mem_cons_of_mem _ habove)

/-- What stands above a place is the node of a place that it lies below. -/
theorem Within.exists_of_mem_above
    {place : Place} {root node : Node} (hplace : place.Within (.ofRoot root))
    (hnode : node ∈ place.above) :
    ∃ outer : Place, outer.Within (.ofRoot root) ∧ place.Within outer ∧ outer.node = node := by
  induction hplace using Relation.ReflTransGen.head_induction_on with
  | refl => cases hnode
  | @head place parent hchild hparent ih =>
      rw [above_of_mem_below hchild] at hnode
      rcases List.mem_cons.mp hnode with rfl | hnode
      · exact ⟨parent, hparent, .single hchild, rfl⟩
      · obtain ⟨outer, houter, hwithin, hnode⟩ := ih hnode
        exact ⟨outer, houter, .head hchild hwithin, hnode⟩

/-- The place is that of an error node of the tree, or lies below one. -/
def InError (tree : Node) (place : Place) : Prop :=
  ∃ error : Place, error.Within (.ofRoot tree) ∧ place.Within error ∧ error.node.kind = "ERROR"

end Place

/-- The kind `ERROR` is that of the error nodes. -/
def Node.MarksErrors (tree : Node) : Prop :=
  ∀ node : Node, node.Within tree → (node.kind = "ERROR" ↔ node.isError = true)

instance (tree : Node) : Decidable tree.MarksErrors :=
  inferInstanceAs (Decidable (∀ node : Node, node.Within tree →
    (node.kind = "ERROR" ↔ node.isError = true)))

/-- The flag of the tree and the list of its errors tell the same. -/
theorem SyntaxError.ofTree_ne_nil
    {node root : Node} (source : List UInt8) (hnode : node.Within root)
    (herror : node.isError = true) : ofTree source root ≠ [] := by
  have hflag : root.hasError = true := by
    refine List.any_eq_true.mpr ⟨node, Node.mem_nodes_iff.mpr hnode, ?_⟩
    rw [herror, Bool.true_or]
  obtain ⟨e, he⟩ : ∃ e, ofNode? source node = some e := by simp [ofNode?, herror]
  rw [ofTree, if_pos hflag]
  exact List.ne_nil_of_mem (List.mem_filterMap.mpr ⟨node, Node.mem_nodes_iff.mpr hnode, he⟩)

section Regions

variable {tree : Node} {place : Place} (hkinds : tree.MarksErrors)

include hkinds

theorem Place.insideError_iff (hplace : place.Within (.ofRoot tree)) :
    place.insideError = true ↔ place.InError tree := by
  have hmarks : ∀ {other : Place}, other.Within (.ofRoot tree) →
      (other.node.kind = "ERROR" ↔ other.node.isError = true) :=
    fun hother => hkinds _ (Rule.mem_tree_of_mem_walk (mem_walk_iff.mpr hother))
  simp only [insideError, ancestor?, Bool.or_eq_true, List.find?_isSome, beq_iff_eq]
  constructor
  · rintro (herror | ⟨node, hnode, hkind⟩)
    · exact ⟨place, hplace, .refl, (hmarks hplace).mpr herror⟩
    · obtain ⟨error, herror, hwithin, rfl⟩ := hplace.exists_of_mem_above hnode
      exact ⟨error, herror, hwithin, hkind⟩
  · rintro ⟨error, herror, hwithin, hkind⟩
    rcases hwithin.eq_or_mem_above with rfl | habove
    · exact .inl ((hmarks hplace).mp hkind)
    · exact .inr ⟨error.node, habove, hkind⟩

theorem SyntaxError.ofTree_ne_nil_of_inError (source : List UInt8) (hplace : place.InError tree) :
    ofTree source tree ≠ [] := by
  obtain ⟨error, herror, -, hkind⟩ := hplace
  have hnode := Rule.mem_tree_of_mem_walk (Place.mem_walk_iff.mpr herror)
  exact ofTree_ne_nil source hnode ((hkinds _ hnode).mp hkind)

end Regions

theorem Traced.collect_congr
    {ε α β : Type} {f g : α → Traced ε β} {items : List α} (hfg : ∀ item ∈ items, f item = g item) :
    collect f items = collect g items := by
  induction items with
  | nil => rfl
  | cons item items ih =>
      obtain ⟨hitem, hitems⟩ := List.forall_mem_cons.mp hfg
      rw [collect, collect, hitem, ih hitems]

theorem forall₂_iff_of_mem
    {α β : Type} {R S : α → β → Prop} {items : List α} {values : List β}
    (hRS : ∀ item ∈ items, ∀ value, R item value ↔ S item value) :
    List.Forall₂ R items values ↔ List.Forall₂ S items values := by
  rw [List.forall₂_iff_zip, List.forall₂_iff_zip]
  refine and_congr_right fun _ => ?_
  constructor
  · intro hall item value hpair
    exact (hRS item (List.of_mem_zip hpair).1 value).mp (hall hpair)
  · intro hall item value hpair
    exact (hRS item (List.of_mem_zip hpair).1 value).mpr (hall hpair)

namespace Rule

variable {context : Context} {place : Place}

theorem syntaxErrors_ne_nil_of_insideError
    (hcollected : context.syntaxErrors = SyntaxError.ofTree context.source context.tree)
    (hkinds : context.tree.MarksErrors)
    (hplace : place ∈ (Place.ofRoot context.tree).walk) (hinside : place.insideError = true) :
    context.syntaxErrors ≠ [] := by
  rw [hcollected]
  have herror := (Place.insideError_iff hkinds (Place.mem_walk_iff.mp hplace)).mp hinside
  exact SyntaxError.ofTree_ne_nil_of_inError hkinds context.source herror

variable [StackRoom]

/-- Of the list of errors the rule sees only whether it is empty, and only at calls in errors. -/
theorem replacementFinding?_eq_of_guard
    {errors : List SyntaxError}
    (hguard : place.insideError = true → errors.isEmpty = context.syntaxErrors.isEmpty) :
    replacementFinding? { context with syntaxErrors := errors } place =
      replacementFinding? context place := by
  have hguard' : (!errors.isEmpty && place.insideError) =
      (!context.syntaxErrors.isEmpty && place.insideError) := by
    cases hinside : place.insideError with
    | false => simp
    | true => rw [hguard hinside]
  unfold replacementFinding?
  simp only [hguard']

/-- A call in an error is passed over as soon as its parts are read. -/
theorem replacementFinding?_eq_ok_iff_of_insideError
    {found : Option Finding} (herrors : context.syntaxErrors ≠ [])
    (hinside : place.insideError = true) :
    (replacementFinding? context place).outcome = .ok found ↔
      found = none ∧ ∃ call, place.node.callSite? context.source = .ok call := by
  constructor
  · intro hfound
    cases examined_of_replacementFinding? hfound with
    | noCall hsite => exact ⟨rfl, _, hsite⟩
    | otherMethod hsite _ => exact ⟨rfl, _, hsite⟩
    | passedOver hsite _ _ => exact ⟨rfl, _, hsite⟩
    | kept hsite _ => exact ⟨rfl, _, hsite⟩
    | flagged _ hplace _ _ _ _ _ => simp [herrors, hinside] at hplace
  · rintro ⟨rfl, site, hsite⟩
    unfold replacementFinding?
    refine Traced.bind_outcome_eq_ok_iff.mpr
      ⟨site, Traced.liftText_outcome_eq_ok_iff.mpr hsite, ?_⟩
    cases site with
    | none => rfl
    | some call =>
        simp only
        split
        next => rfl
        next =>
          rw [if_pos (by simp [herrors, hinside])]
          rfl

/-- What is to be said about a call: nothing in an error, and elsewhere what would be said if there
were no errors. -/
structure SparesErrors (context : Context) (place : Place) (finding : Option Finding) : Prop where
  inError : place.InError context.tree →
    finding = none ∧ ∃ call, place.node.callSite? context.source = .ok call
  elsewhere : ¬ place.InError context.tree →
    (replacementFinding? { context with syntaxErrors := [] } place).outcome = .ok finding

section Collected

variable (hcollected : context.syntaxErrors = SyntaxError.ofTree context.source context.tree)
  (hkinds : context.tree.MarksErrors)

include hcollected hkinds

theorem replacementFinding?_eq_ok_iff_sparesErrors
    {finding : Option Finding} (hplace : place ∈ (Place.ofRoot context.tree).walk) :
    (replacementFinding? context place).outcome = .ok finding ↔
      SparesErrors context place finding := by
  have hinside := Place.insideError_iff hkinds (Place.mem_walk_iff.mp hplace)
  by_cases herror : place.InError context.tree
  · have herrors := syntaxErrors_ne_nil_of_insideError hcollected hkinds hplace
      (hinside.mpr herror)
    rw [replacementFinding?_eq_ok_iff_of_insideError herrors (hinside.mpr herror)]
    exact ⟨fun hnone => ⟨fun _ => hnone, fun helse => absurd herror helse⟩,
      fun hspares => hspares.inError herror⟩
  · have hsame := @replacementFinding?_eq_of_guard context place _ []
      fun hin => absurd (hinside.mp hin) herror
    rw [← hsame]
    exact ⟨fun hfound => ⟨fun hin => absurd hin herror, fun _ => hfound⟩,
      fun hspares => hspares.elsewhere herror⟩

theorem replacementFinding?_unguarded
    {errors : List SyntaxError} (hne : errors ≠ [])
    (hplace : place ∈ (Place.ofRoot context.tree).walk) :
    replacementFinding? { context with syntaxErrors := errors } place =
      replacementFinding? context place := by
  refine replacementFinding?_eq_of_guard fun hinside => ?_
  have herrors := syntaxErrors_ne_nil_of_insideError hcollected hkinds hplace hinside
  rw [List.isEmpty_eq_false_iff.mpr hne, List.isEmpty_eq_false_iff.mpr herrors]

end Collected

theorem check_eq_of_replacementFinding?_eq
    {errors : List SyntaxError}
    (hsame : ∀ place ∈ (Place.ofRoot context.tree).walk,
      replacementFinding? { context with syntaxErrors := errors } place =
        replacementFinding? context place) :
    characterReplacement.check { context with syntaxErrors := errors } =
      characterReplacement.check context := by
  have hcalls := @Traced.collect_congr _ _ _ _ _
    ((Place.ofRoot context.tree).walk.filter (·.node.kind == "call"))
    fun place hplace => hsame place (List.mem_of_mem_filter hplace)
  have hfindings : replacementFindings { context with syntaxErrors := errors } =
      replacementFindings context := by
    unfold replacementFindings
    simp only [hcalls]
  unfold characterReplacement reporting
  simp only [hfindings]
  rfl

end Rule

open Rule

/-- With the errors that are collected from the tree, the rule finds nothing at a call that is an
error node or lies below one, and finds at every other call what it would find if there were no
errors.  If it did not ask first whether there are errors, nothing would change. -/
theorem characterReplacement_passes_over_errors [StackRoom]
    {context : Context}
    (hcollected : context.syntaxErrors = SyntaxError.ofTree context.source context.tree)
    (hkinds : context.tree.MarksErrors) :
    (∀ issues, (characterReplacement.check context).outcome = .ok issues ↔
      ∃ found : List (Option Finding),
        List.Forall₂ (SparesErrors context)
          ((Place.ofRoot context.tree).walk.filter (·.node.kind == "call")) found ∧
        (found.filterMap fun finding => finding).map (characterReplacement.issue context) =
          issues) ∧
    ∀ errors, errors ≠ [] →
      characterReplacement.check { context with syntaxErrors := errors } =
        characterReplacement.check context := by
  constructor
  · intro issues
    have hcalls : ∀ found, List.Forall₂
        (fun place finding => (replacementFinding? context place).outcome = .ok finding)
        ((Place.ofRoot context.tree).walk.filter (·.node.kind == "call")) found ↔
          List.Forall₂ (SparesErrors context)
            ((Place.ofRoot context.tree).walk.filter (·.node.kind == "call")) found := by
      intro found
      refine forall₂_iff_of_mem fun place hplace finding => ?_
      exact replacementFinding?_eq_ok_iff_sparesErrors hcollected hkinds
        (List.mem_of_mem_filter hplace)
    simp only [characterReplacement_check_eq_ok_iff, replacementFindings_eq_ok_iff,
      Traced.collect_outcome_eq_ok_iff, hcalls]
    constructor
    · rintro ⟨_, ⟨found, hfound, rfl⟩, hissues⟩
      exact ⟨found, hfound, hissues⟩
    · rintro ⟨found, hfound, hissues⟩
      exact ⟨_, ⟨found, hfound, rfl⟩, hissues⟩
  · intro errors hne
    refine check_eq_of_replacementFinding?_eq fun place hplace => ?_
    exact replacementFinding?_unguarded hcollected hkinds hne hplace

/-- The tree of a call `s.gsub('a', 'b')` that starts at `start`. -/
def substitutionAt (start : Nat) : Node :=
  ⟨0, "call", start, start + 16, true, false, false, none,
    [.leaf "identifier" start (start + 1) true (some "receiver"),
      .leaf "." (start + 1) (start + 2) false (some "operator"),
      .leaf "identifier" (start + 2) (start + 6) true (some "method"),
      ⟨0, "argument_list", start + 6, start + 16, true, false, false, some "arguments",
        [.leaf "(" (start + 6) (start + 7) false none,
          .leaf "string" (start + 7) (start + 10) true none,
          .leaf "," (start + 10) (start + 11) false none,
          .leaf "string" (start + 12) (start + 15) true none,
          .leaf ")" (start + 15) (start + 16) false none]⟩]⟩

/-- A call, and another one after an open parenthesis. -/
def brokenContext : Context :=
  let source := bytes "s.gsub('a', 'b')\n(s.gsub('a', 'b')\n"
  let tree : Node := ⟨0, "program", 0, 35, true, false, false, none,
    [substitutionAt 0, ⟨0, "ERROR", 17, 34, true, true, false, none,
      [.leaf "(" 17 18 false none, substitutionAt 18]⟩]⟩
  ⟨⟨"", ["broken.rb"]⟩, source, tree, SyntaxError.ofTree source tree⟩

theorem characterReplacement_passes_over_errors_of_brokenContext :
    brokenContext.syntaxErrors = [⟨none, 2, 1⟩] ∧
    ∃ issues found,
      (characterReplacement.check brokenContext).outcome = .ok issues ∧
      issues.map (·.start) = [2] ∧
      List.Forall₂ (SparesErrors brokenContext)
        ((Place.ofRoot brokenContext.tree).walk.filter (·.node.kind == "call")) found ∧
      (found.filterMap fun finding => finding).map (characterReplacement.issue brokenContext) =
        issues ∧
      (List.map (·.start)) <$> (characterReplacement.check
        { brokenContext with syntaxErrors := [] }).outcome = .ok [2, 20] ∧
      characterReplacement.check { brokenContext with syntaxErrors := [⟨none, 1, 1⟩] } =
        characterReplacement.check brokenContext := by
  have hkinds : brokenContext.tree.MarksErrors := by decide +kernel
  have hstarts : (List.map (·.start)) <$> (characterReplacement.check brokenContext).outcome =
      .ok [2] := by
    decide +kernel
  obtain ⟨issues, hcheck, hstarts⟩ := Outcome.map_eq_ok_iff.mp hstarts
  obtain ⟨hissues, hunguarded⟩ := characterReplacement_passes_over_errors rfl hkinds
  obtain ⟨found, hfound, hmap⟩ := (hissues issues).mp hcheck
  exact ⟨by decide +kernel, issues, found, hcheck, hstarts, hfound, hmap, by decide +kernel,
    hunguarded [⟨none, 1, 1⟩] (by simp)⟩

end RubyLint
