import RubyLint.Registry
import Mathlib.Tactic

/-!
# Registering rules

One search serves identifiers and names, and it stops at the first rule that the key names.  A rule
is let in only if its identifier names no rule before it, so no rule before it can take its place
in a search; the rules after it come too late.  Names are free: a name may keep a later rule out,
but it never hides an earlier one.  This holds after any calls of `register`, whether they succeed
or fail.
-/

namespace RubyLint

namespace Rule

/-- `key` selects or ignores the rule. -/
def Matches (rule : Rule) (key : String) : Prop :=
  key = "ALL" ∨ key = rule.name ∨ key.toList <+: rule.id.toList

theorem isNamed_iff {rule : Rule} {key : String} :
    rule.isNamed key = true ↔ key = rule.id ∨ key = rule.name := by
  simp [isNamed]

theorem fits_iff {rule : Rule} {key : String} : rule.fits key = true ↔ rule.Matches key := by
  simp [fits, Matches, or_assoc]

end Rule

namespace Registry

/-- `key` is the identifier or the name of a registered rule. -/
def Names (registry : Registry) (key : String) : Prop :=
  ∃ rule ∈ registry.rules, key = rule.id ∨ key = rule.name

/-- The registry after calls of `register`; a call that fails leaves it as it is. -/
def after (registry : Registry) : (calls : List Rule) → Registry
  | [] => registry
  | rule :: rest =>
    match registry.register rule with
    | .ok next => next.after rest
    | .error _ => registry.after rest

/-- The rules of those calls of `register` that succeed. -/
def succeeding (registry : Registry) : (calls : List Rule) → List Rule
  | [] => []
  | rule :: rest =>
    match registry.register rule with
    | .ok next => rule :: next.succeeding rest
    | .error _ => registry.succeeding rest

/-- No rule has the identifier of a later one, or its identifier for a name. -/
def Unshadowed (registry : Registry) : Prop :=
  registry.rules.Pairwise fun earlier later => later.id ≠ earlier.id ∧ later.id ≠ earlier.name

variable {registry next : Registry} {rule : Rule}

/-! ## One call -/

theorem isSome_get?_iff {key : String} :
    (registry.get? key).isSome = true ↔ registry.Names key := by
  simp [get?, Names, Rule.isNamed_iff]

theorem register_of_names (hnames : registry.Names rule.id) :
    registry.register rule = .error ⟨rule.id⟩ :=
  if_pos (isSome_get?_iff.mpr hnames)

theorem register_of_not_names (hnames : ¬ registry.Names rule.id) :
    registry.register rule = .ok ⟨registry.rules ++ [rule]⟩ :=
  if_neg fun hsome => hnames (isSome_get?_iff.mp hsome)

theorem register_eq_ok_iff :
    registry.register rule = .ok next ↔
      ¬ registry.Names rule.id ∧ ⟨registry.rules ++ [rule]⟩ = next := by
  by_cases hnames : registry.Names rule.id
  · simp [register_of_names hnames, hnames]
  · simp [register_of_not_names hnames, hnames]

theorem exists_register_error_iff :
    (∃ e, registry.register rule = .error e) ↔ registry.Names rule.id := by
  by_cases hnames : registry.Names rule.id
  · simp [register_of_names hnames, hnames]
  · simp [register_of_not_names hnames, hnames]

theorem Unshadowed.register
    (hrules : registry.Unshadowed) (hnext : registry.register rule = .ok next) :
    next.Unshadowed := by
  obtain ⟨hfree, rfl⟩ := register_eq_ok_iff.mp hnext
  refine List.pairwise_append.mpr ⟨hrules, List.pairwise_singleton _ rule, ?_⟩
  intro earlier hearlier later hlater
  obtain rfl := List.mem_singleton.mp hlater
  exact ⟨fun hid => hfree ⟨earlier, hearlier, .inl hid⟩,
    fun hname => hfree ⟨earlier, hearlier, .inr hname⟩⟩

/-! ## What an unshadowed registry finds -/

theorem Unshadowed.nodup_ids (hrules : registry.Unshadowed) :
    (registry.rules.map Rule.id).Nodup := by
  refine List.pairwise_map.mpr (hrules.imp ?_)
  intro earlier later hlater hsame
  exact hlater.1 hsame.symm

theorem Unshadowed.get?_id (hrules : registry.Unshadowed) (hrule : rule ∈ registry.rules) :
    registry.get? rule.id = some rule := by
  obtain ⟨before, rest, hsplit⟩ := List.append_of_mem hrule
  refine List.find?_eq_some_iff_append.mpr
    ⟨Rule.isNamed_iff.mpr (.inl rfl), before, rest, hsplit, ?_⟩
  intro earlier hearlier
  unfold Unshadowed at hrules
  rw [hsplit] at hrules
  have hlater := (List.pairwise_append.mp hrules).2.2 earlier hearlier rule List.mem_cons_self
  rw [Bool.not_eq_true', ← Bool.not_eq_true, Rule.isNamed_iff, not_or]
  exact hlater

theorem mem_enabled_iff {select ignore : List String} :
    rule ∈ registry.enabled select ignore ↔
      rule ∈ registry.rules ∧ (∃ key ∈ select, rule.Matches key) ∧
        ¬ ∃ key ∈ ignore, rule.Matches key := by
  simp [enabled, Rule.fits_iff]

/-! ## Any calls -/

theorem Unshadowed.after (hrules : registry.Unshadowed) (calls : List Rule) :
    (registry.after calls).Unshadowed := by
  induction calls generalizing registry with
  | nil => exact hrules
  | cons rule rest ih =>
      rw [Registry.after]
      cases hregister : registry.register rule with
      | ok next => exact ih (hrules.register hregister)
      | error e => exact ih hrules

theorem rules_after (registry : Registry) (calls : List Rule) :
    (registry.after calls).rules = registry.rules ++ registry.succeeding calls := by
  induction calls generalizing registry with
  | nil => simp [after, succeeding]
  | cons rule rest ih =>
      rw [after, succeeding]
      cases hregister : registry.register rule with
      | ok next =>
          obtain ⟨-, rfl⟩ := register_eq_ok_iff.mp hregister
          rw [ih, List.append_assoc, List.singleton_append]
      | error e => exact ih registry

theorem after_append (registry : Registry) (calls more : List Rule) :
    registry.after (calls ++ more) = (registry.after calls).after more := by
  induction calls generalizing registry with
  | nil => rfl
  | cons rule rest ih =>
      rw [List.cons_append, after, after]
      cases registry.register rule with
      | ok next => exact ih next
      | error e => exact ih registry

/-- A new registry has the rules that come with the program, registered like any others. -/
theorem builtin_eq_after [StackRoom] : builtin = after ⟨[]⟩ [.characterReplacement] :=
  rfl

theorem unshadowed_builtin [StackRoom] : builtin.Unshadowed := by
  rw [builtin_eq_after]
  exact Unshadowed.after .nil [.characterReplacement]

/-- After any calls of `register` on a new registry: no two rules share an identifier, and each is
found by its own; one more call fails exactly if the identifier is taken as an identifier or a name,
and then nothing changes; the rules are those of the calls that have succeeded, in the order of the
calls; and the enabled ones keep this order. -/
theorem after_calls_finds_by_id [StackRoom] (calls : List Rule) :
    ((builtin.after calls).rules.map Rule.id).Nodup ∧
    (∀ rule ∈ (builtin.after calls).rules, (builtin.after calls).get? rule.id = some rule) ∧
    (∀ rule,
      ((∃ e, (builtin.after calls).register rule = .error e) ↔
        ∃ other ∈ (builtin.after calls).rules, rule.id = other.id ∨ rule.id = other.name) ∧
      ((∃ e, (builtin.after calls).register rule = .error e) →
        builtin.after (calls ++ [rule]) = builtin.after calls)) ∧
    (builtin.after calls).rules = .characterReplacement :: builtin.succeeding calls ∧
    ∀ select ignore,
      ((builtin.after calls).enabled select ignore).Sublist (builtin.after calls).rules ∧
      ∀ rule ∈ (builtin.after calls).rules,
        rule ∈ (builtin.after calls).enabled select ignore ↔
          (∃ key ∈ select, rule.Matches key) ∧ ¬ ∃ key ∈ ignore, rule.Matches key := by
  have hrules := unshadowed_builtin.after calls
  refine ⟨hrules.nodup_ids, fun rule => hrules.get?_id, ?_, rules_after builtin calls, ?_⟩
  · intro rule
    refine ⟨exists_register_error_iff, ?_⟩
    rintro ⟨e, hfails⟩
    rw [after_append, after, hfails, after]
  · intro select ignore
    refine ⟨List.filter_sublist, ?_⟩
    intro rule hrule
    rw [mem_enabled_iff, and_iff_right hrule]

/-- A rule that finds nothing. -/
def silent (id name : String) : Rule :=
  .reporting id name .style false "" fun _ => pure []

-- the name of the first rule keeps the second out; the name of the third does not hide the first
theorem after_calls_finds_by_id_of_clashing_names :
    (builtin.after [silent "Q1" "Q2", silent "Q2" "late", silent "Q3" "Q1"]).rules =
      [.characterReplacement, silent "Q1" "Q2", silent "Q3" "Q1"] ∧
    (builtin.after [silent "Q1" "Q2", silent "Q2" "late", silent "Q3" "Q1"]).get? "Q1" =
      some (silent "Q1" "Q2") ∧
    builtin.after [silent "Q1" "Q2", silent "Q2" "late"] = builtin.after [silent "Q1" "Q2"] := by
  have hsucceeding : builtin.succeeding
      [silent "Q1" "Q2", silent "Q2" "late", silent "Q3" "Q1"] =
        [silent "Q1" "Q2", silent "Q3" "Q1"] := rfl
  obtain ⟨-, hget, -, hrules, -⟩ :=
    after_calls_finds_by_id [silent "Q1" "Q2", silent "Q2" "late", silent "Q3" "Q1"]
  obtain ⟨-, -, hfails, -⟩ := after_calls_finds_by_id [silent "Q1" "Q2"]
  rw [hsucceeding] at hrules
  refine ⟨hrules, hget (silent "Q1" "Q2") (by rw [hrules]; simp), ?_⟩
  exact (hfails (silent "Q2" "late")).2 ⟨⟨"Q2"⟩, rfl⟩

end Registry

end RubyLint
