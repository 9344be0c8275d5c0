import RubyLint.Argument.Resolve
import Mathlib.Tactic

/-!
# Taking outcomes apart

A computation in several steps ends with a value exactly when each of its steps does.  This is
stated once for plain results, for traced computations and for a computation run over a list, so
that later proofs peel the steps off one by one and never look into a bind.
-/

namespace RubyLint

open Text

variable {ε ε' α β : Type}

namespace Outcome

theorem bind_eq_ok_iff {x : Except ε α} {next : α → Except ε β} {b : β} :
    x >>= next = .ok b ↔ ∃ a, x = .ok a ∧ next a = .ok b := by
  rcases x with e | a
  · simp [bind, Except.bind]
  · simp [bind, Except.bind]

theorem map_eq_ok_iff {x : Except ε α} {f : α → β} {b : β} :
    f <$> x = .ok b ↔ ∃ a, x = .ok a ∧ f a = b := by
  rw [map_eq_pure_bind, bind_eq_ok_iff]
  simp [pure, Except.pure]

theorem map_eq_error_iff {x : Except ε α} {f : α → β} {e : ε} :
    f <$> x = .error e ↔ x = .error e := by
  rcases x with e' | a <;> simp [Functor.map, Except.map]

theorem mapError_eq_ok_iff {x : Except ε α} {restate : ε → ε'} {a : α} :
    x.mapError restate = .ok a ↔ x = .ok a := by
  rcases x with e | b <;> simp [Except.mapError]

theorem mapError_eq_error_iff {x : Except ε α} {restate : ε → ε'} {e' : ε'} :
    x.mapError restate = .error e' ↔ ∃ e, x = .error e ∧ restate e = e' := by
  rcases x with e | b <;> simp [Except.mapError]

theorem mapM_eq_ok
    {f : α → Except ε β} {g : α → β} {items : List α}
    (hitems : ∀ item ∈ items, f item = .ok (g item)) : items.mapM f = .ok (items.map g) := by
  induction items with
  | nil => rfl
  | cons item rest ih =>
      rw [List.mapM_cons, hitems item List.mem_cons_self,
        ih fun other hother => hitems other (List.mem_cons_of_mem item hother)]
      rfl

theorem foldlM_eq_ok_of_imp
    {step step' : β → α → Except ε β} (himp : ∀ b a b', step b a = .ok b' → step' b a = .ok b')
    {items : List α} {b b' : β} (hitems : items.foldlM step b = .ok b') :
    items.foldlM step' b = .ok b' := by
  induction items generalizing b with
  | nil => exact hitems
  | cons item rest ih =>
      rw [List.foldlM_cons] at hitems ⊢
      obtain ⟨next, hnext, hrest⟩ := bind_eq_ok_iff.mp hitems
      exact bind_eq_ok_iff.mpr ⟨next, himp b item next hnext, ih hrest⟩

/-- What fails first makes the whole fail. -/
theorem exists_mapM_eq_error
    {f : α → Except ε β} {items : List α} (hfails : ∃ item ∈ items, ∃ e, f item = .error e) :
    ∃ item ∈ items, ∃ e, f item = .error e ∧ items.mapM f = .error e := by
  induction items with
  | nil => simp at hfails
  | cons item rest ih =>
      rw [List.mapM_cons]
      cases hitem : f item with
      | error e => exact ⟨item, List.mem_cons_self, e, hitem, rfl⟩
      | ok value =>
          obtain ⟨item', hitem', e, he⟩ := hfails
          have hrest : item' ∈ rest := by
            rcases List.mem_cons.mp hitem' with rfl | hrest
            · cases hitem.symm.trans he
            · exact hrest
          obtain ⟨failing, hfailing, e', he', hmap⟩ := ih ⟨item', hrest, e, he⟩
          exact ⟨failing, List.mem_cons_of_mem item hfailing, e', he', by rw [hmap]; rfl⟩

end Outcome

namespace Traced

theorem bind_outcome_eq_ok_iff {x : Traced ε α} {next : α → Traced ε β} {b : β} :
    (x >>= next).outcome = .ok b ↔ ∃ a, x.outcome = .ok a ∧ (next a).outcome = .ok b := by
  rw [outcome_bind]
  exact Outcome.bind_eq_ok_iff

theorem bind_outcome_eq_error_iff {x : Traced ε α} {next : α → Traced ε β} {e : ε} :
    (x >>= next).outcome = .error e ↔
      x.outcome = .error e ∨ ∃ a, x.outcome = .ok a ∧ (next a).outcome = .error e := by
  rw [outcome_bind]
  cases x.outcome <;> simp [Except.bind]

theorem outcome_bind_of_ok {x : Traced ε α} {next : α → Traced ε β} {a : α}
    (hx : x.outcome = .ok a) : (x >>= next).outcome = (next a).outcome := by
  rw [outcome_bind, hx]
  rfl

theorem exists_bind_outcome {x : Traced ε α} {next : α → Traced ε β} {a : α}
    (hx : x.outcome = .ok a) (hnext : ∃ b, (next a).outcome = .ok b) :
    ∃ b, (x >>= next).outcome = .ok b := by
  obtain ⟨b, hb⟩ := hnext
  exact ⟨b, bind_outcome_eq_ok_iff.mpr ⟨a, hx, hb⟩⟩

theorem map_outcome_eq_ok_iff {x : Traced ε α} {f : α → β} {b : β} :
    (f <$> x).outcome = .ok b ↔ ∃ a, x.outcome = .ok a ∧ f a = b := by
  rw [map_eq_pure_bind, bind_outcome_eq_ok_iff]
  simp

theorem liftText_outcome_eq_ok_iff {result : Except Utf8Error α} {a : α} :
    (liftText result).outcome = .ok a ↔ result = .ok a := by
  rw [liftText, outcome_ofExcept, Outcome.mapError_eq_ok_iff]

theorem exists_of_liftText_outcome_eq_error {result : Except Utf8Error α} {e : Failure}
    (hresult : (liftText result).outcome = .error e) : ∃ ill, e = .illFormedText ill := by
  cases result with
  | error ill =>
      cases hresult
      exact ⟨ill, rfl⟩
  | ok a => cases hresult

/-- A run over a list ends with the values of its elements, one for each. -/
theorem collect_outcome_eq_ok_iff {f : α → Traced ε β} {items : List α} {values : List β} :
    (collect f items).outcome = .ok values ↔
      List.Forall₂ (fun item value => (f item).outcome = .ok value) items values := by
  induction items generalizing values with
  | nil => simp [collect, eq_comm]
  | cons item items ih =>
      simp only [collect, bind_outcome_eq_ok_iff, outcome_pure, Except.ok.injEq, ih,
        List.forall₂_cons_left_iff]
      constructor
      · rintro ⟨value, hvalue, values, hvalues, rfl⟩
        exact ⟨value, values, hvalue, hvalues, rfl⟩
      · rintro ⟨value, values, hvalue, hvalues, rfl⟩
        exact ⟨value, hvalue, values, hvalues, rfl⟩

/-- The values of a run over a list are the outcomes on its elements. -/
theorem map_outcome_of_collect {f : α → Traced ε β} {items : List α} {values : List β}
    (hvalues : (collect f items).outcome = .ok values) :
    items.map (fun item => (f item).outcome) = values.map .ok := by
  rw [collect_outcome_eq_ok_iff] at hvalues
  rw [← List.forall₂_eq_eq_eq, List.forall₂_map_left_iff, List.forall₂_map_right_iff]
  exact hvalues

theorem exists_of_mem_collect {f : α → Traced ε β} {items : List α} {values : List β}
    (hvalues : (collect f items).outcome = .ok values) {value : β} (hvalue : value ∈ values) :
    ∃ item ∈ items, (f item).outcome = .ok value := by
  have hmem : (.ok value : Except ε β) ∈ values.map .ok := List.mem_map_of_mem hvalue
  rw [← map_outcome_of_collect hvalues] at hmem
  exact List.mem_map.mp hmem

theorem pairwise_of_collect {R : β → β → Prop} {f : α → Traced ε β} {items : List α}
    {values : List β} (hvalues : (collect f items).outcome = .ok values)
    (hitems : items.Pairwise fun item item' => ∀ value value',
      (f item).outcome = .ok value → (f item').outcome = .ok value' → R value value') :
    values.Pairwise R := by
  have houtcomes : (items.map fun item => (f item).outcome).Pairwise fun x y =>
      ∀ value value', x = .ok value → y = .ok value' → R value value' :=
    List.pairwise_map.mpr hitems
  rw [map_outcome_of_collect hvalues, List.pairwise_map] at houtcomes
  exact houtcomes.imp fun hrelated => hrelated _ _ rfl rfl

theorem exists_collect_outcome {f : α → Traced ε β} {items : List α}
    (hitems : ∀ item ∈ items, ∃ value, (f item).outcome = .ok value) :
    ∃ values, (collect f items).outcome = .ok values := by
  induction items with
  | nil => exact ⟨[], rfl⟩
  | cons item items ih =>
      obtain ⟨value, hvalue⟩ := hitems item (by simp)
      obtain ⟨values, hvalues⟩ := ih fun other hother => hitems other (by simp [hother])
      refine ⟨value :: values, ?_⟩
      rw [collect_outcome_eq_ok_iff] at hvalues ⊢
      exact .cons hvalue hvalues

/-- A computation that fails with `e` where `p` holds, and ends with a value where it does not. -/
structure FailsIff (e : ε) (p : Prop) (x : Traced ε α) : Prop where
  fails : p → x.outcome = .error e
  ends : ¬ p → ∃ a, x.outcome = .ok a

namespace FailsIff

variable {e : ε} {p q : Prop} {x : Traced ε α}

theorem of_ok {a : α} (hx : x.outcome = .ok a) (hp : ¬ p) : FailsIff e p x :=
  ⟨fun h => absurd h hp, fun _ => ⟨a, hx⟩⟩

theorem congr (hx : FailsIff e p x) (hpq : p ↔ q) : FailsIff e q x :=
  ⟨fun hq => hx.fails (hpq.mpr hq), fun hq => hx.ends (mt hpq.mp hq)⟩

theorem of_outcome_eq {y : Traced ε α} (hy : FailsIff e p y) (hxy : x.outcome = y.outcome) :
    FailsIff e p x := by
  constructor <;> rw [hxy]
  · exact hy.fails
  · exact hy.ends

theorem bind {next : α → Traced ε β} (hx : FailsIff e p x)
    (hnext : ∀ a, x.outcome = .ok a → FailsIff e q (next a)) :
    FailsIff e (p ∨ ¬ p ∧ q) (x >>= next) := by
  by_cases hp : p
  · refine ⟨fun _ => ?_, fun hnot => absurd (.inl hp) hnot⟩
    rw [outcome_bind, hx.fails hp]
    rfl
  · obtain ⟨a, ha⟩ := hx.ends hp
    have hbind : (x >>= next).outcome = (next a).outcome := outcome_bind_of_ok ha
    refine ⟨fun h => ?_, fun h => ?_⟩
    · rw [hbind]
      exact (hnext a ha).fails (h.resolve_left hp).2
    · rw [hbind]
      exact (hnext a ha).ends fun hq => h (.inr ⟨hp, hq⟩)

/-- Where only the first step can fail. -/
theorem bind_ends {next : α → Traced ε β} (hx : FailsIff e p x)
    (hnext : ∀ a, x.outcome = .ok a → ∃ b, (next a).outcome = .ok b) :
    FailsIff e p (x >>= next) := by
  refine (hx.bind (q := False) fun a ha => ?_).congr (by tauto)
  obtain ⟨b, hb⟩ := hnext a ha
  exact of_ok hb not_false

/-- Where the first step does not fail. -/
theorem bind_ok {next : α → Traced ε β} {a : α} (hx : x.outcome = .ok a)
    (hnext : FailsIff e q (next a)) : FailsIff e q (x >>= next) := by
  constructor <;> rw [outcome_bind_of_ok hx]
  · exact hnext.fails
  · exact hnext.ends

/-- A run over a list fails where it fails on an item. -/
theorem collect {p : α → Prop} {f : α → Traced ε β} {items : List α}
    (hitems : ∀ item ∈ items, FailsIff e (p item) (f item)) :
    FailsIff e (∃ item ∈ items, p item) (Traced.collect f items) := by
  induction items with
  | nil => exact of_ok rfl (by simp)
  | cons item rest ih =>
      have hrest := ih fun other hother => hitems other (List.mem_cons_of_mem item hother)
      have hfirst := hitems item List.mem_cons_self
      refine (hfirst.bind fun value _ => hrest.bind_ends fun values _ => ⟨_, rfl⟩).congr ?_
      simp only [List.mem_cons, or_and_right, exists_or, exists_eq_left]
      tauto

end FailsIff

theorem collect_write (level : Log.Level) (origin : Log.Origin) (message : α → String)
    (items : List α) :
    (collect (fun item => write level origin (message item)) items : Traced ε (List Unit)) =
      ⟨items.map fun item => ⟨level, origin, message item⟩, .ok (items.map fun _ => ())⟩ := by
  induction items with
  | nil => rfl
  | cons item items ih =>
      rw [collect, ih]
      show Traced.mk ([_] ++ (_ ++ [])) _ = _
      rw [List.append_nil]
      rfl

end Traced

/-! ## Two computations side by side -/

variable {α' β' : Type} {R : α → α' → Prop} {S : β → β' → Prop}

/-- Both results are the same error, or values that `R` relates. -/
inductive Outcome.Agree (R : α → α' → Prop) : Except ε α → Except ε α' → Prop
  | error (e : ε) : Agree R (.error e) (.error e)
  | ok {a : α} {a' : α'} (hrelated : R a a') : Agree R (.ok a) (.ok a')

namespace Outcome.Agree

variable {x : Except ε α} {x' : Except ε α'}

theorem refl {R : α → α → Prop} (hrefl : ∀ a, R a a) (x : Except ε α) : Agree R x x := by
  cases x with
  | error e => exact .error e
  | ok a => exact .ok (hrefl a)

theorem bind
    {next : α → Except ε β} {next' : α' → Except ε β'} (hagree : Agree R x x')
    (hnext : ∀ a a', R a a' → Agree S (next a) (next' a')) :
    Agree S (x >>= next) (x' >>= next') := by
  cases hagree with
  | error e => exact .error e
  | ok hrelated => exact hnext _ _ hrelated

theorem mapError (restate : ε → ε') (hagree : Agree R x x') :
    Agree R (x.mapError restate) (x'.mapError restate) := by
  cases hagree with
  | error e => exact .error (restate e)
  | ok hrelated => exact .ok hrelated

theorem imp {R' : α → α' → Prop} (himp : ∀ a a', R a a' → R' a a') (hagree : Agree R x x') :
    Agree R' x x' := by
  cases hagree with
  | error e => exact .error e
  | ok hrelated => exact .ok (himp _ _ hrelated)

end Outcome.Agree

/-- The computations write the same log, and their results agree. -/
structure Traced.Agree (R : α → α' → Prop) (x : Traced ε α) (x' : Traced ε α') : Prop where
  log : x.log = x'.log
  outcome : Outcome.Agree R x.outcome x'.outcome

namespace Traced.Agree

variable {x : Traced ε α} {x' : Traced ε α'}

theorem refl {R : α → α → Prop} (hrefl : ∀ a, R a a) (x : Traced ε α) : Agree R x x :=
  ⟨rfl, .refl hrefl x.outcome⟩

theorem pure {a : α} {a' : α'} (hrelated : R a a') :
    Agree R (Pure.pure a : Traced ε α) (Pure.pure a') :=
  ⟨rfl, .ok hrelated⟩

theorem ofExcept {result : Except ε α} {result' : Except ε α'}
    (hagree : Outcome.Agree R result result') :
    Agree R (Traced.ofExcept result) (Traced.ofExcept result') :=
  ⟨rfl, hagree⟩

theorem mapError (restate : ε → ε') (hagree : Agree R x x') :
    Agree R (x.mapError restate) (x'.mapError restate) :=
  ⟨hagree.log, hagree.outcome.mapError restate⟩

theorem imp {R' : α → α' → Prop} (himp : ∀ a a', R a a' → R' a a') (hagree : Agree R x x') :
    Agree R' x x' :=
  ⟨hagree.log, hagree.outcome.imp himp⟩

theorem bind
    {next : α → Traced ε β} {next' : α' → Traced ε β'} (hagree : Agree R x x')
    (hnext : ∀ a a', R a a' → Agree S (next a) (next' a')) :
    Agree S (x >>= next) (x' >>= next') := by
  obtain ⟨log, outcome⟩ := x
  obtain ⟨log', outcome'⟩ := x'
  obtain ⟨hlog, houtcome⟩ := hagree
  cases houtcome with
  | error e => exact ⟨hlog, .error e⟩
  | ok hrelated =>
      obtain ⟨hlog', houtcome'⟩ := hnext _ _ hrelated
      exact ⟨congrArg₂ (· ++ ·) hlog hlog', houtcome'⟩

/-- After the same first step only the rest has to agree. -/
theorem bind_left
    (x : Traced ε α) {next : α → Traced ε β} {next' : α → Traced ε β'}
    (hnext : ∀ a, Agree S (next a) (next' a)) : Agree S (x >>= next) (x >>= next') := by
  refine bind (refl (@rfl α) x) ?_
  rintro a _ rfl
  exact hnext a

theorem collect
    {γ : Type} {f : γ → Traced ε β} {f' : γ → Traced ε β'} (hf : ∀ item, Agree S (f item) (f' item))
    (items : List γ) :
    Agree (List.Forall₂ S) (Traced.collect f items) (Traced.collect f' items) := by
  induction items with
  | nil => exact .pure .nil
  | cons item items ih =>
      refine (hf item).bind fun value value' hvalue => ih.bind fun values values' hvalues => ?_
      exact .pure (.cons hvalue hvalues)

end Traced.Agree

end RubyLint
