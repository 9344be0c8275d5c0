import Mathlib.Tactic

/-!
# Stable sorting by a key

A stable sort by a key puts a list in the order of the keys and leaves the elements with one key in
the order in which they were.  These two facts determine the result: two lists in the order of
their keys are equal as soon as they agree on the elements of every key.  So the order of blocks
that share no key leaves no trace.  Lists whose elements correspond one by one still do so after
both are sorted, if the correspondence respects the order.
-/

namespace RubyLint.StableSort

variable {α κ : Type} [LinearOrder κ] {key : α → κ} {le : α → α → Bool}
  (hle : ∀ a b, le a b = true ↔ key a ≤ key b)

include hle

theorem le_trans_of_key (a b c : α) (hab : le a b = true) (hbc : le b c = true) :
    le a c = true := by
  rw [hle] at hab hbc ⊢
  exact hab.trans hbc

theorem le_total_of_key (a b : α) : (le a b || le b a) = true := by
  rw [Bool.or_eq_true, hle, hle]
  exact le_total (key a) (key b)

theorem pairwise_mergeSort (items : List α) :
    (items.mergeSort le).Pairwise fun a b => key a ≤ key b := by
  have hsorted := List.pairwise_mergeSort (le_trans_of_key hle) (le_total_of_key hle) items
  exact hsorted.imp fun {a b} hab => (hle a b).mp hab

/-- The elements with one key keep their order. -/
theorem filter_mergeSort (items : List α) (k : κ) :
    (items.mergeSort le).filter (fun a => key a = k) = items.filter fun a => key a = k := by
  have htied : (items.filter fun a => key a = k).Pairwise fun a b => le a b = true := by
    rw [List.pairwise_filter]
    refine List.pairwise_of_forall ?_
    intro a b ha hb
    rw [decide_eq_true_iff] at ha hb
    rw [hle, ha, hb]
  have hkept : (items.filter fun a => key a = k).Sublist (items.mergeSort le) :=
    List.sublist_mergeSort (le_trans_of_key hle) (le_total_of_key hle) htied List.filter_sublist
  have hkept' := hkept.filter fun a => decide (key a = k)
  rw [List.filter_filter] at hkept'
  simp only [Bool.and_self] at hkept'
  refine (hkept'.eq_of_length ?_).symm
  exact ((List.mergeSort_perm items le).filter _).length_eq.symm

omit hle

theorem head_eq_of_filter_eq
    {a b : α} {rest rest' : List α}
    (hsorted : (a :: rest).Pairwise fun a b => key a ≤ key b)
    (hsorted' : (b :: rest').Pairwise fun a b => key a ≤ key b)
    (hfilter : ∀ k, (a :: rest).filter (fun a => key a = k) =
      (b :: rest').filter fun a => key a = k) : a = b := by
  have ha : a ∈ b :: rest' := by
    have hmem : a ∈ (a :: rest).filter fun x => key x = key a := by simp
    rw [hfilter] at hmem
    exact List.mem_of_mem_filter hmem
  have hb : b ∈ a :: rest := by
    have hmem : b ∈ (b :: rest').filter fun x => key x = key b := by simp
    rw [← hfilter] at hmem
    exact List.mem_of_mem_filter hmem
  have hkey : key a = key b := by
    apply le_antisymm
    · rcases List.mem_cons.mp hb with rfl | hb
      · exact le_rfl
      · exact (List.pairwise_cons.mp hsorted).1 b hb
    · rcases List.mem_cons.mp ha with rfl | ha
      · exact le_rfl
      · exact (List.pairwise_cons.mp hsorted').1 a ha
  have hfirst := hfilter (key a)
  simp only [List.filter_cons, hkey, decide_true, if_true, List.cons.injEq] at hfirst
  exact hfirst.1

theorem eq_of_filter_eq
    {items items' : List α} (hsorted : items.Pairwise fun a b => key a ≤ key b)
    (hsorted' : items'.Pairwise fun a b => key a ≤ key b)
    (hfilter : ∀ k, items.filter (fun a => key a = k) = items'.filter fun a => key a = k) :
    items = items' := by
  induction items generalizing items' with
  | nil =>
      cases items' with
      | nil => rfl
      | cons b rest' =>
          have hnone := hfilter (key b)
          simp at hnone
  | cons a rest ih =>
      cases items' with
      | nil =>
          have hnone := hfilter (key a)
          simp at hnone
      | cons b rest' =>
          obtain rfl := head_eq_of_filter_eq hsorted hsorted' hfilter
          rw [List.pairwise_cons] at hsorted hsorted'
          rw [ih hsorted.2 hsorted'.2]
          intro k
          have hrest := hfilter k
          simp only [List.filter_cons] at hrest
          split at hrest
          · exact (List.cons.inj hrest).2
          · exact hrest

section Blocks

variable {β : Type} {block : β → List α} {blocks blocks' : List β}

theorem filter_flatMap_eq_of_perm
    {p : α → Bool} (hperm : blocks.Perm blocks')
    (hone : ∀ b ∈ blocks, ∀ c ∈ blocks,
      (block b).filter p ≠ [] → (block c).filter p ≠ [] → b = c) :
    (blocks.flatMap block).filter p = (blocks'.flatMap block).filter p := by
  induction hperm with
  | nil => rfl
  | cons first _ ih =>
      rw [List.flatMap_cons, List.flatMap_cons, List.filter_append, List.filter_append, ih]
      intro b hb c hc
      exact hone b (List.mem_cons_of_mem first hb) c (List.mem_cons_of_mem first hc)
  | swap b c rest =>
      simp only [List.flatMap_cons, List.filter_append, ← List.append_assoc]
      congr 1
      by_cases hb : (block b).filter p = []
      · rw [hb, List.append_nil, List.nil_append]
      by_cases hc : (block c).filter p = []
      · rw [hc, List.append_nil, List.nil_append]
      obtain rfl := hone b (by simp) c (by simp) hb hc
      rfl
  | trans hfirst _ ih ih' =>
      refine (ih hone).trans (ih' ?_)
      intro b hb c hc
      exact hone b (hfirst.mem_iff.mpr hb) c (hfirst.mem_iff.mpr hc)

/-- Blocks that have no key in common may be put together in any order before they are sorted. -/
theorem mergeSort_flatMap_eq_of_perm
    (hle : ∀ a b, le a b = true ↔ key a ≤ key b) (hperm : blocks.Perm blocks')
    (hkeys : ∀ b ∈ blocks, ∀ c ∈ blocks, ∀ x ∈ block b, ∀ y ∈ block c, key x = key y → b = c) :
    (blocks.flatMap block).mergeSort le = (blocks'.flatMap block).mergeSort le := by
  refine eq_of_filter_eq (pairwise_mergeSort hle _) (pairwise_mergeSort hle _) ?_
  intro k
  rw [filter_mergeSort hle, filter_mergeSort hle]
  refine filter_flatMap_eq_of_perm hperm ?_
  intro b hb c hc hx hy
  obtain ⟨x, hx⟩ := List.exists_mem_of_ne_nil _ hx
  obtain ⟨y, hy⟩ := List.exists_mem_of_ne_nil _ hy
  simp only [List.mem_filter, decide_eq_true_eq] at hx hy
  exact hkeys b hb c hc x hx.1 y hy.1 (hx.2.trans hy.2.symm)

/-- Where a key determines the element, the order before sorting leaves no trace. -/
theorem mergeSort_eq_of_perm
    (hle : ∀ a b, le a b = true ↔ key a ≤ key b) {items items' : List α}
    (hperm : items.Perm items') (hkeys : ∀ a ∈ items, ∀ b ∈ items, key a = key b → a = b) :
    items.mergeSort le = items'.mergeSort le := by
  have hblocks := @mergeSort_flatMap_eq_of_perm α κ _ key le α (fun a => [a]) items items' hle hperm
  simp only [List.flatMap_singleton', List.mem_singleton, forall_eq] at hblocks
  exact hblocks hkeys

end Blocks

section Related

variable {α' : Type} {R : α → α' → Prop} {items : List α} {items' : List α'}

/-- Lists whose elements are related one by one are two views of one list of pairs. -/
theorem exists_pairs (hrelated : List.Forall₂ R items items') :
    ∃ pairs : List { pair : α × α' // R pair.1 pair.2 },
      pairs.map (·.1.1) = items ∧ pairs.map (·.1.2) = items' := by
  induction hrelated with
  | nil => exact ⟨[], rfl, rfl⟩
  | cons hhead _ ih =>
      obtain ⟨pairs, rfl, rfl⟩ := ih
      exact ⟨⟨(_, _), hhead⟩ :: pairs, rfl, rfl⟩

theorem forall₂_mergeSort
    {le' : α' → α' → Bool} (hrelated : List.Forall₂ R items items')
    (hle : ∀ a b a' b', R a a' → R b b' → le a b = le' a' b') :
    List.Forall₂ R (items.mergeSort le) (items'.mergeSort le') := by
  obtain ⟨pairs, rfl, rfl⟩ := exists_pairs hrelated
  let lePairs (p q : { pair : α × α' // R pair.1 pair.2 }) : Bool := le p.1.1 q.1.1
  have hfirst : (pairs.mergeSort lePairs).map (·.1.1) = (pairs.map (·.1.1)).mergeSort le :=
    List.map_mergeSort fun _ _ _ _ => rfl
  have hsecond : (pairs.mergeSort lePairs).map (·.1.2) = (pairs.map (·.1.2)).mergeSort le' :=
    List.map_mergeSort fun p _ q _ => hle _ _ _ _ p.2 q.2
  rw [← hfirst, ← hsecond, List.forall₂_map_left_iff, List.forall₂_map_right_iff,
    List.forall₂_same]
  exact fun pair _ => pair.2

end Related

end RubyLint.StableSort
