import RubyLint.Diff
import Mathlib.Tactic

/-!
# Chunks that lead from one list to another

Comparing two lists cuts both of them into chunks: what the chunks take from the first list makes up
that list, and what they take from the second makes up the second.  The block that is put aside in
each round consists of equal lines, and there is one as soon as the two lists have a line in common
that counts.  A list compared with itself is one block, and a line that stands at the end of both
lists and nowhere else always ends up in a block.
-/

namespace RubyLint.Diff

variable {α : Type} [DecidableEq α]

/-! ## Agreement of two lists -/

theorem take_agreement (as bs : List α) :
    as.take (agreement as bs) = bs.take (agreement as bs) := by
  fun_induction agreement as bs with
  | case1 a as bs ih => simp [ih]
  | case2 => rfl
  | case3 => rfl

theorem agreement_self (as : List α) : agreement as as = as.length := by
  induction as with
  | nil => rfl
  | cons a as ih => simp [agreement, ih]

theorem agreement_le_length_right (as bs : List α) : agreement as bs ≤ bs.length := by
  have hleft := agreement_le_length as bs
  have hlength := congrArg List.length (take_agreement as bs)
  simp only [List.length_take] at hlength
  omega

theorem getElem?_of_lt_agreement
    {as bs : List α} {k : Nat} (hk : k < agreement as bs) : as[k]? = bs[k]? := by
  rw [← List.getElem?_take_of_lt hk, take_agreement, List.getElem?_take_of_lt hk]

theorem agreement_pos
    {as bs : List α} {line : α} (has : as[0]? = some line) (hbs : bs[0]? = some line) :
    0 < agreement as bs := by
  cases as with
  | nil => cases has
  | cons a as =>
      cases bs with
      | nil => cases hbs
      | cons b bs =>
          cases has
          cases hbs
          simp [agreement]

/-- A block consists of equal lines. -/
theorem take_block
    {first : List α} {second : List (MarkedLine α)} {i j length : Nat}
    (hblock : block first second = ⟨i, j, length⟩) :
    (first.drop i).take length = ((second.map (·.1)).drop j).take length := by
  simp only [block, Run.mk.injEq] at hblock
  obtain ⟨rfl, rfl, rfl⟩ := hblock
  exact take_agreement _ _

/-! ## What the chunks are made of -/

theorem chunks_of_block
    {first : List α} {second : List (MarkedLine α)} {i j length : Nat}
    (hblock : block first second = ⟨i, j, length + 1⟩) :
    chunks first second = chunks (first.take i) (second.take j) ++
      .same ((first.drop i).take (length + 1)) ::
        chunks (first.drop (i + (length + 1))) (second.drop (j + (length + 1))) := by
  rw [chunks]
  split
  next hnone =>
    rw [hblock] at hnone
    cases hnone
  next hsome =>
    rw [hblock] at hsome
    cases hsome
    rfl

theorem flatMap_before_chunks (first : List α) (second : List (MarkedLine α)) :
    (chunks first second).flatMap Chunk.before = first := by
  fun_induction chunks first second with
  | case1 first second i j hblock hempty =>
      simp only [Bool.and_eq_true, List.isEmpty_iff] at hempty
      simp [hempty.1]
  | case2 first second i j hblock hempty => simp [Chunk.before]
  | case3 first second i j length hblock hfits ihleft ihright =>
      simp only [List.flatMap_append, List.flatMap_cons, ihleft, ihright, Chunk.before]
      rw [← List.drop_drop, List.take_append_drop, List.take_append_drop]

theorem flatMap_after_chunks (first : List α) (second : List (MarkedLine α)) :
    (chunks first second).flatMap Chunk.after = second.map (·.1) := by
  fun_induction chunks first second with
  | case1 first second i j hblock hempty =>
      simp only [Bool.and_eq_true, List.isEmpty_iff] at hempty
      simp [hempty.2]
  | case2 first second i j hblock hempty => simp [Chunk.after]
  | case3 first second i j length hblock hfits ihleft ihright =>
      simp only [List.flatMap_append, List.flatMap_cons, ihleft, ihright, Chunk.after]
      rw [take_block hblock, List.map_take, List.map_drop, ← List.drop_drop,
        List.take_append_drop, List.take_append_drop]

theorem chunks_nil : chunks ([] : List α) [] = [] := by
  have hblock : block ([] : List α) [] = ⟨0, 0, 0⟩ := rfl
  rw [chunks]
  split
  next => rfl
  next hsome =>
    rw [hblock] at hsome
    cases hsome

/-! ## Scanning for the longest run -/

/-- What holds of the best run so far, and stays true as the runs that end at one line of the first
text are gone through, holds after all of them. -/
theorem longestOfRuns_invariant
    {Holds : Nat → Run → Prop} {first start : Nat} {runs : List Nat} {best : Run}
    (hstep : ∀ j run best, runs[j]? = some run → Holds (start + j) best →
      Holds (start + j + 1)
        (if best.length < run then ⟨first + 1 - run, start + j + 1 - run, run⟩ else best))
    (hstart : Holds start best) :
    Holds (start + runs.length) (longestOfRuns first start runs best) := by
  induction runs generalizing start best with
  | nil => exact hstart
  | cons run rest ih =>
      rw [longestOfRuns, List.length_cons, Nat.add_comm rest.length, ← Nat.add_assoc]
      apply ih
      · intro j run' best' hrun' hbest'
        have hnext := hstep (j + 1) run' best' (by simpa using hrun')
        rw [← Nat.add_assoc, Nat.add_right_comm start j 1] at hnext
        exact hnext hbest'
      · exact hstep 0 run best rfl hstart

/-- The same for all lines of the first text. -/
theorem longestRunFrom_invariant
    {Holds : Nat → List Nat → Run → Prop} {whole : List α} {second : List (MarkedLine α)}
    (hrow : ∀ k line runs best, whole[k]? = some line → Holds k runs best →
      Holds (k + 1) (nextRuns line second runs)
        (longestOfRuns k 0 (nextRuns line second runs) best))
    {k : Nat} {runs : List Nat} {best : Run} (hstart : Holds k runs best) (hk : k ≤ whole.length) :
    ∃ runs', Holds whole.length runs' (longestRunFrom second k (whole.drop k) runs best) := by
  induction hrest : whole.drop k generalizing k runs best with
  | nil =>
      have hend : k = whole.length := by
        have hlength := List.drop_eq_nil_iff.mp hrest
        omega
      subst hend
      exact ⟨runs, hstart⟩
  | cons line rest ih =>
      have hline : whole[k]? = some line := by
        rw [← List.head?_drop, hrest, List.head?_cons]
      have hlt : k < whole.length := (List.getElem?_eq_some_iff.mp hline).1
      rw [longestRunFrom]
      apply ih (hrow k line runs best hline hstart) hlt
      rw [← List.drop_drop, hrest]
      rfl

theorem getElem?_nextRuns
    {line : α} {second : List (MarkedLine α)} {runs : List Nat} {j run : Nat} :
    (nextRuns line second runs)[j]? = some run ↔
      ∃ marked earlier, second[j]? = some marked ∧ (0 :: runs)[j]? = some earlier ∧
        (if marked.2 ∧ marked.1 = line then earlier + 1 else 0) = run := by
  unfold nextRuns
  rw [List.getElem?_zipWith_eq_some]

theorem length_nextRuns
    {line : α} {second : List (MarkedLine α)} {runs : List Nat}
    (hlength : runs.length = second.length) :
    (nextRuns line second runs).length = second.length := by
  simp [nextRuns, hlength]

/-- The longest run of equal lines that count. -/
def longestRun (first : List α) (second : List (MarkedLine α)) : Run :=
  longestRunFrom second 0 first (second.map fun _ => 0) ⟨0, 0, 0⟩

theorem longestRun_invariant
    {Holds : Nat → List Nat → Run → Prop} {first : List α} {second : List (MarkedLine α)}
    (hrow : ∀ k line runs best, first[k]? = some line → Holds k runs best →
      Holds (k + 1) (nextRuns line second runs)
        (longestOfRuns k 0 (nextRuns line second runs) best))
    (hstart : Holds 0 (second.map fun _ => 0) ⟨0, 0, 0⟩) :
    ∃ runs, Holds first.length runs (longestRun first second) :=
  longestRunFrom_invariant hrow hstart (Nat.zero_le _)

/-! ## A common line makes a block -/

/-- A run that ends before line `k` of the first list and at line `j` of the second fits into both,
and its first lines are equal. -/
def EqualRun (first second : List α) (k j run : Nat) : Prop :=
  run ≤ k ∧ run ≤ j + 1 ∧
    (0 < run → ∃ line, first[k - run]? = some line ∧ second[j + 1 - run]? = some line)

omit [DecidableEq α] in
theorem EqualRun.extend
    {first second : List α} {k j : Nat} {line : α} {runs : List Nat} {earlier : Nat}
    (hruns : ∀ j run, runs[j]? = some run → EqualRun first second k j run)
    (hfirst : first[k]? = some line) (hsecond : second[j]? = some line)
    (hearlier : (0 :: runs)[j]? = some earlier) :
    EqualRun first second (k + 1) j (earlier + 1) := by
  by_cases hzero : earlier = 0
  · subst hzero
    exact ⟨by omega, by omega, fun _ => ⟨line, hfirst, hsecond⟩⟩
  · -- an earlier run ends one line before in both lists, so it has the same start
    cases j with
    | zero =>
        cases hearlier
        exact absurd rfl hzero
    | succ j =>
        obtain ⟨hk, hj, hstart⟩ := hruns j earlier (by simpa using hearlier)
        refine ⟨by omega, by omega, fun _ => ?_⟩
        rw [Nat.add_sub_add_right, Nat.add_sub_add_right]
        exact hstart (Nat.pos_of_ne_zero hzero)

theorem longestRun_start
    {first : List α} {second : List (MarkedLine α)} (hpos : 0 < (longestRun first second).length) :
    ∃ line, first[(longestRun first second).first]? = some line ∧
      (second.map (·.1))[(longestRun first second).second]? = some line := by
  let Starts (best : Run) : Prop := 0 < best.length →
    ∃ line, first[best.first]? = some line ∧ (second.map (·.1))[best.second]? = some line
  have hfinal := @longestRun_invariant α _ (fun k runs best =>
    (∀ j run, runs[j]? = some run → EqualRun first (second.map (·.1)) k j run) ∧ Starts best)
    first second ?_ ?_
  · obtain ⟨runs, -, hstarts⟩ := hfinal
    exact hstarts hpos
  · rintro k line runs best hline ⟨hruns, hbest⟩
    have hruns' : ∀ j run, (nextRuns line second runs)[j]? = some run →
        EqualRun first (second.map (·.1)) (k + 1) j run := by
      intro j run hrun
      obtain ⟨marked, earlier, hmarked, hearlier, rfl⟩ := getElem?_nextRuns.mp hrun
      split
      next hcounts =>
        refine EqualRun.extend hruns hline ?_ hearlier
        rw [List.getElem?_map, hmarked, Option.map_some, hcounts.2]
      next => exact ⟨by omega, by omega, fun hpos => absurd hpos (lt_irrefl 0)⟩
    refine ⟨hruns', ?_⟩
    refine @longestOfRuns_invariant (fun _ => Starts) k 0 _ best ?_ hbest
    intro j run best' hrun hbest'
    split
    · intro hpos
      rw [Nat.zero_add]
      exact (hruns' j run hrun).2.2 hpos
    · exact hbest'
  · refine ⟨?_, fun hpos => absurd hpos (lt_irrefl 0)⟩
    intro j run hrun
    rw [List.getElem?_map, Option.map_eq_some_iff] at hrun
    obtain ⟨_, -, rfl⟩ := hrun
    exact ⟨by omega, by omega, fun hpos => absurd hpos (lt_irrefl 0)⟩

theorem le_length_longestOfRuns
    (first : Nat) (runs : List Nat) (best : Run) :
    best.length ≤ (longestOfRuns first 0 runs best).length ∧
      ∀ (j run : Nat), runs[j]? = some run → run ≤ (longestOfRuns first 0 runs best).length := by
  have hfinal := @longestOfRuns_invariant (fun j best' => best.length ≤ best'.length ∧
    ∀ j' < j, ∀ run, runs[j']? = some run → run ≤ best'.length) first 0 runs best ?_ ?_
  · refine ⟨hfinal.1, ?_⟩
    intro j run hrun
    have hj := (List.getElem?_eq_some_iff.mp hrun).1
    exact hfinal.2 j (by omega) run hrun
  · rintro j run best' hrun ⟨hlength, hruns⟩
    have hlast : ∀ j' < 0 + j + 1, j' = j ∨ j' < 0 + j := by omega
    split
    next hlonger =>
      refine ⟨by simp only; omega, ?_⟩
      intro j' hj' run' hrun'
      rcases hlast j' hj' with rfl | hj'
      · cases hrun.symm.trans hrun'
        exact le_rfl
      · have hshorter := hruns j' hj' run' hrun'
        simp only
        omega
    next hshorter =>
      refine ⟨hlength, ?_⟩
      intro j' hj' run' hrun'
      rcases hlast j' hj' with rfl | hj'
      · cases hrun.symm.trans hrun'
        omega
      · exact hruns j' hj' run' hrun'
  · exact ⟨le_rfl, fun j' hj' => absurd hj' (Nat.not_lt_zero j')⟩

theorem longestRun_pos
    {first : List α} {second : List (MarkedLine α)} {line : α} (hfirst : line ∈ first)
    (hsecond : (line, true) ∈ second) : 0 < (longestRun first second).length := by
  obtain ⟨i, hi⟩ := List.mem_iff_getElem?.mp hfirst
  obtain ⟨j, hj⟩ := List.mem_iff_getElem?.mp hsecond
  have hfinal := @longestRun_invariant α _ (fun k runs best =>
    runs.length = second.length ∧ (i < k → 0 < best.length)) first second ?_ ?_
  · obtain ⟨runs, -, hpos⟩ := hfinal
    exact hpos (List.getElem?_eq_some_iff.mp hi).1
  · rintro k line' runs best hline' ⟨hlength, hbest⟩
    refine ⟨length_nextRuns hlength, ?_⟩
    intro hk
    obtain ⟨hlonger, hruns⟩ := le_length_longestOfRuns k (nextRuns line' second runs) best
    by_cases hik : i < k
    · exact (hbest hik).trans_le hlonger
    · -- line `k` is the common one, so the run that ends there has a line at least
      obtain rfl : i = k := by omega
      cases hi.symm.trans hline'
      have hj' := (List.getElem?_eq_some_iff.mp hj).1
      obtain ⟨earlier, hearlier⟩ : ∃ earlier, (0 :: runs)[j]? = some earlier :=
        ⟨_, List.getElem?_eq_getElem (by simp; omega)⟩
      have hrun := hruns j _ (getElem?_nextRuns.mpr ⟨_, _, hj, hearlier, rfl⟩)
      simp only [and_self, if_true] at hrun
      omega
  · exact ⟨by simp, fun hi => absurd hi (Nat.not_lt_zero i)⟩

theorem block_eq (first : List α) (second : List (MarkedLine α)) :
    block first second =
      let run := longestRun first second
      let back := agreement (first.take run.first).reverse
        ((second.map (·.1)).take run.second).reverse
      ⟨run.first - back, run.second - back,
        agreement (first.drop (run.first - back)) ((second.map (·.1)).drop (run.second - back))⟩ :=
  rfl

omit [DecidableEq α] in
theorem getElem?_reverse_take
    {lines : List α} {start k : Nat} (hk : k < start) (hstart : start ≤ lines.length) :
    (lines.take start).reverse[k]? = lines[start - (k + 1)]? := by
  have hlength : (lines.take start).length = start := by simp [hstart]
  rw [List.getElem?_reverse (by omega), hlength, List.getElem?_take_of_lt (by omega),
    Nat.sub_sub, Nat.add_comm 1 k]

theorem block_pos
    {first : List α} {second : List (MarkedLine α)} {line : α} (hfirst : line ∈ first)
    (hsecond : (line, true) ∈ second) : 0 < (block first second).length := by
  obtain ⟨start, hstart, hstart'⟩ := longestRun_start (longestRun_pos hfirst hsecond)
  rw [block_eq]
  generalize longestRun first second = run at hstart hstart' ⊢
  simp only
  set back := agreement (first.take run.first).reverse
    ((second.map (·.1)).take run.second).reverse with hback
  by_cases hzero : back = 0
  · rw [hzero, Nat.sub_zero, Nat.sub_zero]
    exact agreement_pos (by simpa using hstart) (by simpa using hstart')
  · -- the block starts with the last pair of lines that agree on the way back
    have hlt := (List.getElem?_eq_some_iff.mp hstart).1
    have hlt' := (List.getElem?_eq_some_iff.mp hstart').1
    have hleft : back ≤ run.first :=
      (agreement_le_length _ _).trans (by simp)
    have hright : back ≤ run.second :=
      (agreement_le_length_right _ _).trans (by simp)
    have hagree : (first.take run.first).reverse[back - 1]? =
        ((second.map (·.1)).take run.second).reverse[back - 1]? :=
      getElem?_of_lt_agreement (by omega)
    rw [getElem?_reverse_take (by omega) hlt.le, getElem?_reverse_take (by omega) hlt'.le,
      Nat.sub_add_cancel (by omega)] at hagree
    obtain ⟨line', hline'⟩ : ∃ line', first[run.first - back]? = some line' :=
      ⟨_, List.getElem?_eq_getElem (by omega)⟩
    apply agreement_pos
    · rw [List.getElem?_drop, Nat.add_zero]
      exact hline'
    · rw [List.getElem?_drop, Nat.add_zero, ← hagree]
      exact hline'

/-! ## A list compared with itself -/

/-- How many lines that count stand at the end of the first `k` ones. -/
def countedBefore (counts : α → Bool) (lines : List α) (k : Nat) : Nat :=
  ((lines.take k).reverse.takeWhile counts).length

omit [DecidableEq α] in
theorem countedBefore_succ
    {counts : α → Bool} {lines : List α} {k : Nat} {line : α} (hline : lines[k]? = some line) :
    countedBefore counts lines (k + 1) =
      if counts line then countedBefore counts lines k + 1 else 0 := by
  unfold countedBefore
  rw [List.take_add_one, hline, Option.toList_some, List.reverse_append, List.reverse_singleton,
    List.singleton_append, List.takeWhile_cons]
  split <;> simp

/-- The runs that end before line `k` of a list compared with itself are no longer than what counts
at their end, and the one on the diagonal is just as long. -/
def SelfRuns (counts : α → Bool) (lines : List α) (k : Nat) (runs : List Nat) : Prop :=
  runs.length = lines.length ∧ ∀ j run, runs[j]? = some run →
    run ≤ countedBefore counts lines (j + 1) ∧ run ≤ countedBefore counts lines k ∧
      (j + 1 = k → run = countedBefore counts lines k)

theorem SelfRuns.next
    {counts : α → Bool} {lines : List α} {k : Nat} {line : α} {runs : List Nat}
    (hruns : SelfRuns counts lines k runs) (hline : lines[k]? = some line) :
    SelfRuns counts lines (k + 1)
      (nextRuns line (lines.map fun line => (line, counts line)) runs) := by
  refine ⟨by rw [length_nextRuns] <;> simp [hruns.1], ?_⟩
  intro j run hrun
  obtain ⟨marked, earlier, hmarked, hearlier, rfl⟩ := getElem?_nextRuns.mp hrun
  rw [List.getElem?_map, Option.map_eq_some_iff] at hmarked
  obtain ⟨line', hline', rfl⟩ := hmarked
  rw [countedBefore_succ hline, countedBefore_succ hline']
  have hbefore : earlier ≤ countedBefore counts lines j ∧ earlier ≤ countedBefore counts lines k ∧
      (j = k → earlier = countedBefore counts lines k) := by
    cases j with
    | zero =>
        cases hearlier
        exact ⟨by omega, by omega, by rintro rfl; rfl⟩
    | succ j => exact hruns.2 j earlier (by simpa using hearlier)
  split
  next hcounts =>
    obtain ⟨hcounts, rfl⟩ := hcounts
    simp only at hcounts
    simp only [hcounts, if_true]
    omega
  next hother =>
    refine ⟨by omega, by omega, ?_⟩
    intro hjk
    obtain rfl : j = k := by omega
    cases hline.symm.trans hline'
    simp only [and_true] at hother
    simp [hother]

/-- The best run lies on the diagonal, and no run that ends before line `k` is longer. -/
def SelfBest (counts : α → Bool) (lines : List α) (k : Nat) (best : Run) : Prop :=
  best.first ≤ k ∧ best.second = best.first ∧
    ∀ m ≤ k, countedBefore counts lines m ≤ best.length

omit [DecidableEq α] in
theorem SelfBest.next
    {counts : α → Bool} {lines : List α} {k : Nat} {runs : List Nat} {best : Run}
    (hbest : SelfBest counts lines k best) (hruns : SelfRuns counts lines (k + 1) runs)
    (hk : k < lines.length) :
    SelfBest counts lines (k + 1) (longestOfRuns k 0 runs best) := by
  have hfinal := @longestOfRuns_invariant (fun j best => best.first ≤ k + 1 ∧
    best.second = best.first ∧ (∀ m ≤ k, countedBefore counts lines m ≤ best.length) ∧
    (k < j → countedBefore counts lines (k + 1) ≤ best.length)) k 0 runs best ?_ ?_
  · obtain ⟨hfirst, hsecond, hbefore, hlast⟩ := hfinal
    refine ⟨hfirst, hsecond, ?_⟩
    intro m hm
    rcases Nat.le_succ_iff.mp hm with hm | rfl
    · exact hbefore m hm
    · exact hlast (by rw [hruns.1]; omega)
  · rintro j run best' hrun ⟨hfirst, hsecond, hbefore, hlast⟩
    obtain ⟨hends, hends', hdiagonal⟩ := hruns.2 j run hrun
    split
    next hlonger =>
      -- only the run on the diagonal can be longer than all before it
      have hjk : j = k := by
        by_contra hne
        rcases Nat.lt_or_gt_of_ne hne with hlt | hgt
        · have := hbefore (j + 1) hlt
          omega
        · have := hlast (by omega)
          omega
      subst hjk
      refine ⟨by simp only; omega, by simp, ?_, ?_⟩
      · intro m hm
        exact (hbefore m hm).trans hlonger.le
      · intro _
        exact (hdiagonal rfl).ge
    next hshorter =>
      refine ⟨hfirst, hsecond, hbefore, ?_⟩
      intro hlt
      by_cases hjk : j = k
      · rw [← hdiagonal (by omega)]
        omega
      · exact hlast (by omega)
  · exact ⟨by have := hbest.1; omega, hbest.2.1, hbest.2.2, fun h => absurd h (Nat.not_lt_zero k)⟩

theorem longestRun_self (counts : α → Bool) (lines : List α) :
    ∃ start length, start ≤ lines.length ∧
      longestRun lines (lines.map fun line => (line, counts line)) = ⟨start, start, length⟩ := by
  have hfinal := @longestRun_invariant α _ (fun k runs best =>
    SelfRuns counts lines k runs ∧ SelfBest counts lines k best)
    lines (lines.map fun line => (line, counts line)) ?_ ?_
  · obtain ⟨runs, -, hfirst, hsecond, -⟩ := hfinal
    set best := longestRun lines (lines.map fun line => (line, counts line))
    refine ⟨best.first, best.length, hfirst, ?_⟩
    calc
      best = ⟨best.first, best.second, best.length⟩ := rfl
      _ = ⟨best.first, best.first, best.length⟩ := by rw [hsecond]
  · rintro k line runs best hline ⟨hruns, hbest⟩
    have hk := (List.getElem?_eq_some_iff.mp hline).1
    exact ⟨hruns.next hline, hbest.next (hruns.next hline) hk⟩
  · refine ⟨⟨by simp, ?_⟩, le_rfl, rfl, ?_⟩
    · intro j run hrun
      rw [List.getElem?_map, Option.map_eq_some_iff] at hrun
      obtain ⟨_, -, rfl⟩ := hrun
      exact ⟨by omega, by omega, fun hj => absurd hj (Nat.succ_ne_zero j)⟩
    · intro m hm
      obtain rfl : m = 0 := by omega
      simp [countedBefore]

omit [DecidableEq α] in
theorem map_fst_marked (counts : α → Bool) (lines : List α) :
    (lines.map fun line => (line, counts line)).map (·.1) = lines := by
  rw [List.map_map]
  exact List.map_id lines

/-- A list compared with itself is one block. -/
theorem block_self (counts : α → Bool) (lines : List α) :
    block lines (lines.map fun line => (line, counts line)) = ⟨0, 0, lines.length⟩ := by
  obtain ⟨start, length, hstart, hrun⟩ := longestRun_self counts lines
  simp only [block_eq, hrun, map_fst_marked]
  simp [agreement_self, hstart]

theorem compare_self (lines : List α) :
    compare lines lines = if lines = [] then [] else [.same lines] := by
  have hblock : block lines (mark lines) = ⟨0, 0, lines.length⟩ := block_self _ lines
  unfold compare
  cases lines with
  | nil => exact chunks_nil
  | cons line rest =>
      have hlength : (mark (line :: rest)).length = rest.length + 1 := by simp [mark]
      rw [chunks_of_block hblock, List.take_zero, List.take_zero, List.drop_zero, chunks_nil]
      simp [hlength, List.drop_eq_nil_of_le, chunks_nil]

/-! ## A common last line -/

omit [DecidableEq α] in
theorem getElem?_append_singleton_iff
    {lines : List α} {last : α} (hlast : last ∉ lines) {k : Nat} :
    (lines ++ [last])[k]? = some last ↔ k = lines.length := by
  constructor
  · intro hk
    by_contra hne
    rcases Nat.lt_or_gt_of_ne hne with hlt | hgt
    · rw [List.getElem?_append_left hlt] at hk
      exact hlast (List.mem_of_getElem? hk)
    · rw [List.getElem?_eq_none (by simp; omega)] at hk
      cases hk
  · rintro rfl
    simp

/-- A block that reaches a last line of one list, which stands nowhere else, reaches it in both. -/
theorem block_reaches_last
    {first : List α} {second : List (MarkedLine α)} {last : α} {i j length : Nat}
    (hfirst : last ∉ first) (hsecond : last ∉ second.map (·.1))
    (hblock : block (first ++ [last]) (second ++ [(last, true)]) = ⟨i, j, length + 1⟩) :
    i + length = first.length ↔ j + length = second.length := by
  have hequal := congrArg (·[length]?) (take_block hblock)
  simp only [List.getElem?_take_of_lt (Nat.lt_succ_self length), List.getElem?_drop,
    List.map_append, List.map_singleton] at hequal
  rw [← getElem?_append_singleton_iff hfirst, hequal, getElem?_append_singleton_iff hsecond,
    List.length_map]

/-- A last line that both lists share, and that stands nowhere else in them, is kept in the last
chunk. -/
theorem chunks_common_last
    {first : List α} {second : List (MarkedLine α)} {last : α}
    (hfirst : last ∉ first) (hsecond : last ∉ second.map (·.1)) :
    ∃ init lines,
      chunks (first ++ [last]) (second ++ [(last, true)]) = init ++ [.same (lines ++ [last])] := by
  induction hsize : first.length using Nat.strong_induction_on generalizing first second with
  | _ size ih =>
      have hpos : 0 < (block (first ++ [last]) (second ++ [(last, true)])).length :=
        block_pos (List.mem_append_right _ (List.mem_singleton_self _))
          (List.mem_append_right _ (List.mem_singleton_self _))
      obtain ⟨i, j, length, hblock⟩ : ∃ i j length,
          block (first ++ [last]) (second ++ [(last, true)]) = ⟨i, j, length + 1⟩ := by
        obtain ⟨length, hlength⟩ := Nat.exists_eq_succ_of_ne_zero hpos.ne'
        exact ⟨_, _, length, by rw [← Nat.succ_eq_add_one, ← hlength]⟩
      have hfits := block_fits hblock
      have hfits' := congrArg List.length (take_block hblock)
      have hreach := block_reaches_last hfirst hsecond hblock
      simp only [List.length_take, List.length_drop, List.length_map, List.length_append,
        List.length_singleton] at hfits hfits'
      rw [chunks_of_block hblock]
      by_cases hend : i + length = first.length
      · -- the block takes the last lines, and nothing is left after it
        have hend' := hreach.mp hend
        have hnone : (first ++ [last]).drop (i + (length + 1)) = [] :=
          List.drop_eq_nil_of_le (by simp; omega)
        have hnone' : (second ++ [(last, true)]).drop (j + (length + 1)) = [] :=
          List.drop_eq_nil_of_le (by simp; omega)
        have hlast : ((first ++ [last]).drop i).take (length + 1) = first.drop i ++ [last] := by
          rw [List.drop_append_of_le_length (by omega), List.take_of_length_le (by simp; omega)]
        rw [hnone, hnone', chunks_nil, hlast]
        exact ⟨_, _, rfl⟩
      · -- the last lines are left for what follows the block
        have hend' : j + length ≠ second.length := fun h => hend (hreach.mpr h)
        have hrest : (first ++ [last]).drop (i + (length + 1)) =
            first.drop (i + (length + 1)) ++ [last] := List.drop_append_of_le_length (by omega)
        have hrest' : (second ++ [(last, true)]).drop (j + (length + 1)) =
            second.drop (j + (length + 1)) ++ [(last, true)] :=
          List.drop_append_of_le_length (by omega)
        have hfirst' : last ∉ first.drop (i + (length + 1)) :=
          fun hmem => hfirst (List.mem_of_mem_drop hmem)
        have hsecond' : last ∉ (second.drop (j + (length + 1))).map (·.1) := by
          rw [List.map_drop]
          exact fun hmem => hsecond (List.mem_of_mem_drop hmem)
        obtain ⟨init, lines, hchunks⟩ :=
          ih _ (by rw [List.length_drop]; omega) hfirst' hsecond' rfl
        rw [hrest, hrest', hchunks, ← List.cons_append, ← List.append_assoc]
        exact ⟨_, lines, rfl⟩

theorem compare_common_last
    {before after : List α} {last : α} (hbefore : last ∉ before) (hafter : last ∉ after) :
    ∃ init lines,
      compare (before ++ [last]) (after ++ [last]) = init ++ [.same (lines ++ [last])] := by
  -- a line that occurs once counts in a text of any length
  have hmark : ∃ second, mark (after ++ [last]) = second ++ [(last, true)] ∧
      second.map (·.1) = after := by
    refine ⟨_, ?_, map_fst_marked (fun line => (after ++ [last]).length < 200 ||
      (after ++ [last]).count line ≤ (after ++ [last]).length / 100 + 1) after⟩
    simp [mark, List.count_eq_zero.mpr hafter]
  obtain ⟨second, hsecond, hlines⟩ := hmark
  unfold compare
  rw [hsecond]
  exact chunks_common_last hbefore (by rwa [hlines])

theorem flatMap_before_compare (before after : List α) :
    (compare before after).flatMap Chunk.before = before :=
  flatMap_before_chunks _ _

theorem flatMap_after_compare (before after : List α) :
    (compare before after).flatMap Chunk.after = after := by
  unfold compare
  rw [flatMap_after_chunks]
  exact map_fst_marked _ after

/-- No chunk of a comparison is without lines. -/
theorem nil_notMem_chunks (first : List α) (second : List (MarkedLine α)) :
    .change [] [] ∉ chunks first second := by
  fun_induction chunks first second with
  | case1 first second i j hblock hempty => simp
  | case2 first second i j hblock hempty =>
      intro hmem
      rw [List.mem_singleton, Chunk.change.injEq] at hmem
      apply hempty
      simp [← hmem.1, List.map_eq_nil_iff.mp hmem.2.symm]
  | case3 first second i j length hblock hfits ihleft ihright =>
      simp [ihleft, ihright]

/-- The chunks up to the last block end in the same line of both lists, and what is left of the two
lists follows. -/
theorem chunks_last_change (first : List α) (second : List (MarkedLine α)) :
    ∃ init removed added,
      chunks first second =
        init ++ (if removed = [] ∧ added = [] then [] else [.change removed added]) ∧
      (init.flatMap Chunk.before).getLast? = (init.flatMap Chunk.after).getLast? := by
  fun_induction chunks first second with
  | case1 first second i j hblock hempty => exact ⟨[], [], [], rfl, rfl⟩
  | case2 first second i j hblock hempty =>
      refine ⟨[], first, second.map (·.1), ?_, rfl⟩
      rw [if_neg, List.nil_append]
      rintro ⟨rfl, hsecond⟩
      exact hempty (by simp [List.map_eq_nil_iff.mp hsecond])
  | case3 first second i j length hblock hfits ihleft ihright =>
      obtain ⟨init, removed, added, hchunks, hinit⟩ := ihright
      rw [hchunks, ← List.cons_append, ← List.append_assoc]
      refine ⟨_, removed, added, rfl, ?_⟩
      have hne : (first.drop i).take (length + 1) ≠ [] := by
        apply List.ne_nil_of_length_pos
        rw [List.length_take, List.length_drop]
        omega
      simp only [List.flatMap_append, List.flatMap_cons, Chunk.before, Chunk.after,
        List.getLast?_append, hinit, List.getLast?_eq_some_getLast hne, Option.or_some,
        Option.some_or]

theorem compare_last_change (before after : List α) :
    ∃ init removed added,
      compare before after =
        init ++ (if removed = [] ∧ added = [] then [] else [.change removed added]) ∧
      before = init.flatMap Chunk.before ++ removed ∧ after = init.flatMap Chunk.after ++ added ∧
      (init.flatMap Chunk.before).getLast? = (init.flatMap Chunk.after).getLast? := by
  obtain ⟨init, removed, added, hchunks, hinit⟩ := chunks_last_change before (mark after)
  refine ⟨init, removed, added, hchunks, ?_, ?_, hinit⟩
  · have hfirst := flatMap_before_compare before after
    rw [compare, hchunks, List.flatMap_append] at hfirst
    rw [← hfirst]
    split <;> simp_all [Chunk.before]
  · have hsecond := flatMap_after_compare before after
    rw [compare, hchunks, List.flatMap_append] at hsecond
    rw [← hsecond]
    split <;> simp_all [Chunk.after]

omit [DecidableEq α] in
theorem exists_concat_of_notMem
    {lines rest lines' rest' : List α} (hends : lines.getLast? = lines'.getLast?)
    {init : List α} {last : α} (hlast : init ++ [last] = lines ++ rest)
    (hother : last ∉ lines' ++ rest') :
    ∃ earlier, rest = earlier ++ [last] := by
  rcases List.eq_nil_or_concat rest with rfl | ⟨earlier, line, rfl⟩
  · -- the line would end the other lines too
    rw [List.append_nil] at hlast
    rw [← hlast, List.getLast?_concat] at hends
    exact absurd (List.mem_append_left _ (List.mem_of_getLast? hends.symm)) hother
  · rw [List.concat_eq_append, ← List.append_assoc, ← List.concat_eq_append,
      ← List.concat_eq_append] at hlast
    rw [List.last_eq_of_concat_eq hlast, List.concat_eq_append]
    exact ⟨earlier, rfl⟩

/-- A last line of the first list that the second lacks is removed at the very end. -/
theorem compare_last_removed
    {before after : List α} {last : α} (hafter : last ∉ after) :
    ∃ init removed added,
      compare (before ++ [last]) after = init ++ [.change (removed ++ [last]) added] := by
  obtain ⟨init, removed, added, hchunks, hbefore, hsecond, hends⟩ :=
    compare_last_change (before ++ [last]) after
  rw [hsecond] at hafter
  obtain ⟨earlier, rfl⟩ := exists_concat_of_notMem hends hbefore hafter
  exact ⟨init, earlier, added, by rw [hchunks, if_neg (by simp)]⟩

/-- A last line of the second list that the first lacks is added at the very end. -/
theorem compare_last_added
    {before after : List α} {last : α} (hbefore : last ∉ before) :
    ∃ init removed added,
      compare before (after ++ [last]) = init ++ [.change removed (added ++ [last])] := by
  obtain ⟨init, removed, added, hchunks, hfirst, hafter, hends⟩ :=
    compare_last_change before (after ++ [last])
  rw [hfirst] at hbefore
  obtain ⟨earlier, rfl⟩ := exists_concat_of_notMem hends.symm hafter hbefore
  exact ⟨init, removed, earlier, by rw [hchunks, if_neg (by simp)]⟩

/-- If both lists end in a line that the other lacks, the last change removes one and adds lines
after it. -/
theorem compare_last_replaced
    {before after : List α} {last last' : α} (hbefore : last' ∉ before ++ [last])
    (hafter : last ∉ after ++ [last']) :
    ∃ init removed next added, compare (before ++ [last]) (after ++ [last']) =
      init ++ [.change (removed ++ [last]) (next :: added)] := by
  obtain ⟨init, removed, added, hchunks⟩ := @compare_last_removed α _ before _ _ hafter
  obtain ⟨init', removed', added', hchunks'⟩ := @compare_last_added α _ _ after _ hbefore
  obtain ⟨-, hlast⟩ := List.append_inj' (hchunks.symm.trans hchunks') rfl
  rw [List.singleton_inj, Chunk.change.injEq] at hlast
  cases added with
  | nil => exact absurd hlast.2.symm (List.append_ne_nil_of_right_ne_nil _ (List.cons_ne_nil _ _))
  | cons next added => exact ⟨init, removed, next, added, hchunks⟩

end RubyLint.Diff
