import RubyLint.Diff
import Mathlib.Tactic

/-!
# Hunks as a patch

A patch hunk is a list of kept, removed and added lines, with the numbers of lines that stand before
it in both texts.  Applying hunks copies the lines up to each hunk, checks that the hunk stands
where both of its numbers say and that the lines it keeps or removes are there, and writes the lines
it keeps or adds instead.  The hunks of any comparison apply to the first text and give the second.
-/

namespace RubyLint

namespace Patch

variable {α β : Type}

/-- A line of a hunk. -/
inductive Line (α : Type) where
  | kept (text : α)
  | removed (text : α)
  | added (text : α)
  deriving DecidableEq, Repr

namespace Line

def before : Line α → List α
  | .kept text => [text]
  | .removed text => [text]
  | .added _ => []

def after : Line α → List α
  | .kept text => [text]
  | .removed _ => []
  | .added text => [text]

def map (f : α → β) : Line α → Line β
  | .kept text => .kept (f text)
  | .removed text => .removed (f text)
  | .added text => .added (f text)

theorem before_map (f : α → β) (line : Line α) : (line.map f).before = line.before.map f := by
  cases line <;> rfl

theorem after_map (f : α → β) (line : Line α) : (line.map f).after = line.after.map f := by
  cases line <;> rfl

theorem flatMap_before_map (f : α → β) (lines : List (Line α)) :
    (lines.map (Line.map f)).flatMap before = (lines.flatMap before).map f := by
  simp [List.flatMap_map, List.map_flatMap, before_map]

theorem flatMap_after_map (f : α → β) (lines : List (Line α)) :
    (lines.map (Line.map f)).flatMap after = (lines.flatMap after).map f := by
  simp [List.flatMap_map, List.map_flatMap, after_map]

end Line

/-- A group of lines with the number of lines before it in both texts. -/
structure Hunk (α : Type) where
  beforeStart : Nat
  afterStart : Nat
  body : List (Line α)
  deriving DecidableEq, Repr

namespace Hunk

def before (hunk : Hunk α) : List α := hunk.body.flatMap Line.before

def after (hunk : Hunk α) : List α := hunk.body.flatMap Line.after

def map (f : α → β) (hunk : Hunk α) : Hunk β :=
  { hunk with body := hunk.body.map (Line.map f) }

theorem before_map (f : α → β) (hunk : Hunk α) : (hunk.map f).before = hunk.before.map f :=
  Line.flatMap_before_map f hunk.body

theorem after_map (f : α → β) (hunk : Hunk α) : (hunk.map f).after = hunk.after.map f :=
  Line.flatMap_after_map f hunk.body

end Hunk

/-- Applies hunks to the lines that follow the first `i` ones of a text, where `j` lines of the new
text are written already. -/
def applyFrom [DecidableEq α] (i j : Nat) : List (Hunk α) → List α → Option (List α)
  | [], lines => some lines
  | hunk :: rest, lines =>
    let gap := hunk.beforeStart - i
    if i ≤ hunk.beforeStart ∧ hunk.afterStart = j + gap ∧ gap ≤ lines.length ∧
        hunk.before <+: lines.drop gap then
      (applyFrom (hunk.beforeStart + hunk.before.length) (hunk.afterStart + hunk.after.length) rest
        (lines.drop (gap + hunk.before.length))).map (lines.take gap ++ hunk.after ++ ·)
    else none

section Apply

variable [DecidableEq α]

theorem applyFrom_cons_eq_some
    {i j : Nat} {hunk : Hunk α} {rest : List (Hunk α)} {lines out : List α} :
    applyFrom i j (hunk :: rest) lines = some out ↔
      ∃ gap before after, hunk.beforeStart = i + gap.length ∧ hunk.afterStart = j + gap.length ∧
        lines = gap ++ (hunk.before ++ before) ∧ out = gap ++ (hunk.after ++ after) ∧
        applyFrom (hunk.beforeStart + hunk.before.length)
          (hunk.afterStart + hunk.after.length) rest before = some after := by
  constructor
  · intro happly
    rw [applyFrom] at happly
    split at happly
    next hfits =>
      obtain ⟨hstart, hstart', hgap, before, hbefore⟩ := hfits
      obtain ⟨after, hafter, rfl⟩ := Option.map_eq_some_iff.mp happly
      have hlength : (lines.take (hunk.beforeStart - i)).length = hunk.beforeStart - i :=
        List.length_take_of_le hgap
      rw [← List.drop_drop, ← hbefore, List.drop_left] at hafter
      refine ⟨lines.take (hunk.beforeStart - i), before, after, by omega, by omega, ?_,
        List.append_assoc .., hafter⟩
      rw [hbefore, List.take_append_drop]
    next => cases happly
  · rintro ⟨gap, before, after, hstart, hstart', rfl, rfl, hrest⟩
    have hgap : hunk.beforeStart - i = gap.length := by omega
    rw [applyFrom]
    simp only [hgap, ← List.drop_drop, List.drop_left, List.take_left, hrest, Option.map_some,
      List.append_assoc]
    rw [if_pos]
    refine ⟨by omega, hstart', ?_, List.prefix_append ..⟩
    rw [List.length_append]
    omega

/-- Hunks that start later may be reached over lines that both texts have. -/
theorem applyFrom_skip
    {i j : Nat} {hunks : List (Hunk α)} {gap before after : List α}
    (happly : applyFrom (i + gap.length) (j + gap.length) hunks before = some after) :
    applyFrom i j hunks (gap ++ before) = some (gap ++ after) := by
  cases hunks with
  | nil =>
      rw [applyFrom, Option.some.injEq] at happly ⊢
      rw [happly]
  | cons hunk rest =>
      obtain ⟨gap', before', after', hstart, hstart', rfl, rfl, hrest⟩ :=
        applyFrom_cons_eq_some.mp happly
      refine applyFrom_cons_eq_some.mpr
        ⟨gap ++ gap', before', after', ?_, ?_, (List.append_assoc ..).symm,
          (List.append_assoc ..).symm, hrest⟩
      · rw [List.length_append]
        omega
      · rw [List.length_append]
        omega

theorem applyFrom_append
    {i j : Nat} {hunks : List (Hunk α)} {before after : List α}
    (happly : applyFrom i j hunks before = some after) (more : List α) :
    applyFrom i j hunks (before ++ more) = some (after ++ more) := by
  induction hunks generalizing i j before after with
  | nil =>
      rw [applyFrom, Option.some.injEq] at happly ⊢
      rw [happly]
  | cons hunk rest ih =>
      obtain ⟨gap, before', after', hstart, hstart', rfl, rfl, hrest⟩ :=
        applyFrom_cons_eq_some.mp happly
      exact applyFrom_cons_eq_some.mpr
        ⟨gap, before' ++ more, after' ++ more, hstart, hstart', by simp, by simp, ih hrest⟩

theorem applyFrom_map [DecidableEq β]
    {i j : Nat} {hunks : List (Hunk α)} {before after : List α}
    (happly : applyFrom i j hunks before = some after) (f : α → β) :
    applyFrom i j (hunks.map (Hunk.map f)) (before.map f) = some (after.map f) := by
  induction hunks generalizing i j before after with
  | nil =>
      rw [applyFrom, Option.some.injEq] at happly
      rw [happly, List.map_nil, applyFrom]
  | cons hunk rest ih =>
      obtain ⟨gap, before', after', hstart, hstart', rfl, rfl, hrest⟩ :=
        applyFrom_cons_eq_some.mp happly
      refine applyFrom_cons_eq_some.mpr ⟨gap.map f, before'.map f, after'.map f, ?_, ?_, ?_, ?_, ?_⟩
      · rw [List.length_map]
        exact hstart
      · rw [List.length_map]
        exact hstart'
      · rw [Hunk.before_map, List.map_append, List.map_append]
      · rw [Hunk.after_map, List.map_append, List.map_append]
      · rw [Hunk.before_map, Hunk.after_map, List.length_map, List.length_map]
        exact ih hrest

end Apply

end Patch

namespace Diff

variable {α : Type} [DecidableEq α]

/-- The lines that a chunk shows. -/
def Chunk.patchLines : Chunk α → List (Patch.Line α)
  | .same lines => lines.map .kept
  | .change removed added => removed.map .removed ++ added.map .added

def Hunk.patch (hunk : Hunk α) : Patch.Hunk α :=
  ⟨hunk.beforeStart, hunk.afterStart, hunk.chunks.flatMap Chunk.patchLines⟩

/-- Hunks lead from one list of lines to another if they apply to the first and give the second. -/
def Leads (i j : Nat) (hunks : List (Hunk α)) (before after : List α) : Prop :=
  Patch.applyFrom i j (hunks.map Hunk.patch) before = some after

omit [DecidableEq α] in
theorem Hunk.before_patch (hunk : Hunk α) : hunk.patch.before = hunk.before := by
  unfold Hunk.patch Hunk.before Patch.Hunk.before
  rw [List.flatMap_assoc]
  congr 1
  funext chunk
  cases chunk <;>
    simp [Chunk.patchLines, Chunk.before, Patch.Line.before, List.flatMap_map,
      List.flatMap_append]

omit [DecidableEq α] in
theorem Hunk.after_patch (hunk : Hunk α) : hunk.patch.after = hunk.after := by
  unfold Hunk.patch Hunk.after Patch.Hunk.after
  rw [List.flatMap_assoc]
  congr 1
  funext chunk
  cases chunk <;>
    simp [Chunk.patchLines, Chunk.after, Patch.Line.after, List.flatMap_map,
      List.flatMap_append]

omit [DecidableEq α] in
/-- A hunk without a change covers the same lines in both texts. -/
theorem Hunk.before_eq_after
    {hunk : Hunk α} (hunchanged : hunk.chunks.any Chunk.isChange = false) :
    hunk.before = hunk.after := by
  unfold Hunk.before Hunk.after
  apply List.flatMap_congr
  intro chunk hchunk
  cases chunk with
  | same lines => rfl
  | change removed added =>
      rw [List.any_eq_false] at hunchanged
      exact absurd rfl (hunchanged _ hchunk)

theorem Leads.ifChanged
    {hunk : Hunk α} {rest : List (Hunk α)} {before after : List α}
    (hrest : Leads (hunk.beforeStart + hunk.before.length) (hunk.afterStart + hunk.after.length)
      rest before after) :
    Leads hunk.beforeStart hunk.afterStart (hunk.ifChanged ++ rest) (hunk.before ++ before)
      (hunk.after ++ after) := by
  unfold Hunk.ifChanged
  split
  next =>
    refine Patch.applyFrom_cons_eq_some.mpr ⟨[], before, after, rfl, rfl, ?_, ?_, ?_⟩
    · rw [Hunk.before_patch, List.nil_append]
    · rw [Hunk.after_patch, List.nil_append]
    · rw [Hunk.before_patch, Hunk.after_patch]
      exact hrest
  next hunchanged =>
    rw [Bool.not_eq_true] at hunchanged
    rw [← Hunk.before_eq_after hunchanged] at hrest ⊢
    exact Patch.applyFrom_skip hrest

omit [DecidableEq α] in
@[simp] theorem Hunk.beforeStart_add (hunk : Hunk α) (chunk : Chunk α) :
    (hunk.add chunk).beforeStart = hunk.beforeStart := rfl

omit [DecidableEq α] in
@[simp] theorem Hunk.afterStart_add (hunk : Hunk α) (chunk : Chunk α) :
    (hunk.add chunk).afterStart = hunk.afterStart := rfl

omit [DecidableEq α] in
@[simp] theorem Hunk.before_add (hunk : Hunk α) (chunk : Chunk α) :
    (hunk.add chunk).before = hunk.before ++ chunk.before := by
  simp [Hunk.before, Hunk.add]

omit [DecidableEq α] in
@[simp] theorem Hunk.after_add (hunk : Hunk α) (chunk : Chunk α) :
    (hunk.add chunk).after = hunk.after ++ chunk.after := by
  simp [Hunk.after, Hunk.add]

/-- A hunk may end within equal lines, and the next one start some lines later. -/
theorem Leads.across_same
    {hunk : Hunk α} {shown gap : List α} {rest : List (Hunk α)} {before after : List α}
    (hrest : Leads (hunk.beforeStart + (hunk.before ++ shown).length + gap.length)
      (hunk.afterStart + (hunk.after ++ shown).length + gap.length) rest before after) :
    Leads hunk.beforeStart hunk.afterStart ((hunk.add (.same shown)).ifChanged ++ rest)
      (hunk.before ++ shown ++ (gap ++ before)) (hunk.after ++ shown ++ (gap ++ after)) := by
  have hend := @Leads.ifChanged α _ (hunk.add (.same shown)) rest (gap ++ before) (gap ++ after)
  simp only [Hunk.before_add, Hunk.after_add, Hunk.beforeStart_add, Hunk.afterStart_add,
    Chunk.before, Chunk.after] at hend
  exact hend (Patch.applyFrom_skip hrest)

omit [DecidableEq α] in
theorem append_split_context
    {lines : List α} (hlong : 2 * contextLines < lines.length) (covered more : List α) :
    covered ++ (lines ++ more) = covered ++ lines.take contextLines ++
      ((lines.drop contextLines).take (lines.length - 2 * contextLines) ++
        (lines.drop (lines.length - contextLines) ++ more)) := by
  have hdrop : lines.drop (lines.length - contextLines) =
      (lines.drop contextLines).drop (lines.length - 2 * contextLines) := by
    rw [List.drop_drop]
    congr 1
    omega
  have hlines : lines = lines.take contextLines ++
      ((lines.drop contextLines).take (lines.length - 2 * contextLines) ++
        lines.drop (lines.length - contextLines)) := by
    rw [hdrop, List.take_append_drop, List.take_append_drop]
  conv_lhs => rw [hlines]
  simp only [List.append_assoc]

/-- Whatever hunk is begun, it and the hunks after it lead from the lines it covers and those of
the chunks to come in the first text to the same in the second. -/
theorem leads_hunksFrom
    {hunk : Hunk α} {i j : Nat} (chunks : List (Chunk α))
    (hi : i = hunk.beforeStart + hunk.before.length)
    (hj : j = hunk.afterStart + hunk.after.length) :
    Leads hunk.beforeStart hunk.afterStart (hunksFrom hunk i j chunks)
      (hunk.before ++ chunks.flatMap Chunk.before) (hunk.after ++ chunks.flatMap Chunk.after) := by
  fun_induction hunksFrom hunk i j chunks with
  | case1 hunk i j =>
      have hlast : Leads hunk.beforeStart hunk.afterStart (hunk.ifChanged ++ [])
          (hunk.before ++ []) (hunk.after ++ []) := Leads.ifChanged rfl
      rwa [List.append_nil] at hlast
  | case2 hunk i j lines =>
      have hlast := @Leads.ifChanged α _ (hunk.add (.same (lines.take contextLines))) []
        (lines.drop contextLines) (lines.drop contextLines) rfl
      simpa [Chunk.before, Chunk.after] using hlast
  | case3 hunk i j rest removed added hlast i' j' ih =>
      have hrest := ih (by simp; omega) (by simp; omega)
      simpa using hrest
  | case4 hunk i j rest lines hlong hlast i' j' ih =>
      have hi' : i' = i + lines.length := rfl
      have hj' : j' = j + lines.length := rfl
      have hrest := ih (by simp [Hunk.before, Chunk.before]; omega)
        (by simp [Hunk.after, Chunk.after]; omega)
      rw [List.flatMap_cons, List.flatMap_cons, Chunk.before, Chunk.after,
        append_split_context hlong, append_split_context hlong]
      apply Leads.across_same
      convert hrest using 1
      · simp
        omega
      · simp
        omega
      · simp [Hunk.before, Chunk.before]
      · simp [Hunk.after, Chunk.after]
  | case5 hunk i j rest lines hshort hlast i' j' ih =>
      have hrest := ih (by simp; omega) (by simp; omega)
      simpa using hrest

/-- The hunks of any chunks lead from what these take of the first text to what they take of the
second. -/
theorem leads_hunks (chunks : List (Chunk α)) :
    Leads 0 0 (hunks chunks) (chunks.flatMap Chunk.before) (chunks.flatMap Chunk.after) := by
  unfold hunks
  split
  next lines rest =>
    -- the first hunk starts a few lines before the end of the first chunk
    set hidden := lines.length - contextLines with hhidden
    have hlength : (lines.take hidden).length = hidden := by
      rw [List.length_take]
      omega
    have hrest := @leads_hunksFrom α _ ⟨hidden, hidden, [.same (lines.drop hidden)]⟩ lines.length
      lines.length rest (by simp [Hunk.before, Chunk.before]; omega)
      (by simp [Hunk.after, Chunk.after]; omega)
    have hskip := @Patch.applyFrom_skip α _ 0 0 _ (lines.take hidden) _ _
      (by rw [hlength, Nat.zero_add]; exact hrest)
    simpa [Leads, Hunk.before, Hunk.after, Chunk.before, Chunk.after, ← List.append_assoc]
      using hskip
  next =>
    exact @leads_hunksFrom α _ ⟨0, 0, []⟩ 0 0 chunks rfl rfl

/-! ## What hunks show -/

omit [DecidableEq α] in
theorem Hunk.mem_ifChanged {hunk shown : Hunk α} :
    shown ∈ hunk.ifChanged ↔ shown = hunk ∧ hunk.chunks.any Chunk.isChange = true := by
  unfold Hunk.ifChanged
  split
  next hchanged => simp [hchanged]
  next hunchanged => simp [hunchanged]

omit [DecidableEq α] in
theorem Hunk.flatMap_ifChanged_sublist (hunk : Hunk α) :
    (hunk.ifChanged.flatMap (·.patch.body)).Sublist hunk.patch.body := by
  unfold Hunk.ifChanged
  split <;> simp

omit [DecidableEq α] in
@[simp] theorem Hunk.body_patch_add (hunk : Hunk α) (chunk : Chunk α) :
    (hunk.add chunk).patch.body = hunk.patch.body ++ chunk.patchLines := by
  simp [Hunk.patch, Hunk.add]

omit [DecidableEq α] in
theorem flatMap_hunksFrom_sublist (hunk : Hunk α) (i j : Nat) (chunks : List (Chunk α)) :
    ((hunksFrom hunk i j chunks).flatMap (·.patch.body)).Sublist
      (hunk.patch.body ++ chunks.flatMap Chunk.patchLines) := by
  fun_induction hunksFrom hunk i j chunks with
  | case1 hunk i j =>
      rw [List.flatMap_nil, List.append_nil]
      exact hunk.flatMap_ifChanged_sublist
  | case2 hunk i j lines =>
      refine (Hunk.flatMap_ifChanged_sublist _).trans ?_
      simpa [Chunk.patchLines] using (List.take_sublist contextLines lines).map Patch.Line.kept
  | case3 hunk i j rest removed added hlast i' j' ih => simpa using ih
  | case4 hunk i j rest lines hlong hlast i' j' ih =>
      -- the two hunks show both ends of the equal lines between them
      have hends : (lines.take contextLines ++ lines.drop (lines.length - contextLines)).Sublist
          lines := by
        have hsplit := append_split_context hlong [] []
        simp only [List.nil_append, List.append_nil] at hsplit
        conv_rhs => rw [hsplit]
        exact (List.sublist_append_right _ _).append_left _
      have hfirst := (hunk.add (.same (lines.take contextLines))).flatMap_ifChanged_sublist
      rw [Hunk.body_patch_add] at hfirst
      rw [List.flatMap_append]
      refine (hfirst.append ih).trans ?_
      have hmiddle := ((hends.map Patch.Line.kept).append_left hunk.patch.body).append_right
        (rest.flatMap Chunk.patchLines)
      simpa [Hunk.patch, Chunk.patchLines] using hmiddle
  | case5 hunk i j rest lines hshort hlast i' j' ih => simpa using ih

omit [DecidableEq α] in
/-- The lines shown are lines of the chunks, in their order. -/
theorem flatMap_hunks_sublist (chunks : List (Chunk α)) :
    ((hunks chunks).flatMap (·.patch.body)).Sublist (chunks.flatMap Chunk.patchLines) := by
  unfold hunks
  split
  next lines rest =>
    refine (flatMap_hunksFrom_sublist _ _ _ _).trans ?_
    rw [List.flatMap_cons]
    refine List.Sublist.append_right ?_ _
    simpa [Hunk.patch, Chunk.patchLines] using
      (List.drop_sublist (lines.length - contextLines) lines).map Patch.Line.kept
  next => exact flatMap_hunksFrom_sublist ⟨0, 0, []⟩ 0 0 chunks

omit [DecidableEq α] in
theorem Hunk.body_patch_ne_nil
    {hunk : Hunk α} (hchanged : hunk.chunks.any Chunk.isChange = true)
    (hlines : .change [] [] ∉ hunk.chunks) : hunk.patch.body ≠ [] := by
  obtain ⟨chunk, hchunk, hchange⟩ := List.any_eq_true.mp hchanged
  cases chunk with
  | same lines => cases hchange
  | change removed added =>
      intro hnil
      have hnone := List.flatMap_eq_nil_iff.mp hnil _ hchunk
      simp only [Chunk.patchLines, List.append_eq_nil_iff, List.map_eq_nil_iff] at hnone
      rw [hnone.1, hnone.2] at hchunk
      exact hlines hchunk

omit [DecidableEq α] in
theorem body_patch_ne_nil_of_mem_hunksFrom
    {hunk : Hunk α} {i j : Nat} {chunks : List (Chunk α)}
    (hhunk : .change [] [] ∉ hunk.chunks) (hchunks : .change [] [] ∉ chunks)
    {shown : Hunk α} (hshown : shown ∈ hunksFrom hunk i j chunks) : shown.patch.body ≠ [] := by
  fun_induction hunksFrom hunk i j chunks with
  | case1 hunk i j =>
      obtain ⟨rfl, hchanged⟩ := Hunk.mem_ifChanged.mp hshown
      exact Hunk.body_patch_ne_nil hchanged hhunk
  | case2 hunk i j lines =>
      obtain ⟨rfl, hchanged⟩ := Hunk.mem_ifChanged.mp hshown
      exact Hunk.body_patch_ne_nil hchanged (by simpa [Hunk.add] using hhunk)
  | case3 hunk i j rest removed added hlast i' j' ih =>
      rw [List.mem_cons, not_or] at hchunks
      refine ih ?_ hchunks.2 hshown
      rw [Hunk.add, List.mem_append, List.mem_singleton, not_or]
      exact ⟨hhunk, hchunks.1⟩
  | case4 hunk i j rest lines hlong hlast i' j' ih =>
      rw [List.mem_cons, not_or] at hchunks
      rcases List.mem_append.mp hshown with hshown | hshown
      · obtain ⟨rfl, hchanged⟩ := Hunk.mem_ifChanged.mp hshown
        exact Hunk.body_patch_ne_nil hchanged (by simpa [Hunk.add] using hhunk)
      · exact ih (by simp) hchunks.2 hshown
  | case5 hunk i j rest lines hshort hlast i' j' ih =>
      rw [List.mem_cons, not_or] at hchunks
      exact ih (by simpa [Hunk.add] using hhunk) hchunks.2 hshown

omit [DecidableEq α] in
/-- Every hunk shows a line, as long as every change has one. -/
theorem body_patch_ne_nil_of_mem_hunks
    {chunks : List (Chunk α)} (hchunks : .change [] [] ∉ chunks)
    {shown : Hunk α} (hshown : shown ∈ hunks chunks) : shown.patch.body ≠ [] := by
  unfold hunks at hshown
  split at hshown
  next lines rest =>
    rw [List.mem_cons, not_or] at hchunks
    exact body_patch_ne_nil_of_mem_hunksFrom (by simp) hchunks.2 hshown
  next => exact body_patch_ne_nil_of_mem_hunksFrom List.not_mem_nil hchunks hshown

omit [DecidableEq α] in
theorem hunksFrom_concat_change
    (hunk : Hunk α) (i j : Nat) (chunks : List (Chunk α)) (removed added : List α) :
    ∃ shown start start' earlier, hunksFrom hunk i j (chunks ++ [.change removed added]) =
      shown ++ [⟨start, start', earlier ++ [.change removed added]⟩] := by
  induction chunks generalizing hunk i j with
  | nil =>
      refine ⟨[], hunk.beforeStart, hunk.afterStart, hunk.chunks, ?_⟩
      simp [hunksFrom, Hunk.ifChanged, Hunk.add, Chunk.isChange]
  | cons chunk rest ih =>
      cases chunk with
      | change removed' added' => exact ih (hunk.add (.change removed' added')) _ _
      | same lines =>
          rw [List.cons_append, hunksFrom]
          · split
            · obtain ⟨shown, start, start', earlier, hrest⟩ := ih
                ⟨i + lines.length - contextLines, j + lines.length - contextLines,
                  [.same (lines.drop (lines.length - contextLines))]⟩
                (i + lines.length) (j + lines.length)
              refine ⟨(hunk.add (.same (lines.take contextLines))).ifChanged ++ shown, start,
                start', earlier, ?_⟩
              rw [List.append_assoc, ← hrest]
              rfl
            · exact ih _ _ _
          · simp

omit [DecidableEq α] in
/-- If the last chunk is a change, it ends the last hunk. -/
theorem hunks_concat_change (chunks : List (Chunk α)) (removed added : List α) :
    ∃ shown start start' earlier, hunks (chunks ++ [.change removed added]) =
      shown ++ [⟨start, start', earlier ++ [.change removed added]⟩] := by
  cases chunks with
  | nil => exact hunksFrom_concat_change ⟨0, 0, []⟩ 0 0 [] removed added
  | cons chunk rest =>
      cases chunk with
      | change removed' added' =>
          exact hunksFrom_concat_change ⟨0, 0, []⟩ 0 0 (_ :: rest) removed added
      | same lines => exact hunksFrom_concat_change _ _ _ rest removed added

omit [DecidableEq α] in
theorem hunks_same (lines : List α) : hunks [.same lines] = [] := by
  simp [hunks, hunksFrom, Hunk.ifChanged, Chunk.isChange]

end Diff

end RubyLint
