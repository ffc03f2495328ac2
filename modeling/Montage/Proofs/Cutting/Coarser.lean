import Montage.Proofs.Cutting.Merged
import Montage.Proofs.Number.Monotone

/-!
# More padding, or a larger gap

With more padding or a larger gap, merging never parts segments that were together: each clip then holds a
row of the clips from before (`MergeRule.merge_coarsens`).

Two runs of the merge are followed side by side. The clip that is open in the run with the larger values
holds at its end the one that is open in the other run, and ends no earlier, so whatever joins the one
joins the other.
-/

namespace Montage.Cutting

open Binary64

/-! ### Groups -/

section Groups

variable {α : Type} {coarse : List (List α)} {rows : List (List (List α))}

/-- A group of a row of groups, in order. -/
structure IsRow (row : List (List α)) (group : List α) : Prop where
  ne_nil : row ≠ []
  eq_flatten : group = row.flatten

/-- The number of its group for each item in order, counted from a first number. -/
def groupNumbers (first : Nat) (groups : List (List α)) : List Nat :=
  (groups.zipIdx first).flatMap fun (group, number) => List.replicate group.length number

/-- The items at these two places, in the order of all groups, are in one group. -/
def ShareGroup (groups : List (List α)) (i j : Nat) : Prop :=
  ∃ number, (groupNumbers 0 groups)[i]? = some number ∧ (groupNumbers 0 groups)[j]? = some number

/-- Groups of rows of finer groups: what shares a group there shares one here, and there are no more
groups here than there. -/
structure Coarsens (coarse fine : List (List α)) : Prop where
  rows : ∃ rows, rows.flatten = fine ∧ List.Forall₂ IsRow rows coarse
  shared : ∀ i j, ShareGroup fine i j → ShareGroup coarse i j
  length_le : coarse.length ≤ fine.length

theorem length_groupNumbers (first : Nat) (groups : List (List α)) :
    (groupNumbers first groups).length = groups.flatten.length := by
  induction groups generalizing first with
  | nil => rfl
  | cons group groups ih =>
    have hrest := ih (first + 1)
    rw [groupNumbers] at hrest ⊢
    rw [List.zipIdx_cons, List.flatMap_cons, List.flatten_cons, List.length_append, List.length_append,
      List.length_replicate, hrest]

theorem groupNumbers_append (first : Nat) (front back : List (List α)) :
    groupNumbers first (front ++ back) =
      groupNumbers first front ++ groupNumbers (first + front.length) back := by
  rw [groupNumbers, groupNumbers, groupNumbers, List.zipIdx_append, List.flatMap_append]

theorem mem_groupNumbers {first number : Nat} {groups : List (List α)}
    (h : number ∈ groupNumbers first groups) :
    first ≤ number ∧ number < first + groups.length := by
  obtain ⟨⟨group, k⟩, hmem, hnumber⟩ := List.mem_flatMap.1 h
  obtain rfl := List.eq_of_mem_replicate hnumber
  have hbounds := List.mem_zipIdx hmem
  omega

/-- The number of a coarse group depends on that of the fine one alone. -/
theorem exists_groupNumbers_eq_map (h : List.Forall₂ IsRow rows coarse) (first start : Nat) :
    ∃ f : Nat → Nat, groupNumbers start coarse = (groupNumbers first rows.flatten).map f := by
  induction h generalizing first start with
  | nil => exact ⟨id, rfl⟩
  | @cons row group rows coarse hrow _ ih =>
    obtain ⟨f, hf⟩ := ih (first + row.length) (start + 1)
    -- All of the first row goes to the first group, and the rest as the groups after it.
    refine ⟨fun number => if number < first + row.length then start else f number, ?_⟩
    rw [List.flatten_cons, groupNumbers_append, List.map_append, ← List.singleton_append,
      groupNumbers_append]
    congr 1
    · have hsame : ∀ number ∈ groupNumbers first row,
          (if number < first + row.length then start else f number) = start := by
        intro number hnumber
        exact if_pos (mem_groupNumbers hnumber).2
      rw [List.map_congr_left hsame, List.map_const', length_groupNumbers, ← hrow.eq_flatten]
      exact List.append_nil _
    · have hsame : ∀ number ∈ groupNumbers (first + row.length) rows.flatten,
          (if number < first + row.length then start else f number) = f number := by
        intro number hnumber
        exact if_neg (Nat.not_lt.2 (mem_groupNumbers hnumber).1)
      rw [List.map_congr_left hsame]
      exact hf

theorem length_le_of_rows (h : List.Forall₂ IsRow rows coarse) : coarse.length ≤ rows.flatten.length := by
  induction h with
  | nil => exact Nat.le_refl 0
  | cons hrow _ ih =>
    have hpos := List.length_pos_iff.2 hrow.ne_nil
    rw [List.length_cons, List.flatten_cons, List.length_append]
    omega

theorem coarsens_of_rows (h : List.Forall₂ IsRow rows coarse) : Coarsens coarse rows.flatten := by
  refine ⟨⟨rows, rfl, h⟩, ?_, length_le_of_rows h⟩
  intro i j hshare
  obtain ⟨number, hi, hj⟩ := hshare
  obtain ⟨f, hf⟩ := exists_groupNumbers_eq_map h 0 0
  refine ⟨f number, ?_, ?_⟩
  · rw [hf, List.getElem?_map, hi]
    rfl
  · rw [hf, List.getElem?_map, hj]
    rfl

end Groups

/-- The segments of each clip. -/
def grouping (cuts : List Cut) : List (List Segment) := cuts.map (·.segments)

theorem grouping_renumber (cuts : List Cut) : grouping (renumber cuts) = grouping cuts := by
  conv_rhs => rw [grouping, ← List.zipIdx_map_fst 1 cuts, List.map_map]
  rw [grouping, renumber, List.map_map]
  rfl

/-! ### Two runs side by side -/

namespace MergeRule

variable {rule rule' : MergeRule} {c d : Cut} {s t : Segment} {segments : List Segment}
  {front : List (List Segment)}

/-- One rule has at least the padding and the gap of another one. -/
structure AtMost (rule rule' : MergeRule) : Prop where
  padding : rule.padding.le rule'.padding = true
  gap : rule.gap.le rule'.gap = true

/-- What joins a clip joins one that ends no earlier, with a larger gap, and so does what starts no
later. -/
theorem joins_mono (hgap : rule.gap.le rule'.gap = true) (hs : s.start.isFinite = true)
    (ht : t.start.isFinite = true) (hstart : t.start.le s.start = true)
    (hfinish : c.finish.le d.finish = true) (h : rule.joins c s = true) : rule'.joins d t = true := by
  have hnear : (t.start - d.finish).le (t.start - c.finish) = true := sub_le_sub_left ht hfinish
  have hearly : (t.start - c.finish).le (s.start - c.finish) = true :=
    sub_le_sub_right ht hs (isNaN_of_le hfinish).1 hstart
  exact le_trans (le_trans hnear hearly) (le_trans h hgap)

theorem paddedEnd_mono (hle : rule.AtMost rule') (hs : s.IsFinite) :
    (rule.paddedEnd s).le (rule'.paddedEnd s) = true :=
  add_le_add_left hs.finish hle.padding

/-- The clip that is open with the larger values holds some groups that are closed with the smaller ones,
and behind them the clip that is open there. -/
structure IsAhead (front : List (List Segment)) (c d : Cut) : Prop where
  isRow : IsRow (front ++ [c.segments]) d.segments
  finish_le : c.finish.le d.finish = true

namespace IsAhead

/-- A segment joins both clips. -/
theorem extend (h : IsAhead front c d) (hle : rule.AtMost rule') (hs : s.IsFinite) :
    IsAhead front (rule.extend c s) (rule'.extend d s) := by
  refine ⟨⟨by simp, ?_⟩, ?_⟩
  · simp [MergeRule.extend, h.isRow.eq_flatten]
  · have hd : d.finish.isNaN = false := (isNaN_of_le h.finish_le).2
    exact max_le (le_max_left h.finish_le) (le_max_right hd (paddedEnd_mono hle hs))

/-- A segment joins the clip that ends later, and opens one in the other run. -/
theorem openOne (h : IsAhead front c d) (hle : rule.AtMost rule') (hs : s.IsFinite) :
    IsAhead (front ++ [c.segments]) (rule.single s) (rule'.extend d s) := by
  refine ⟨⟨by simp, ?_⟩, ?_⟩
  · simp [MergeRule.extend, MergeRule.single, h.isRow.eq_flatten]
  · exact le_max_right (isNaN_of_le h.finish_le).2 (paddedEnd_mono hle hs)

/-- A segment opens a clip in both runs. -/
theorem openBoth (hle : rule.AtMost rule') (hs : s.IsFinite) :
    IsAhead [] (rule.single s) (rule'.single s) :=
  ⟨⟨List.cons_ne_nil _ _, rfl⟩, paddedEnd_mono hle hs⟩

end IsAhead

theorem mergeFrom_rows (hle : rule.AtMost rule') (hsegments : ∀ s ∈ segments, s.IsFinite)
    (h : IsAhead front c d) : ∃ rows, rows.flatten = front ++ grouping (rule.mergeFrom c segments) ∧
      List.Forall₂ IsRow rows (grouping (rule'.mergeFrom d segments)) := by
  induction segments generalizing front c d with
  | nil => exact ⟨[front ++ [c.segments]], List.flatten_singleton, .cons h.isRow .nil⟩
  | cons s rest ih =>
    obtain ⟨hs, hrest⟩ := List.forall_mem_cons.1 hsegments
    have hself : s.start.le s.start = true := le_refl (isNaN_of_isFinite hs.start)
    rw [mergeFrom, mergeFrom]
    by_cases hjoins : rule.joins c s = true
    · have hjoins' : rule'.joins d s = true :=
        joins_mono hle.gap hs.start hs.start hself h.finish_le hjoins
      rw [if_pos hjoins, if_pos hjoins']
      exact ih hrest (h.extend hle hs)
    · rw [if_neg hjoins]
      by_cases hjoins' : rule'.joins d s = true
      · obtain ⟨rows, hflatten, hrows⟩ := ih hrest (h.openOne hle hs)
        rw [if_pos hjoins']
        refine ⟨rows, ?_, hrows⟩
        rw [hflatten, List.append_assoc]
        rfl
      · obtain ⟨rows, hflatten, hrows⟩ := ih hrest (IsAhead.openBoth hle hs)
        rw [if_neg hjoins']
        refine ⟨(front ++ [c.segments]) :: rows, ?_, .cons h.isRow hrows⟩
        rw [List.flatten_cons, hflatten, List.nil_append, List.append_assoc]
        rfl

/-- For finite times, finite paddings and finite gaps of any sign, a merge with at least the padding and
the gap of another one coarsens its groups. Both are groups of the segments in one order. -/
theorem merge_coarsens (hrule : rule.IsFinite) (hrule' : rule'.IsFinite) (hle : rule.AtMost rule')
    (hsegments : ∀ s ∈ segments, s.IsFinite) :
    Coarsens (grouping (rule'.merge segments)) (grouping (rule.merge segments)) ∧
      (grouping (rule.merge segments)).flatten = sortByStart segments ∧
      (grouping (rule'.merge segments)).flatten = sortByStart segments := by
  have hsorted := sortByStart_eq hsegments
  refine ⟨?_, ?_, ?_⟩
  · have hfinite : ∀ s ∈ sortByStart segments, s.IsFinite := by
      intro s hs
      rw [hsorted] at hs
      exact hsegments s (List.mem_mergeSort.1 hs)
    unfold merge
    split
    · have hnone : List.Forall₂ IsRow ([] : List (List (List Segment))) [] := .nil
      exact coarsens_of_rows hnone
    · rename_i s rest hsort
      rw [hsort] at hfinite
      obtain ⟨hs, hrest⟩ := List.forall_mem_cons.1 hfinite
      obtain ⟨rows, hflatten, hrows⟩ := mergeFrom_rows hle hrest (IsAhead.openBoth hle hs)
      rw [grouping_renumber, grouping_renumber, ← List.nil_append (grouping (rule.mergeFrom _ _)),
        ← hflatten]
      exact coarsens_of_rows hrows
  · rw [hsorted, ← (merge_isMerged hrule hsegments).segments_eq, List.flatMap_def]
    rfl
  · rw [hsorted, ← (merge_isMerged hrule' hsegments).segments_eq, List.flatMap_def]
    rfl

/-- Segments out of order, one before the start and one that ends before it starts: with two seconds of
padding in place of minus one, and a larger gap, the last two of three clips become one. -/
theorem widerRule_coarsens :
    ∃ fine coarse,
      MergeRule.merge ⟨.ofInt (-1), 5⟩
        (sampleSegments [(30, 31), (15, 12), (20, 26), (.ofInt (-4), 1)]) = fine ∧
      MergeRule.merge ⟨2, 6⟩ (sampleSegments [(30, 31), (15, 12), (20, 26), (.ofInt (-4), 1)]) = coarse ∧
      Coarsens (grouping coarse) (grouping fine) ∧
      (grouping fine).map List.length = [1, 1, 2] ∧ (grouping coarse).map List.length = [1, 3] := by
  have hsegments : (sampleSegments [(30, 31), (15, 12), (20, 26), (.ofInt (-4), 1)]).all
      (fun s => s.start.isFinite && s.finish.isFinite) = true := by decide +kernel
  refine ⟨_, _, rfl, rfl, ?_, by decide +kernel, by decide +kernel⟩
  refine (merge_coarsens ⟨by decide +kernel, by decide +kernel⟩ ⟨by decide +kernel, by decide +kernel⟩
    ⟨by decide +kernel, by decide +kernel⟩ ?_).1
  intro s hs
  obtain ⟨hstart, hfinish⟩ := Bool.and_eq_true_iff.1 (List.all_eq_true.1 hsegments s hs)
  exact ⟨hstart, hfinish⟩

end MergeRule

end Montage.Cutting
