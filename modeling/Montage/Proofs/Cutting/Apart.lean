import Mathlib.Data.List.Chain
import Montage.Cutting.Merge
import Montage.Proofs.Number.Nearest
import Montage.Proofs.Sorting.Permutation

/-!
# Clips that do not overlap

A segment opens a clip when it starts further behind the clip before it than the gap, and the clip
then starts a padding before its segment. So clips are apart when the padding is at most the gap. With
more padding they can overlap: they are apart exactly when no segment opens a clip less than a padding
behind the one before (`merge_isApart`).
-/

namespace Montage.Cutting

open Binary64

/-- Every clip ends before the next one starts. -/
def IsApart (cuts : List Cut) : Prop := cuts.IsChain fun c d => c.finish.le d.start = true

/-- Between a clip and the segment that opens the next one there is room for the padding. -/
def HasRoom (rule : MergeRule) (c d : Cut) : Prop :=
  ∀ s ∈ d.segments.head?, c.finish.le (s.start - rule.padding) = true

/-- A stretch of the recording, from a time on that is not negative. -/
structure Segment.IsStretch (s : Segment) : Prop where
  zero_le : zero.le s.start = true
  start_le : s.start.le s.finish = true
  isFinite : s.finish.isFinite = true

instance (s : Segment) : Decidable s.IsStretch :=
  decidable_of_iff (zero.le s.start = true ∧ s.start.le s.finish = true ∧ s.finish.isFinite = true)
    ⟨fun ⟨hzero, hle, hfinite⟩ => ⟨hzero, hle, hfinite⟩, fun h => ⟨h.1, h.2, h.3⟩⟩

namespace MergeRule

variable {rule : MergeRule} {c d current : Cut} {s : Segment} {segments : List Segment}

/-- How a clip follows another one that does not end before a padding after zero. -/
structure Follows (rule : MergeRule) (c d : Cut) : Prop where
  padding_le : rule.padding.le c.finish = true
  opened : ∃ s : Segment, s.IsStretch ∧ d.segments.head? = some s ∧
    d.start = (rule.single s).start ∧ rule.joins c s = false

theorem isFinite_start (h : s.IsStretch) : s.start.isFinite = true :=
  isFinite_of_le h.zero_le h.start_le h.isFinite

theorem padding_le_finish (hpadding : zero.le rule.padding = true) (h : s.IsStretch) :
    rule.padding.le (s.finish + rule.padding) = true :=
  le_add_of_zero_le h.isFinite (le_trans h.zero_le h.start_le) hpadding

/-- Each clip of a merge follows the one before it, and the first one is opened as the current one. -/
theorem mergeFrom_follows (hpadding : zero.le rule.padding = true)
    (hcurrent : rule.padding.le current.finish = true) (hopen : current.segments ≠ [])
    (hsegments : ∀ s ∈ segments, s.IsStretch) :
    ∃ c cs, rule.mergeFrom current segments = c :: cs ∧ c.start = current.start ∧
      c.segments.head? = current.segments.head? ∧ rule.padding.le c.finish = true ∧
      (c :: cs).IsChain rule.Follows := by
  induction segments generalizing current with
  | nil => exact ⟨current, [], rfl, rfl, rfl, hcurrent, .singleton _⟩
  | cons s rest ih =>
    obtain ⟨hs, hrest⟩ := List.forall_mem_cons.1 hsegments
    unfold mergeFrom
    split
    · have hextended : rule.padding.le (rule.extend current s).finish = true :=
        le_max_left hcurrent
      obtain ⟨c, cs, hmerge, hstart, hhead, hchain⟩ := ih hextended (by simp [extend]) hrest
      refine ⟨c, cs, hmerge, hstart, hhead.trans ?_, hchain⟩
      exact List.head?_append_of_ne_nil _ hopen
    · rename_i hjoins
      have hsingle : rule.padding.le (rule.single s).finish = true := padding_le_finish hpadding hs
      obtain ⟨d, cs, hmerge, hstart, hhead, -, hchain⟩ := ih hsingle (by simp [single]) hrest
      refine ⟨current, d :: cs, by rw [hmerge], rfl, rfl, hcurrent, ?_⟩
      refine List.isChain_cons_cons.2 ⟨⟨hcurrent, s, hs, hhead, hstart, ?_⟩, hchain⟩
      simpa using hjoins

namespace Follows

variable (h : rule.Follows c d) (hpadding : zero.le rule.padding = true)
include h hpadding

theorem hasRoom_of_padding_le (hle : rule.padding.le rule.gap = true) : HasRoom rule c d := by
  obtain ⟨hfinish, s, hs, hhead, -, hjoins⟩ := h
  intro s' hs'
  obtain rfl : s = s' := Option.some.inj (hhead.symm.trans hs')
  exact le_sub_of_not_sub_le (isFinite_start hs) (le_trans hpadding hfinish) hpadding hle hjoins

theorem finish_le_start_iff (hgap : zero.le rule.gap = true) :
    c.finish.le d.start = true ↔ HasRoom rule c d := by
  constructor
  · intro hle s hs
    have hpaddingGap := h.hasRoom_of_padding_le hpadding
    obtain ⟨hfinish, s', hs', hhead, hstart, hjoins⟩ := h
    obtain rfl : s' = s := Option.some.inj (hhead.symm.trans hs)
    rw [hstart, single, Binary64.max] at hle
    split at hle
    · exact hle
    · -- A clip that ends at zero has no padding to leave room for.
      exact hpaddingGap (le_trans hfinish (le_trans hle hgap)) s' hs
  · intro hroom
    obtain ⟨-, s, -, hhead, hstart, -⟩ := h
    rw [hstart]
    exact le_max_right rfl (hroom s hhead)

end Follows

theorem isChain_renumber {R : Cut → Cut → Prop} {cuts : List Cut}
    (hindex : ∀ c d (i j : Int), R { c with index := i } { d with index := j } ↔ R c d) :
    (renumber cuts).IsChain R ↔ cuts.IsChain R := by
  have hmap : (cuts.zipIdx 1).map Prod.fst = cuts := List.zipIdx_map_fst 1 cuts
  conv_rhs => rw [← hmap, List.isChain_map]
  rw [renumber, List.isChain_map]
  exact List.IsChain.iff fun (a b : Cut × Nat) => hindex a.1 b.1 a.2 b.2

theorem merge_follows (hpadding : zero.le rule.padding = true)
    (hsegments : ∀ s ∈ segments, s.IsStretch) : (rule.merge segments).IsChain rule.Follows := by
  have hsorted : ∀ s ∈ sortByStart segments, s.IsStretch := fun s hs =>
    hsegments s ((Sorting.sortBy_perm _ segments).mem_iff.1 hs)
  unfold merge
  split
  · exact .nil
  · rename_i s rest hsort
    obtain ⟨hs, hrest⟩ := List.forall_mem_cons.1 (hsort ▸ hsorted)
    have hsingle : rule.padding.le (rule.single s).finish = true := padding_le_finish hpadding hs
    obtain ⟨c, cs, hmerge, -, -, -, hchain⟩ :=
      mergeFrom_follows hpadding hsingle (by simp [single]) hrest
    rw [hmerge]
    exact (isChain_renumber fun c d i j => ⟨fun h => ⟨h.1, h.2⟩, fun h => ⟨h.1, h.2⟩⟩).2 hchain

/-- Merged clips are apart when the padding is at most the gap, and otherwise exactly when there is
room for the padding between each clip and the segment that opens the next one. -/
theorem merge_isApart (hpadding : zero.le rule.padding = true) (hgap : zero.le rule.gap = true)
    (hsegments : ∀ s ∈ segments, s.IsStretch) :
    (rule.padding.le rule.gap = true → IsApart (rule.merge segments)) ∧
      (IsApart (rule.merge segments) ↔ (rule.merge segments).IsChain (HasRoom rule)) := by
  have hfollows := merge_follows hpadding hsegments
  constructor
  · intro hle
    refine hfollows.imp fun c d h => ?_
    exact (h.finish_le_start_iff hpadding hgap).2 (h.hasRoom_of_padding_le hpadding hle)
  · rw [List.isChain_iff_getElem] at hfollows
    rw [IsApart, List.isChain_iff_getElem, List.isChain_iff_getElem]
    exact forall₂_congr fun i hi => (hfollows i hi).finish_le_start_iff hpadding hgap

def sampleSegments (times : List (Binary64 × Binary64)) : List Segment :=
  times.map fun (start, finish) => { index := .int 0, start, finish }

/-- The usual padding is at most the usual gap. -/
theorem usualRule_isApart :
    IsApart (MergeRule.merge ⟨.ofRatio 3 2, .ofInt 3⟩
      (sampleSegments [(15, 18), (30, 31), (10, 12)])) :=
  (merge_isApart (by decide +kernel) (by decide +kernel) (by decide +kernel)).1 (by decide +kernel)

/-- With a padding above the gap, the second clip can start before the end of the first one. -/
theorem merge_not_isApart :
    ¬ ∀ (rule : MergeRule) (segments : List Segment), zero.le rule.padding = true →
      zero.le rule.gap = true → (∀ s ∈ segments, s.IsStretch) → IsApart (rule.merge segments) := by
  intro h
  have hapart := h ⟨.ofInt 2, .ofInt 1⟩ (sampleSegments [(0, 1), (.ofRatio 9 2, 6)])
    (by decide +kernel) (by decide +kernel) (by decide +kernel)
  revert hapart
  unfold IsApart
  decide +kernel

end MergeRule

end Montage.Cutting
