import Montage.Proofs.Cutting.Coarser

/-!
# Segments in another order

Merging gives the same clips whatever the order of the segments (`MergeRule.merge_shuffled`). The order
matters only among segments that start together, and these always come into one clip: when the first of
them joins a clip the others do, and when it opens one the others join it.
-/

namespace Montage

namespace Cutting

open Binary64

/-- A segment with finite times that does not end before it starts. -/
structure Segment.IsForward (s : Segment) : Prop extends s.IsFinite where
  start_le : s.start.le s.finish = true

/-- Clips with the same times and number, and with the same segments in some order. Their ends are the
same numbers, but for the sign of a zero when the padding is a negative zero. -/
structure MergeRule.IsLike (rule : MergeRule) (c d : Cut) : Prop where
  start_eq : c.start = d.start
  finish_same : c.finish.same d.finish = true
  finish_eq : rule.padding ≠ -zero → c.finish = d.finish
  segments_perm : c.segments.Perm d.segments
  index_eq : c.index = d.index

namespace MergeRule

variable {rule : MergeRule} {c d : Cut} {s t : Segment} {segments segments' ties rest : List Segment}

/-! ### Segments that start together -/

/-- A clip that ends with the latest of its padded segments. -/
structure IsOpen (rule : MergeRule) (c : Cut) : Prop where
  latest : rule.IsLatest c.segments c.finish
  finish_isNaN : c.finish.isNaN = false

/-- Clips of the same segments with the same start. -/
structure AreTwins (rule : MergeRule) (c d : Cut) : Prop where
  left : rule.IsOpen c
  right : rule.IsOpen d
  start_eq : c.start = d.start
  segments_perm : c.segments.Perm d.segments

theorem AreTwins.symm (h : rule.AreTwins c d) : rule.AreTwins d c :=
  ⟨h.right, h.left, h.start_eq.symm, h.segments_perm.symm⟩

theorem AreTwins.finish_le (h : rule.AreTwins c d) : c.finish.le d.finish = true :=
  h.right.latest.le _ ((h.segments_perm.map rule.paddedEnd).mem_iff.1 h.left.latest.mem)

theorem extendAll_start (rule : MergeRule) (c : Cut) (ties : List Segment) :
    (ties.foldl rule.extend c).start = c.start := by
  induction ties generalizing c with
  | nil => rfl
  | cons t ties ih => exact ih (rule.extend c t)

theorem extendAll_segments (rule : MergeRule) (c : Cut) (ties : List Segment) :
    (ties.foldl rule.extend c).segments = c.segments ++ ties := by
  induction ties generalizing c with
  | nil => exact (List.append_nil _).symm
  | cons t ties ih =>
    rw [List.foldl_cons, ih (rule.extend c t), extend, List.append_assoc]
    rfl

section Padded

variable (hpadding : zero.le rule.padding = true) (hgap : zero.le rule.gap = true)

include hpadding

theorem isNaN_paddedEnd_of_zero_le (hs : s.IsFinite) : (rule.paddedEnd s).isNaN = false :=
  isNaN_add hs.finish (isNaN_of_le hpadding).2

theorem single_isOpen (hs : s.IsFinite) : rule.IsOpen (rule.single s) :=
  ⟨.singleton (isNaN_paddedEnd_of_zero_le hpadding hs), isNaN_paddedEnd_of_zero_le hpadding hs⟩

theorem IsOpen.extend (hc : rule.IsOpen c) (hs : s.IsFinite) : rule.IsOpen (rule.extend c s) := by
  have hend := isNaN_paddedEnd_of_zero_le hpadding hs
  constructor
  · rw [IsLatest, MergeRule.extend, List.map_append]
    exact hc.latest.append hc.finish_isNaN hend
  · rw [MergeRule.extend, Binary64.max]
    split
    · exact hend
    · exact hc.finish_isNaN

theorem IsOpen.extendAll (hc : rule.IsOpen c) (hties : ∀ t ∈ ties, t.IsFinite) :
    rule.IsOpen (ties.foldl rule.extend c) := by
  induction ties generalizing c with
  | nil => exact hc
  | cons t ties ih =>
    obtain ⟨ht, hties⟩ := List.forall_mem_cons.1 hties
    exact ih (hc.extend hpadding ht) hties

/-- Twins stay twins when the same segments join them. -/
theorem AreTwins.extendAll (h : rule.AreTwins c d) {ties' : List Segment}
    (hties : ∀ t ∈ ties, t.IsFinite) (hperm : ties.Perm ties') :
    rule.AreTwins (ties.foldl rule.extend c) (ties'.foldl rule.extend d) where
  left := h.left.extendAll hpadding hties
  right := h.right.extendAll hpadding fun t ht => hties t (hperm.mem_iff.2 ht)
  start_eq := by rw [extendAll_start, extendAll_start, h.start_eq]
  segments_perm := by
    rw [extendAll_segments, extendAll_segments]
    exact h.segments_perm.append hperm

/-- The clips that segments with one start open are twins, whichever of them comes first. -/
theorem openAll_areTwins {more more' : List Segment} (hs : ∀ u ∈ s :: more, u.IsFinite)
    (hsame : startUnits t = startUnits s) (hperm : (s :: more).Perm (t :: more')) :
    rule.AreTwins (more.foldl rule.extend (rule.single s)) (more'.foldl rule.extend (rule.single t)) := by
  have ht : ∀ u ∈ t :: more', u.IsFinite := fun u hu => hs u (hperm.mem_iff.2 hu)
  obtain ⟨hfirst, hmore⟩ := List.forall_mem_cons.1 hs
  obtain ⟨hfirst', hmore'⟩ := List.forall_mem_cons.1 ht
  refine ⟨(single_isOpen hpadding hfirst).extendAll hpadding hmore,
    (single_isOpen hpadding hfirst').extendAll hpadding hmore', ?_, ?_⟩
  · rw [extendAll_start, extendAll_start]
    exact max_zero_sub_congr (hsame ▸ toUnits?_start hfirst) (toUnits?_start hfirst')
      (isNaN_of_le hpadding).2
  · rw [extendAll_segments, extendAll_segments]
    exact hperm

include hgap

omit hpadding in
/-- What starts with a segment joins whatever that joins, and also what ends later. -/
theorem joins_tie (hs : s.IsFinite) (ht : t.IsFinite) (hsame : startUnits t = startUnits s)
    (hfinish : c.finish.le d.finish = true) (hjoins : rule.joins c s = true) :
    rule.joins d t = true := by
  have hstart : t.start.le s.start = true :=
    (le_iff_units (toUnits?_start ht) (toUnits?_start hs)).2 (Int.le_of_eq hsame)
  exact joins_mono (le_refl (isNaN_of_le hgap).2) hs.start ht.start hstart hfinish hjoins

/-- A segment joins the clip that another one opens at the same time. -/
theorem joins_single (hs : s.IsForward) (ht : t.IsFinite) (hsame : startUnits t = startUnits s) :
    rule.joins (rule.single s) t = true := by
  have hend : s.start.le (rule.paddedEnd s) = true :=
    le_trans hs.start_le (le_add_right hs.finish hpadding)
  have hself : rule.joins (rule.single s) s = true := le_trans (sub_le_zero_of_le hs.start hend) hgap
  exact joins_tie hgap hs.toIsFinite ht hsame (le_refl (isNaN_of_le hend).2) hself

/-- Segments that could each join a clip all join it. -/
theorem mergeFrom_ties (hc : rule.IsOpen c) (hties : ∀ t ∈ ties, t.IsFinite)
    (hjoins : ∀ t ∈ ties, rule.joins c t = true) (rest : List Segment) :
    rule.mergeFrom c (ties ++ rest) = rule.mergeFrom (ties.foldl rule.extend c) rest := by
  induction ties generalizing c with
  | nil => rfl
  | cons t ties ih =>
    obtain ⟨ht, hties⟩ := List.forall_mem_cons.1 hties
    obtain ⟨hfirst, hjoins⟩ := List.forall_mem_cons.1 hjoins
    rw [List.cons_append, mergeFrom, if_pos hfirst, List.foldl_cons]
    apply ih (hc.extend hpadding ht) hties
    intro u hu
    have hlater : c.finish.le (rule.extend c t).finish = true := le_max_left (le_refl hc.finish_isNaN)
    exact joins_tie hgap (hties u hu) (hties u hu) rfl hlater (hjoins u hu)

/-! ### One run for each order -/

/-- The clips of sorted segments, not yet numbered. -/
def mergeSorted (rule : MergeRule) : List Segment → List Cut
  | [] => []
  | s :: rest => rule.mergeFrom (rule.single s) rest

omit hpadding hgap in
theorem mergeFrom_of_not_joins (hjoins : ¬ rule.joins c s = true) :
    rule.mergeFrom c (s :: rest) = c :: rule.mergeSorted (s :: rest) := by
  rw [mergeFrom, if_neg hjoins]
  rfl

omit hpadding hgap in
theorem merge_eq (rule : MergeRule) (segments : List Segment) :
    rule.merge segments = renumber (rule.mergeSorted (sortByStart segments)) := by
  unfold merge
  cases sortByStart segments <;> rfl

theorem mergeSorted_ties {more : List Segment} (hs : s.IsForward) (hmore : ∀ t ∈ more, t.IsFinite)
    (hsame : ∀ t ∈ more, startUnits t = startUnits s) (rest : List Segment) :
    rule.mergeSorted (s :: more ++ rest) =
      rule.mergeFrom (more.foldl rule.extend (rule.single s)) rest :=
  mergeFrom_ties hpadding hgap (single_isOpen hpadding hs.toIsFinite) hmore
    (fun t ht => joins_single hpadding hgap hs (hmore t ht) (hsame t ht)) rest

/-- Two orders of the same sorted segments give the same clips, from one on that is open or from none. -/
theorem mergeSorted_areTwins (hsegments : ∀ s ∈ segments, s.IsForward)
    (hsorted : Sorting.IsSorted startUnits segments) (hsorted' : Sorting.IsSorted startUnits segments')
    (hperm : segments.Perm segments') :
    List.Forall₂ rule.AreTwins (rule.mergeSorted segments) (rule.mergeSorted segments') ∧
      ∀ c d, rule.AreTwins c d →
        List.Forall₂ rule.AreTwins (rule.mergeFrom c segments) (rule.mergeFrom d segments') := by
  -- The induction is on the length, since all segments that start together are taken away at once.
  induction hlength : segments.length using Nat.strong_induction_on generalizing segments segments' with
  | _ n ih =>
    by_cases hnone : segments = []
    · subst hnone
      obtain rfl := hperm.nil_eq
      exact ⟨.nil, fun c d h => .cons h .nil⟩
    obtain ⟨s, more, rest, t, more', rest', rfl, rfl, hties, hrest, hkey⟩ :=
      Sorting.exists_ties hsorted hsorted' hperm hnone
    have hforward : ∀ u ∈ s :: more, u.IsForward := fun u hu => hsegments u (List.mem_append_left _ hu)
    have hfinite : ∀ u ∈ s :: more, u.IsFinite := fun u hu => (hforward u hu).toIsFinite
    have hfinite' : ∀ u ∈ t :: more', u.IsFinite := fun u hu => hfinite u (hties.mem_iff.2 hu)
    have hkey' : ∀ u ∈ t :: more', startUnits u = startUnits s := fun u hu => hkey u (hties.mem_iff.2 hu)
    have hs := hforward s (.head _)
    have ht := hforward t (hties.mem_iff.2 (.head _))
    have hts := hkey' t (.head _)
    have hshorter : rest.length < n := by
      rw [← hlength, List.length_append, List.length_cons]
      omega
    obtain ⟨-, hgo⟩ := ih rest.length hshorter (fun u hu => hsegments u (List.mem_append_right _ hu))
      (List.pairwise_append.1 hsorted).2.1 (List.pairwise_append.1 hsorted').2.1 hrest rfl
    have hopen : List.Forall₂ rule.AreTwins (rule.mergeSorted (s :: more ++ rest))
        (rule.mergeSorted (t :: more' ++ rest')) := by
      rw [mergeSorted_ties hpadding hgap hs (fun u hu => hfinite u (.tail _ hu))
          (fun u hu => hkey u (.tail _ hu)),
        mergeSorted_ties hpadding hgap ht (fun u hu => hfinite' u (.tail _ hu))
          (fun u hu => (hkey' u (.tail _ hu)).trans hts.symm)]
      exact hgo _ _ (openAll_areTwins hpadding hfinite hts hties)
    refine ⟨hopen, ?_⟩
    intro c d h
    by_cases hjoins : rule.joins c s = true
    · rw [mergeFrom_ties hpadding hgap h.left hfinite fun u hu =>
          joins_tie hgap hs.toIsFinite (hfinite u hu) (hkey u hu) (le_refl h.left.finish_isNaN) hjoins,
        mergeFrom_ties hpadding hgap h.right hfinite' fun u hu =>
          joins_tie hgap hs.toIsFinite (hfinite' u hu) (hkey' u hu) h.finish_le hjoins]
      exact hgo _ _ (h.extendAll hpadding hfinite hties)
    · have hjoins' : ¬ rule.joins d t = true := by
        intro hjoins'
        exact hjoins (joins_tie hgap ht.toIsFinite hs.toIsFinite hts.symm h.symm.finish_le hjoins')
      rw [List.cons_append, mergeFrom_of_not_joins hjoins, List.cons_append,
        mergeFrom_of_not_joins hjoins']
      exact .cons h hopen

/-! ### Numbered clips -/

omit hgap in
theorem AreTwins.isLike (h : rule.AreTwins c d) (number : Int) :
    rule.IsLike { c with index := number } { d with index := number } where
  start_eq := h.start_eq
  finish_same := same_of_le_of_le h.finish_le h.symm.finish_le
  finish_eq := by
    intro hne
    have hend {e : Cut} (he : rule.IsOpen e) : e.finish ≠ -zero := by
      obtain ⟨s, -, hs⟩ := List.mem_map.1 he.latest.mem
      rw [← hs]
      exact add_ne_neg_zero hpadding hne s.finish
    exact eq_of_le_of_le h.finish_le h.symm.finish_le (hend (e := c) h.left) (hend (e := d) h.right)
  segments_perm := h.segments_perm
  index_eq := rfl

omit hpadding hgap in
theorem forall₂_renumber {R R' : Cut → Cut → Prop} {cuts cuts' : List Cut}
    (hnumber : ∀ c d (number : Int), R c d → R' { c with index := number } { d with index := number })
    (h : List.Forall₂ R cuts cuts') : List.Forall₂ R' (renumber cuts) (renumber cuts') := by
  unfold renumber
  generalize 1 = first
  induction h generalizing first with
  | nil => exact .nil
  | cons hcd _ ih => exact .cons (hnumber _ _ _ hcd) (ih (first + 1))

end Padded

/-- Finite segments that do not end before they start give the same clips in every order, with a padding
and a gap that are not negative. -/
theorem merge_shuffled (hpadding : zero.le rule.padding = true) (hgap : zero.le rule.gap = true)
    (hsegments : ∀ s ∈ segments, s.IsForward) (hperm : segments.Perm segments') :
    List.Forall₂ rule.IsLike (rule.merge segments) (rule.merge segments') := by
  have hsegments' : ∀ s ∈ segments', s.IsForward := fun s hs => hsegments s (hperm.mem_iff.2 hs)
  have hsorted {segments : List Segment} (h : ∀ s ∈ segments, s.IsForward) :
      Sorting.IsSorted startUnits (sortByStart segments) ∧ (sortByStart segments).Perm segments := by
    have hfinite : ∀ s ∈ segments, s.IsFinite := fun s hs => (h s hs).toIsFinite
    rw [sortByStart_eq hfinite, ← mergeSort_eq hfinite]
    exact ⟨Sorting.mergeSort_isSorted segments, List.mergeSort_perm segments _⟩
  obtain ⟨hleft, hleftPerm⟩ := hsorted hsegments
  obtain ⟨hright, hrightPerm⟩ := hsorted hsegments'
  have htwins := (mergeSorted_areTwins hpadding hgap
    (fun s hs => hsegments s (hleftPerm.mem_iff.1 hs)) hleft hright
    (hleftPerm.trans (hperm.trans hrightPerm.symm))).1
  rw [merge_eq, merge_eq]
  exact forall₂_renumber (fun c d number h => h.isLike hpadding number) htwins

/-- Of two segments that start together, either may come first: the clip ends with the later end. -/
theorem tiedSegments_shuffled :
    ∃ cuts cuts', MergeRule.merge ⟨.ofRatio 3 2, 3⟩
        (sampleSegments [(30, 31), (5, 6), (.ofInt (-1), 2), (5, 20)]) = cuts ∧
      MergeRule.merge ⟨.ofRatio 3 2, 3⟩
        (sampleSegments [(30, 31), (5, 6), (.ofInt (-1), 2), (5, 20)]).reverse = cuts' ∧
      List.Forall₂ (IsLike ⟨.ofRatio 3 2, 3⟩) cuts cuts' ∧
      cuts'.map (fun c => (c.finish, c.segments.length)) = [(.ofRatio 43 2, 3), (.ofRatio 65 2, 1)] := by
  have hsegments : (sampleSegments [(30, 31), (5, 6), (.ofInt (-1), 2), (5, 20)]).all
      (fun s => s.start.isFinite && s.finish.isFinite && s.start.le s.finish) = true := by decide +kernel
  refine ⟨_, _, rfl, rfl, ?_, by decide +kernel⟩
  refine merge_shuffled (by decide +kernel) (by decide +kernel) ?_ (List.reverse_perm _).symm
  intro s hs
  obtain ⟨htimes, hle⟩ := Bool.and_eq_true_iff.1 (List.all_eq_true.1 hsegments s hs)
  obtain ⟨hstart, hfinish⟩ := Bool.and_eq_true_iff.1 htimes
  exact ⟨⟨hstart, hfinish⟩, hle⟩

end MergeRule

end Cutting

end Montage
