import Montage.Proofs.Cutting.Apart
import Montage.Proofs.Number.Maximum
import Montage.Proofs.Sorting.Stable

/-!
# What merging segments gives

Merged clips hold all segments, in the stable order of their starts, and a new clip begins exactly
where the next segment is further than the gap behind the latest padded end so far
(`MergeRule.merge_isMerged`).
-/

namespace Montage.Cutting

open Binary64

/-- A segment whose times are finite numbers, in whatever order. -/
structure Segment.IsFinite (s : Segment) : Prop where
  start : s.start.isFinite = true
  finish : s.finish.isFinite = true

namespace MergeRule

variable {rule : MergeRule} {c d current : Cut} {segments : List Segment}

/-- The end of a segment with its padding. -/
def paddedEnd (rule : MergeRule) (s : Segment) : Binary64 := s.finish + rule.padding

/-- A latest end among padded segments. -/
def IsLatest (rule : MergeRule) (segments : List Segment) (m : Binary64) : Prop :=
  IsMaximum (segments.map rule.paddedEnd) m

/-- A clip of the segments that it holds, of which the first one starts first. -/
structure IsClip (rule : MergeRule) (c : Cut) : Prop where
  first : ∃ s ∈ c.segments.head?, c.start = .max .zero (s.start - rule.padding) ∧
    ∀ t ∈ c.segments, s.start.le t.start = true
  finish : rule.IsLatest c.segments c.finish

/-- The clips of some segments: all of them in the stable order of their starts, numbered from one on,
and parted exactly where the next segment is further behind than the gap. -/
structure IsMerged (rule : MergeRule) (segments : List Segment) (cuts : List Cut) : Prop where
  segments_eq : cuts.flatMap (·.segments) = segments.mergeSort fun s t => s.start.le t.start
  isClip : ∀ c ∈ cuts, rule.IsClip c
  parted : ∀ before c after, cuts = before ++ c :: after →
    ∀ front back, c.segments = front ++ back → front ≠ [] →
      ∀ s ∈ (back ++ after.flatMap (·.segments)).head?, ∀ m, rule.IsLatest front m →
        (back = [] ↔ rule.gap.lt (s.start - m) = true)
  index_eq : cuts.map (·.index) = (List.range' 1 cuts.length).map Int.ofNat

/-! ### The order of the segments -/

/-- The start of a segment in units. -/
def startUnits (s : Segment) : Int := s.start.toUnits?.getD 0

theorem toUnits?_start {s : Segment} (hs : s.IsFinite) :
    s.start.toUnits? = some (startUnits s) := by
  obtain ⟨u, hu⟩ := exists_units hs.start
  rw [startUnits, hu]
  rfl

/-- On finite starts, the comparison of starts is that of whole numbers. -/
theorem mergeSort_eq (hsegments : ∀ s ∈ segments, s.IsFinite) :
    segments.mergeSort (Sorting.atMost startUnits) =
      segments.mergeSort fun s t => s.start.le t.start := by
  have hsame : ∀ s ∈ segments, ∀ t ∈ segments,
      Sorting.atMost startUnits s t = s.start.le t.start := by
    intro s hs t ht
    rw [Bool.eq_iff_iff, Sorting.atMost, decide_eq_true_eq,
      le_iff_units (toUnits?_start (hsegments s hs)) (toUnits?_start (hsegments t ht))]
  have hmap : (segments.mergeSort (Sorting.atMost startUnits)).map id =
      (segments.map id).mergeSort fun s t => s.start.le t.start := List.map_mergeSort hsame
  rwa [List.map_id, List.map_id] at hmap

theorem sortByStart_eq (hsegments : ∀ s ∈ segments, s.IsFinite) :
    sortByStart segments = segments.mergeSort fun s t => s.start.le t.start := by
  have horders : Sorting.Orders (fun s t => pure (s.startsBefore t)) startUnits segments := by
    intro s hs t ht
    exact lt_iff_units (toUnits?_start (hsegments s hs)) (toUnits?_start (hsegments t ht))
  exact (Sorting.sortBy_eq_mergeSort horders).trans (mergeSort_eq hsegments)

theorem pairwise_sortByStart (hsegments : ∀ s ∈ segments, s.IsFinite) :
    (sortByStart segments).Pairwise fun s t => s.start.le t.start = true := by
  rw [sortByStart_eq hsegments, ← mergeSort_eq hsegments]
  refine (Sorting.mergeSort_isSorted segments).imp_of_mem fun {s t} hs ht hle => ?_
  have hs' := hsegments s (List.mem_mergeSort.1 hs)
  have ht' := hsegments t (List.mem_mergeSort.1 ht)
  exact (le_iff_units (toUnits?_start hs') (toUnits?_start ht')).2 hle

/-! ### One clip after the other -/

/-- No segment of a clip is further than the gap behind those before it. -/
def IsJoined (rule : MergeRule) (segments : List Segment) : Prop :=
  ∀ front s back, segments = front ++ s :: back → front ≠ [] →
    ∀ m, rule.IsLatest front m → rule.gap.lt (s.start - m) = false

/-- The first segment of a clip is further than the gap behind the clip before it. -/
def IsParted (rule : MergeRule) (c d : Cut) : Prop :=
  ∀ s ∈ d.segments.head?, ∀ m, rule.IsLatest c.segments m → rule.gap.lt (s.start - m) = true

/-- A clip that is built up from its segments. -/
structure IsBuilt (rule : MergeRule) (c : Cut) : Prop where
  first : ∃ s ∈ c.segments.head?, c.start = .max .zero (s.start - rule.padding)
  finish : rule.IsLatest c.segments c.finish
  finish_isNaN : c.finish.isNaN = false
  joined : rule.IsJoined c.segments

structure IsFinite (rule : MergeRule) : Prop where
  padding : rule.padding.isFinite = true
  gap : rule.gap.isFinite = true

variable (hrule : rule.IsFinite)
include hrule

theorem isNaN_paddedEnd {s : Segment} (hs : s.IsFinite) : (rule.paddedEnd s).isNaN = false :=
  isNaN_add hs.finish (isNaN_of_isFinite hrule.padding)

theorem joins_eq {s : Segment} (hs : s.IsFinite) (hc : rule.IsBuilt c) :
    rule.joins c s = !rule.gap.lt (s.start - c.finish) :=
  le_eq_not_lt (isNaN_of_isFinite hrule.gap) (isNaN_sub hs.start hc.finish_isNaN)

/-- Every latest end of a clip is as far from a segment as the end of the clip. -/
theorem lt_sub_eq {s : Segment} (hs : s.IsFinite) (hc : rule.IsBuilt c) {m : Binary64}
    (hm : rule.IsLatest c.segments m) :
    rule.gap.lt (s.start - m) = rule.gap.lt (s.start - c.finish) :=
  lt_sub_congr hrule.gap hs.start (hm.le_of_isMaximum hc.finish) (hc.finish.le_of_isMaximum hm)

theorem single_isBuilt {s : Segment} (hs : s.IsFinite) : rule.IsBuilt (rule.single s) where
  first := ⟨s, rfl, rfl⟩
  finish := .singleton (isNaN_paddedEnd hrule hs)
  finish_isNaN := isNaN_paddedEnd hrule hs
  joined := by
    intro front t back hsplit hfront
    have hlength := congrArg List.length hsplit
    have hpos := List.length_pos_iff.2 hfront
    simp only [single, List.length_append, List.length_cons, List.length_nil] at hlength
    omega

theorem extend_isBuilt {s : Segment} (hs : s.IsFinite) (hc : rule.IsBuilt c)
    (hjoins : rule.joins c s = true) : rule.IsBuilt (rule.extend c s) where
  first := by
    obtain ⟨t, ht, hstart⟩ := hc.first
    refine ⟨t, ?_, hstart⟩
    rw [extend, List.head?_append, Option.mem_def.1 ht]
    rfl
  finish := by
    rw [IsLatest, extend, List.map_append]
    exact hc.finish.append hc.finish_isNaN (isNaN_paddedEnd hrule hs)
  finish_isNaN := by
    rw [extend, Binary64.max]
    split
    · exact isNaN_paddedEnd hrule hs
    · exact hc.finish_isNaN
  joined := by
    intro front t back hsplit hfront m hm
    change c.segments ++ [s] = _ at hsplit
    rcases List.eq_nil_or_concat back with rfl | ⟨back, last, rfl⟩
    · obtain ⟨rfl, hlast⟩ := List.append_inj' hsplit rfl
      obtain rfl := List.singleton_inj.1 hlast
      rw [joins_eq hrule hs hc] at hjoins
      rw [lt_sub_eq hrule hs hc hm]
      simpa using hjoins
    · rw [List.concat_eq_append, ← List.cons_append, ← List.append_assoc] at hsplit
      obtain ⟨hbefore, -⟩ := List.append_inj' hsplit rfl
      exact hc.joined front t back hbefore hfront m hm

/-- What is built on the way holds all segments, and each clip is parted from the one before it. -/
theorem mergeFrom_built (hcurrent : rule.IsBuilt current) (hsegments : ∀ s ∈ segments, s.IsFinite) :
    ∃ c cs, rule.mergeFrom current segments = c :: cs ∧
      c.segments.head? = current.segments.head? ∧
      (c :: cs).flatMap (·.segments) = current.segments ++ segments ∧
      (∀ d ∈ c :: cs, rule.IsBuilt d) ∧ (c :: cs).IsChain rule.IsParted := by
  -- Each segment either goes on with the clip that is being built, or begins another one.
  induction segments generalizing current with
  | nil => exact ⟨current, [], rfl, rfl, by simp, by simpa using hcurrent, .singleton _⟩
  | cons s rest ih =>
    obtain ⟨hs, hrest⟩ := List.forall_mem_cons.1 hsegments
    unfold mergeFrom
    split
    · rename_i hjoins
      obtain ⟨c, cs, hmerge, hhead, hall, hbuilt, hchain⟩ :=
        ih (extend_isBuilt hrule hs hcurrent hjoins) hrest
      refine ⟨c, cs, hmerge, hhead.trans ?_, hall.trans ?_, hbuilt, hchain⟩
      · obtain ⟨t, ht, -⟩ := hcurrent.first
        rw [extend, List.head?_append, Option.mem_def.1 ht]
        rfl
      · exact List.append_assoc _ _ _
    · rename_i hjoins
      obtain ⟨d, cs, hmerge, hhead, hall, hbuilt, hchain⟩ :=
        ih (single_isBuilt hrule hs) hrest
      refine ⟨current, d :: cs, by rw [hmerge], rfl, ?_, ?_, ?_⟩
      · rw [List.flatMap_cons, hall]
        rfl
      · exact List.forall_mem_cons.2 ⟨hcurrent, hbuilt⟩
      · refine List.isChain_cons_cons.2 ⟨fun t ht m hm => ?_, hchain⟩
        rw [hhead] at ht
        obtain rfl := Option.some.inj ht
        rw [joins_eq hrule hs hcurrent] at hjoins
        rw [lt_sub_eq hrule hs hcurrent hm]
        simpa using hjoins

omit hrule

/-- Segments that are parted or joined as the clips say. -/
theorem parted_iff {cuts before after : List Cut} (hcuts : cuts = before ++ c :: after)
    (hbuilt : ∀ d ∈ cuts, rule.IsBuilt d) (hchain : cuts.IsChain rule.IsParted)
    {front back : List Segment} (hsplit : c.segments = front ++ back) (hfront : front ≠ [])
    {s : Segment} (hs : s ∈ (back ++ after.flatMap (·.segments)).head?) {m : Binary64}
    (hm : rule.IsLatest front m) : back = [] ↔ rule.gap.lt (s.start - m) = true := by
  subst hcuts
  cases back with
  | cons t back =>
    obtain rfl : t = s := Option.some.inj hs
    have hjoined := (hbuilt c (by simp)).joined front t back hsplit hfront m hm
    simp [hjoined]
  | nil =>
    rw [List.append_nil] at hsplit
    subst hsplit
    cases after with
    | nil => cases hs
    | cons d after =>
      obtain ⟨t, ht, -⟩ := (hbuilt d (by simp)).first
      have hparted : rule.IsParted c d :=
        (List.isChain_cons_cons.1 (List.isChain_append.1 hchain).2.1).1
      rw [List.nil_append, List.flatMap_cons, List.head?_append, Option.mem_def.1 ht] at hs
      obtain rfl := Option.some.inj hs
      simp [hparted t ht m hm]

/-! ### Numbered clips -/

theorem exists_of_mem_renumber {cuts : List Cut} (hc : c ∈ renumber cuts) :
    ∃ d ∈ cuts, ∃ i, c = { d with index := i } := by
  obtain ⟨⟨d, i⟩, hd, rfl⟩ := List.mem_map.1 hc
  have hmem : d ∈ (cuts.zipIdx 1).map Prod.fst := List.mem_map_of_mem hd
  rw [List.zipIdx_map_fst] at hmem
  exact ⟨d, hmem, i, rfl⟩

theorem flatMap_renumber (cuts : List Cut) :
    (renumber cuts).flatMap (·.segments) = cuts.flatMap (·.segments) := by
  conv_rhs => rw [← List.zipIdx_map_fst 1 cuts, List.flatMap_map]
  rw [renumber, List.flatMap_map]

theorem map_index_renumber (cuts : List Cut) :
    (renumber cuts).map (·.index) = (List.range' 1 (renumber cuts).length).map Int.ofNat := by
  rw [renumber, List.length_map, List.length_zipIdx, ← List.zipIdx_map_snd 1 cuts, List.map_map,
    List.map_map]
  rfl

theorem isChain_isParted_renumber {cuts : List Cut} :
    (renumber cuts).IsChain rule.IsParted ↔ cuts.IsChain rule.IsParted :=
  isChain_renumber fun _ _ _ _ => .rfl

/-- For finite times, a finite padding and a finite gap of any sign, merging gives the clips that it
should. -/
theorem merge_isMerged (hrule : rule.IsFinite) (hsegments : ∀ s ∈ segments, s.IsFinite) :
    rule.IsMerged segments (rule.merge segments) := by
  have hsorted := sortByStart_eq hsegments
  have hpairwise := pairwise_sortByStart hsegments
  have hfinite : ∀ s ∈ sortByStart segments, s.IsFinite := fun s hs => by
    rw [hsorted] at hs
    exact hsegments s (List.mem_mergeSort.1 hs)
  unfold merge
  cases hsort : sortByStart segments with
  | nil =>
    rw [hsort] at hsorted
    refine ⟨hsorted, fun _ hc => absurd hc List.not_mem_nil, fun before c after hcuts => ?_, rfl⟩
    cases (List.append_eq_nil_iff.1 hcuts.symm).2
  | cons s rest =>
    rw [hsort] at hsorted hpairwise hfinite
    obtain ⟨hs, hrest⟩ := List.forall_mem_cons.1 hfinite
    obtain ⟨c, cs, hmerge, -, hall, hbuilt, hchain⟩ :=
      mergeFrom_built hrule (single_isBuilt hrule hs) hrest
    dsimp only
    rw [hmerge]
    have hallRenumbered : (renumber (c :: cs)).flatMap (·.segments) = s :: rest :=
      (flatMap_renumber _).trans hall
    have hbuiltRenumbered : ∀ d ∈ renumber (c :: cs), rule.IsBuilt d := by
      intro d hd
      obtain ⟨e, he, i, rfl⟩ := exists_of_mem_renumber hd
      exact ⟨(hbuilt e he).1, (hbuilt e he).2, (hbuilt e he).3, (hbuilt e he).4⟩
    refine ⟨hallRenumbered.trans hsorted, fun d hd => ?_, ?_, map_index_renumber _⟩
    · obtain ⟨t, ht, hstart⟩ := (hbuiltRenumbered d hd).first
      refine ⟨⟨t, ht, hstart, fun u hu => ?_⟩, (hbuiltRenumbered d hd).finish⟩
      obtain ⟨others, hothers⟩ := List.head?_eq_some_iff.1 ht
      have hsublist : d.segments.Sublist (s :: rest) := by
        rw [← hallRenumbered]
        exact List.sublist_flatten_of_mem (List.mem_map_of_mem hd)
      have horder := hpairwise.sublist hsublist
      rw [hothers] at horder hu
      rcases List.mem_cons.1 hu with rfl | hu
      · refine Binary64.le_refl (isNaN_of_isFinite (hfinite u (hsublist.subset ?_)).start)
        rw [hothers]
        exact List.mem_cons_self
      · exact (List.pairwise_cons.1 horder).1 u hu
    · intro before d after hcuts front back hsplit hfront t ht m hm
      exact parted_iff hcuts hbuiltRenumbered (isChain_isParted_renumber.2 hchain) hsplit hfront ht hm

/-- Segments out of order, one reversed, one before the start, and two that start together. -/
theorem usualRule_isMerged :
    ∃ cuts, MergeRule.merge ⟨.ofRatio 3 2, .ofInt 3⟩
        (sampleSegments [(30, 31), (15, 12), (10, 12), (15, 18), (.ofInt (-4), 1)]) = cuts ∧
      IsMerged ⟨.ofRatio 3 2, .ofInt 3⟩
        (sampleSegments [(30, 31), (15, 12), (10, 12), (15, 18), (.ofInt (-4), 1)]) cuts ∧
      cuts.map (·.segments.length) = [1, 3, 1] := by
  have hsegments : (sampleSegments [(30, 31), (15, 12), (10, 12), (15, 18), (.ofInt (-4), 1)]).all
      (fun s => s.start.isFinite && s.finish.isFinite) = true := by decide +kernel
  refine ⟨_, rfl, merge_isMerged ⟨by decide +kernel, by decide +kernel⟩ fun s hs => ?_,
    by decide +kernel⟩
  obtain ⟨hstart, hfinish⟩ := Bool.and_eq_true_iff.1 (List.all_eq_true.1 hsegments s hs)
  exact ⟨hstart, hfinish⟩

end MergeRule

end Montage.Cutting
