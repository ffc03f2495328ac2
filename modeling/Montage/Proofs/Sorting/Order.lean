import Mathlib.Data.List.Sort

/-!
# Order by a key, and ties

A list is rearranged without changing the order of items with the same key (`SameTies`) exactly when
each class of such items stays as it is. There is only one sorted list among these (`SameTies.eq`),
and merging sorts finds it: `mergeSort_sameTies`. Merging two sorted lists takes blocks from their
ends, as long as one of them is not in the way.
-/

namespace Montage.Sorting

variable {α κ : Type} [LinearOrder κ] (key : α → κ)

def atMost (x y : α) : Bool := decide (key x ≤ key y)

/-- A list in ascending order of its keys. -/
def IsSorted (xs : List α) : Prop := xs.Pairwise (key · ≤ key ·)

/-- Each class of items with the same key is in the same order in both lists. -/
def SameTies (xs ys : List α) : Prop :=
  ∀ k, xs.filter (key · = k) = ys.filter (key · = k)

/-- Two lists merged, the first one first where keys agree. -/
def merged (xs ys : List α) : List α := xs.merge ys (atMost key)

variable {key} {xs ys zs ws : List α} {x y : α}

namespace SameTies

theorem refl (xs : List α) : SameTies key xs xs := fun _ => rfl

theorem trans (h : SameTies key xs ys) (h' : SameTies key ys zs) : SameTies key xs zs :=
  fun k => (h k).trans (h' k)

theorem append (h : SameTies key xs ys) (h' : SameTies key zs ws) :
    SameTies key (xs ++ zs) (ys ++ ws) := by
  intro k
  rw [List.filter_append, List.filter_append, h k, h' k]

theorem mem_iff (h : SameTies key xs ys) : x ∈ xs ↔ x ∈ ys := by
  have hclass : ∀ zs : List α, x ∈ zs ↔ x ∈ zs.filter (key · = key x) := fun zs => by simp
  rw [hclass xs, hclass ys, h (key x)]

/-- Of all lists with the same ties, one is sorted. -/
theorem eq (h : SameTies key xs ys) (hxs : IsSorted key xs) (hys : IsSorted key ys) : xs = ys := by
  induction xs generalizing ys with
  | nil =>
    refine (List.eq_nil_iff_forall_not_mem.2 fun y hy => ?_).symm
    exact List.not_mem_nil (h.mem_iff.2 hy)
  | cons x xs ih =>
    obtain ⟨y, ys, rfl⟩ : ∃ y ys', ys = y :: ys' :=
      List.exists_cons_of_ne_nil (List.ne_nil_of_mem (h.mem_iff.1 List.mem_cons_self))
    obtain ⟨hx, hxs'⟩ := List.pairwise_cons.1 hxs
    obtain ⟨hy, hys'⟩ := List.pairwise_cons.1 hys
    have hkey : key x = key y := by
      refine le_antisymm ?_ ?_
      · rcases List.mem_cons.1 (h.mem_iff.2 List.mem_cons_self) with heq | hmem
        · rw [heq]
        · exact hx y hmem
      · rcases List.mem_cons.1 (h.mem_iff.1 List.mem_cons_self) with heq | hmem
        · rw [heq]
        · exact hy x hmem
    have hfirst := h (key x)
    rw [List.filter_cons_of_pos (by simp), List.filter_cons_of_pos (by simp [hkey])] at hfirst
    obtain ⟨rfl, -⟩ := List.cons.inj hfirst
    refine congrArg (x :: ·) (ih (fun k => ?_) hxs' hys')
    have hk := h k
    by_cases hxk : key x = k
    · rw [List.filter_cons_of_pos (by simp [hxk]), List.filter_cons_of_pos (by simp [hxk])] at hk
      exact (List.cons.inj hk).2
    · rwa [List.filter_cons_of_neg (by simp [hxk]), List.filter_cons_of_neg (by simp [hxk])] at hk

end SameTies

theorem atMost_trans (x y z : α) (hxy : atMost key x y = true) (hyz : atMost key y z = true) :
    atMost key x z = true :=
  decide_eq_true (le_trans (of_decide_eq_true hxy) (of_decide_eq_true hyz))

theorem atMost_total (x y : α) : (atMost key x y || atMost key y x) = true := by
  rw [Bool.or_eq_true]
  exact (le_total (key x) (key y)).imp decide_eq_true decide_eq_true

theorem mergeSort_isSorted (xs : List α) : IsSorted key (xs.mergeSort (atMost key)) :=
  (List.pairwise_mergeSort atMost_trans atMost_total xs).imp of_decide_eq_true

/-- Merge sort keeps every class as a sublist, and it has no other items of the class. -/
theorem mergeSort_sameTies (xs : List α) : SameTies key (xs.mergeSort (atMost key)) xs := by
  intro k
  have hclass : (xs.filter (key · = k)).Pairwise fun x y => atMost key x y = true := by
    refine List.pairwise_of_forall_mem_list fun x hx y hy => ?_
    simp only [List.mem_filter, decide_eq_true_eq] at hx hy
    exact decide_eq_true (by rw [hx.2, hy.2])
  have hsublist := (List.sublist_mergeSort atMost_trans atMost_total hclass
    List.filter_sublist).filter (key · = k)
  rw [List.filter_filter] at hsublist
  simp only [Bool.and_self] at hsublist
  refine (hsublist.eq_of_length ?_).symm
  exact ((List.mergeSort_perm xs _).filter _).length_eq.symm

theorem eq_mergeSort (h : SameTies key xs ys) (hxs : IsSorted key xs) :
    xs = ys.mergeSort (atMost key) :=
  (h.trans fun k => (mergeSort_sameTies ys k).symm).eq hxs (mergeSort_isSorted ys)

/-- The items with the least key come first. -/
theorem IsSorted.eq_append_filter (hxs : IsSorted key xs) {k : κ} (hk : ∀ x ∈ xs, k ≤ key x) :
    xs = xs.filter (key · = k) ++ xs.filter (key · ≠ k) := by
  induction xs with
  | nil => rfl
  | cons x xs ih =>
    obtain ⟨hx, hxs'⟩ := List.pairwise_cons.1 hxs
    obtain ⟨hfirst, hrest⟩ := List.forall_mem_cons.1 hk
    by_cases hxk : key x = k
    · rw [List.filter_cons_of_pos (by simp [hxk]), List.filter_cons_of_neg (by simp [hxk]),
        List.cons_append, ← ih hxs' hrest]
    · have hnone : (x :: xs).filter (key · = k) = [] := by
        refine List.filter_eq_nil_iff.2 fun y hy hyk => ?_
        have hyk : key y = k := of_decide_eq_true hyk
        rcases List.mem_cons.1 hy with rfl | hy
        · exact hxk hyk
        · exact hxk (le_antisymm (hyk ▸ hx y hy) hfirst)
      have hall : (x :: xs).filter (key · ≠ k) = x :: xs := by
        refine List.filter_eq_self.2 fun y hy => ?_
        have hyk := List.filter_eq_nil_iff.1 hnone y hy
        simpa using hyk
      rw [hnone, hall, List.nil_append]

/-- Sorted lists with the same items begin with the same items of one key, in some order. -/
theorem exists_ties (hxs : IsSorted key xs) (hys : IsSorted key ys) (hperm : xs.Perm ys)
    (hne : xs ≠ []) : ∃ x more rest y more' rest', xs = x :: more ++ rest ∧ ys = y :: more' ++ rest' ∧
      (x :: more).Perm (y :: more') ∧ rest.Perm rest' ∧ ∀ z ∈ x :: more, key z = key x := by
  obtain ⟨x, xs, rfl⟩ := List.exists_cons_of_ne_nil hne
  have hleast : ∀ z ∈ x :: xs, key x ≤ key z := by
    intro z hz
    rcases List.mem_cons.1 hz with rfl | hz
    · exact le_refl _
    · exact (List.pairwise_cons.1 hxs).1 z hz
  have hleft := hxs.eq_append_filter hleast
  have hright := hys.eq_append_filter fun z hz => hleast z (hperm.mem_iff.2 hz)
  have hties := hperm.filter (key · = key x)
  rw [List.filter_cons_of_pos (by simp)] at hleft hties
  cases hfirst : ys.filter (key · = key x) with
  | nil =>
    rw [hfirst] at hties
    exact absurd hties.length_eq (by simp)
  | cons y more =>
    rw [hfirst] at hright hties
    refine ⟨x, _, _, y, more, _, hleft, hright, hties, hperm.filter _, fun z hz => ?_⟩
    rcases List.mem_cons.1 hz with rfl | hz
    · rfl
    · exact of_decide_eq_true (List.mem_filter.1 hz).2

theorem IsSorted.le_getLast? (hxs : IsSorted key xs) {x last : α} (hlast : last ∈ xs.getLast?)
    (hx : x ∈ xs) : key x ≤ key last := by
  obtain ⟨front, rfl⟩ := List.getLast?_eq_some_iff.1 hlast
  rcases List.mem_append.1 hx with hfront | hx
  · exact (List.pairwise_append.1 hxs).2.2 x hfront last List.mem_cons_self
  · rw [List.mem_singleton.1 hx]

theorem IsSorted.exists_getLast? (hxs : IsSorted key xs) (hx : x ∈ xs) :
    ∃ last ∈ xs.getLast?, key x ≤ key last := by
  obtain ⟨last, hlast⟩ := Option.isSome_iff_exists.1 (List.getLast?_isSome.2 (List.ne_nil_of_mem hx))
  exact ⟨last, hlast, hxs.le_getLast? hlast hx⟩

/-! ### Merging sorted lists -/

@[simp]
theorem merged_nil (xs : List α) : merged key xs [] = xs := List.merge_right xs

@[simp]
theorem nil_merged (ys : List α) : merged key [] ys = ys := List.nil_merge ys

theorem mem_merged : x ∈ merged key xs ys ↔ x ∈ xs ∨ x ∈ ys := List.mem_merge

theorem merged_cons_of_le (h : key x ≤ key y) :
    merged key (x :: xs) (y :: ys) = x :: merged key xs (y :: ys) := by
  have hle : atMost key x y = true := decide_eq_true h
  rw [merged, List.cons_merge_cons, if_pos hle, merged]

theorem merged_cons_of_lt (h : key y < key x) :
    merged key (x :: xs) (y :: ys) = y :: merged key (x :: xs) ys := by
  have hle : ¬ atMost key x y = true := by simpa [atMost] using h
  rw [merged, List.cons_merge_cons, if_neg hle, merged]

theorem merged_isSorted (hxs : IsSorted key xs) (hys : IsSorted key ys) :
    IsSorted key (merged key xs ys) :=
  (List.pairwise_merge atMost_trans atMost_total xs ys (hxs.imp decide_eq_true)
    (hys.imp decide_eq_true)).imp of_decide_eq_true

theorem merged_sameTies (hxs : IsSorted key xs) (ys : List α) :
    SameTies key (merged key xs ys) (xs ++ ys) := by
  intro k
  induction xs generalizing ys with
  | nil => rw [nil_merged, List.nil_append]
  | cons x xs ihx =>
    obtain ⟨hx, hxs'⟩ := List.pairwise_cons.1 hxs
    induction ys with
    | nil => rw [merged_nil, List.append_nil]
    | cons y ys ihy =>
      rcases le_or_gt (key x) (key y) with hle | hlt
      · rw [merged_cons_of_le hle, List.cons_append, List.filter_cons, List.filter_cons,
          ihx hxs' (y :: ys)]
      · rw [merged_cons_of_lt hlt, List.filter_append, List.filter_cons, ihy, List.filter_append,
          List.filter_cons (x := y)]
        split
        · -- All items on the left are above this one, so none has its key.
          rename_i hy
          have hnone : (x :: xs).filter (key · = k) = [] := by
            refine List.filter_eq_nil_iff.2 fun z hz hzk => ?_
            have hxz : key x ≤ key z := by
              rcases List.mem_cons.1 hz with rfl | hz
              · exact le_rfl
              · exact hx z hz
            rw [of_decide_eq_true hzk, ← of_decide_eq_true hy] at hxz
            exact absurd hlt (not_lt.2 hxz)
          rw [hnone, List.nil_append, List.nil_append]
        · rfl

/-! Blocks at the ends of merged lists. -/

theorem merged_append_left (h : ∀ x ∈ xs, ∀ z ∈ zs.head?, key x ≤ key z) :
    merged key (xs ++ ys) zs = xs ++ merged key ys zs := by
  induction xs with
  | nil => rfl
  | cons x xs ih =>
    obtain ⟨hx, hxs⟩ := List.forall_mem_cons.1 h
    cases zs with
    | nil => simp
    | cons z zs => rw [List.cons_append, merged_cons_of_le (hx z rfl), ih hxs, List.cons_append]

theorem merged_append_right (h : ∀ y ∈ ys, ∀ x ∈ xs.head?, key y < key x) :
    merged key xs (ys ++ zs) = ys ++ merged key xs zs := by
  induction ys with
  | nil => rfl
  | cons y ys ih =>
    obtain ⟨hy, hys⟩ := List.forall_mem_cons.1 h
    cases xs with
    | nil => simp
    | cons x xs => rw [List.cons_append, merged_cons_of_lt (hy x rfl), ih hys, List.cons_append]

theorem merged_left_append (h : ∀ y ∈ ys, ∀ z ∈ zs, key z < key y) :
    merged key (xs ++ ys) zs = merged key xs zs ++ ys := by
  induction xs generalizing zs with
  | nil =>
    have hall : merged key ys (zs ++ []) = zs ++ merged key ys [] :=
      merged_append_right fun z hz y hy => h y (List.mem_of_mem_head? hy) z hz
    rw [List.append_nil, merged_nil] at hall
    rw [List.nil_append, nil_merged, hall]
  | cons x xs ihx =>
    induction zs with
    | nil => rw [merged_nil, merged_nil]
    | cons z zs ihz =>
      rw [List.cons_append]
      rcases le_or_gt (key x) (key z) with hle | hlt
      · rw [merged_cons_of_le hle, merged_cons_of_le hle, ihx h, List.cons_append]
      · have hzs := ihz fun y hy z hz => h y hy z (List.mem_cons_of_mem _ hz)
        rw [merged_cons_of_lt hlt, merged_cons_of_lt hlt, ← List.cons_append, hzs, List.cons_append]

theorem merged_right_append (h : ∀ z ∈ zs, ∀ x ∈ xs, key x ≤ key z) :
    merged key xs (ys ++ zs) = merged key xs ys ++ zs := by
  induction ys generalizing xs with
  | nil =>
    have hall : merged key (xs ++ []) zs = xs ++ merged key [] zs :=
      merged_append_left fun x hx z hz => h z (List.mem_of_mem_head? hz) x hx
    rw [List.append_nil, nil_merged] at hall
    rw [List.nil_append, merged_nil, hall]
  | cons y ys ihy =>
    induction xs with
    | nil => rw [nil_merged, nil_merged]
    | cons x xs ihx =>
      rw [List.cons_append]
      rcases le_or_gt (key x) (key y) with hle | hlt
      · have hxs := ihx fun z hz x hx => h z hz x (List.mem_cons_of_mem _ hx)
        rw [merged_cons_of_le hle, merged_cons_of_le hle, ← List.cons_append, hxs, List.cons_append]
      · rw [merged_cons_of_lt hlt, merged_cons_of_lt hlt, ihy h, List.cons_append]

/-- Items on the right that are all below those on the left come first. -/
theorem merged_eq_append (h : ∀ y ∈ ys, ∀ x ∈ xs, key y < key x) : merged key xs ys = ys ++ xs := by
  have hfirst : merged key xs (ys ++ []) = ys ++ merged key xs [] :=
    merged_append_right fun y hy x hx => h y hy x (List.mem_of_mem_head? hx)
  rwa [List.append_nil, merged_nil] at hfirst

/-- What two sorted lists have around the part in which they overlap stays where it is. -/
theorem merged_around {before left right after : List α}
    (hbefore : ∀ x ∈ before, ∀ y ∈ (right ++ after).head?, key x ≤ key y)
    (hafter : ∀ y ∈ after, ∀ x ∈ left, key x ≤ key y) :
    merged key (before ++ left) (right ++ after) = before ++ merged key left right ++ after := by
  rw [merged_append_left hbefore, merged_right_append hafter, List.append_assoc]

end Montage.Sorting
