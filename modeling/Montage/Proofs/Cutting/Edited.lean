import Mathlib.Data.List.Perm.Basic
import Mathlib.Logic.Equiv.Basic
import Montage.Proofs.Cutting.Merged
import Montage.Proofs.Cutting.Numbered

/-!
# Editing a list of clips

Clips are reordered, swapped, removed and numbered by their positions, in any sequence. Beside the list
stands what was taken out of it: the clips of both are the merged clips, each once, and the list is
numbered from one on (`MergeRule.merge_isEditable`). What each edit does is said position by position.
Two numbered lists are equal as soon as their clips are, whatever numbers these had (`eq_of_unnumbered`),
so that no law of an edit has to follow the numbers.
-/

namespace Montage.Cutting

variable {cuts cuts' : List Cut} {order order' : List Int} {position offset : Int}

/-- A clip without its number: its start, its end and its segments. -/
def Cut.unnumbered (c : Cut) : Cut := { c with index := 0 }

def IsNumbered (cuts : List Cut) : Prop := cuts.map (·.index) = positions cuts.length

/-- Each position of a list with so many entries is named once, and nothing else is named. -/
def IsArrangement (order : List Int) (count : Nat) : Prop :=
  ∀ position, order.count position = if 1 ≤ position ∧ position ≤ count then 1 else 0

/-- The order that puts positions first into one order and then into another. -/
def composed (first second : List Int) : List Int := second.filterMap (atPosition? first)

inductive Edit where
  | reorder (order : List Int)
  | move (position offset : Int)
  | remove (position : Int)
  | renumber

namespace Edit

def apply (cuts : List Cut) : Edit → Except Fault (List Cut)
  | reorder order => Cutting.reorder cuts order
  | move position offset => .ok (Cutting.move cuts position offset)
  | remove position => Cutting.remove cuts position
  | renumber => .ok (Cutting.renumber cuts)

/-- The list after an edit, which is as before when the edit is refused. -/
def after (cuts : List Cut) (edit : Edit) : List Cut :=
  match edit.apply cuts with
  | .ok cuts' => cuts'
  | .error _ => cuts

/-- What an edit takes out of a list. -/
def taken (cuts : List Cut) : Edit → List Cut
  | remove position => (atPosition? cuts position).toList
  | reorder _ | move _ _ | renumber => []

/-- What a sequence of edits takes out, one after the other. -/
def removed (cuts : List Cut) : List Edit → List Cut
  | [] => []
  | edit :: rest => edit.taken cuts ++ removed (edit.after cuts) rest

end Edit

/-! ### Positions -/

theorem atPosition?_succ {α : Type} (items : List α) (i : Nat) :
    atPosition? items (i + 1) = items[i]? := by
  rw [atPosition?, if_neg (by omega)]
  congr 1

theorem atPosition?_eq_none {α : Type} {items : List α} (h : ¬ (1 ≤ position ∧ position ≤ items.length)) :
    atPosition? items position = none := by
  by_cases hlow : position < 1
  · exact if_pos hlow
  · obtain ⟨i, rfl⟩ : ∃ i : Nat, position = i + 1 := ⟨(position - 1).toNat, by omega⟩
    rw [atPosition?_succ]
    exact List.getElem?_eq_none (by omega)

/-- A position in range, as a place from zero on. -/
theorem exists_place {count : Nat} (h : 1 ≤ position ∧ position ≤ count) :
    ∃ i : Nat, i < count ∧ position = i + 1 :=
  ⟨(position - 1).toNat, by omega, by omega⟩

theorem inRange_iff : inRange cuts position = true ↔ 1 ≤ position ∧ position ≤ cuts.length := by
  simp [inRange]

theorem isArrangement_iff {count : Nat} : IsArrangement order count ↔ order.Perm (positions count) := by
  have hcount (position : Int) :
      (positions count).count position = if 1 ≤ position ∧ position ≤ count then 1 else 0 := by
    have hnodup : (positions count).Nodup :=
      List.Nodup.map (fun _ _ => Int.ofNat.inj) (List.nodup_range' 1)
    have hmem : position ∈ positions count ↔ 1 ≤ position ∧ position ≤ count := by
      constructor
      · intro h
        obtain ⟨n, hn, rfl⟩ := List.mem_map.1 h
        have hbounds := List.mem_range'_1.1 hn
        rw [Int.ofNat_eq_natCast]
        omega
      · intro h
        obtain ⟨i, hi, rfl⟩ := exists_place h
        exact List.mem_map.2 ⟨i + 1, List.mem_range'_1.2 (by omega), by simp⟩
    rw [hnodup.count]
    simp only [hmem]
  rw [List.perm_iff_count]
  exact forall_congr' fun position => by rw [hcount]

/-! ### Numbers -/

theorem length_renumber (cuts : List Cut) : (renumber cuts).length = cuts.length := by
  simp [renumber]

theorem isNumbered_renumber (cuts : List Cut) : IsNumbered (renumber cuts) :=
  MergeRule.map_index_renumber cuts

theorem unnumbered_renumber (cuts : List Cut) :
    (renumber cuts).map Cut.unnumbered = cuts.map Cut.unnumbered := by
  conv_rhs => rw [← List.zipIdx_map_fst 1 cuts, List.map_map]
  rw [renumber, List.map_map]
  rfl

theorem eq_of_unnumbered (h : IsNumbered cuts) (h' : IsNumbered cuts')
    (hsame : cuts.map Cut.unnumbered = cuts'.map Cut.unnumbered) : cuts = cuts' := by
  have hlength : cuts.length = cuts'.length := by simpa using congrArg List.length hsame
  have hindex : cuts.map (·.index) = cuts'.map (·.index) := by rw [h, h', hlength]
  apply List.ext_getElem hlength
  intro i hi hi'
  have hbody : (cuts[i]).unnumbered = (cuts'[i]).unnumbered := by
    simpa [hi, hi'] using congrArg (·[i]?) hsame
  have hnumber : (cuts[i]).index = (cuts'[i]).index := by
    simpa [hi, hi'] using congrArg (·[i]?) hindex
  calc cuts[i] = { (cuts[i]).unnumbered with index := (cuts[i]).index } := rfl
    _ = { (cuts'[i]).unnumbered with index := (cuts'[i]).index } := by rw [hbody, hnumber]
    _ = cuts'[i] := rfl

theorem renumber_eq (h : IsNumbered cuts) : renumber cuts = cuts :=
  eq_of_unnumbered (isNumbered_renumber cuts) h (unnumbered_renumber cuts)

theorem isNumbered_merge (rule : MergeRule) (segments : List Segment) :
    IsNumbered (rule.merge segments) := by
  unfold MergeRule.merge
  split
  · rfl
  · exact isNumbered_renumber _

/-- A numbered list is known once its clips are, position by position. -/
theorem atPosition?_numbered (h : IsNumbered cuts) (pick : Int → Option Cut)
    (hpick : (atPosition? cuts position).map Cut.unnumbered = (pick position).map Cut.unnumbered) :
    atPosition? cuts position = (pick position).map fun c => { c with index := position } := by
  by_cases hrange : 1 ≤ position ∧ position ≤ cuts.length
  · obtain ⟨i, hi, rfl⟩ := exists_place hrange
    rw [atPosition?_succ, List.getElem?_eq_getElem hi] at hpick ⊢
    obtain ⟨c, hc, hbody⟩ := Option.map_eq_some_iff.1 hpick.symm
    have hnumber : (cuts[i]).index = i + 1 := by
      have hat : (cuts.map (·.index))[i]? = (positions cuts.length)[i]? := by rw [h]
      simpa [positions, hi, Int.add_comm] using hat
    rw [hc, Option.map_some]
    congr 1
    calc cuts[i] = { (cuts[i]).unnumbered with index := (cuts[i]).index } := rfl
      _ = { c.unnumbered with index := (i : Int) + 1 } := by rw [hbody, hnumber]
      _ = { c with index := (i : Int) + 1 } := rfl
  · rw [atPosition?_eq_none hrange] at hpick ⊢
    rw [Option.map_eq_none_iff.1 hpick.symm]
    rfl

/-! ### Orders -/

theorem filterMap_range_getElem? {α : Type} (items : List α) :
    (List.range items.length).filterMap (items[·]?) = items := by
  induction items with
  | nil => rfl
  | cons item rest ih =>
    rw [List.length_cons, List.range_succ_eq_map, List.filterMap_cons, List.filterMap_map]
    exact congrArg (item :: ·) ih

theorem filterMap_positions {α : Type} (items : List α) :
    (positions items.length).filterMap (atPosition? items) = items := by
  rw [positions, List.range'_eq_map_range, List.map_map, List.filterMap_map]
  conv_rhs => rw [← filterMap_range_getElem? items]
  apply List.filterMap_congr
  intro i _
  rw [← atPosition?_succ]
  simp [Int.add_comm]

theorem perm_picked {α : Type} {items : List α} (h : IsArrangement order items.length) :
    (order.filterMap (atPosition? items)).Perm items := by
  have hpicked := (isArrangement_iff.1 h).filterMap (atPosition? items)
  rwa [filterMap_positions] at hpicked

theorem atPosition?_picked {α : Type} {pick : Int → Option α}
    (hpick : ∀ position ∈ order, (pick position).isSome) (position : Int) :
    atPosition? (order.filterMap pick) position = (atPosition? order position).bind pick := by
  have hplace (i : Nat) : (order.filterMap pick)[i]? = order[i]?.bind pick := by
    induction order generalizing i with
    | nil => rfl
    | cons first rest ih =>
      obtain ⟨hfirst, hrest⟩ := List.forall_mem_cons.1 hpick
      obtain ⟨item, hitem⟩ := Option.isSome_iff_exists.1 hfirst
      rw [List.filterMap_cons_some hitem]
      cases i with
      | zero => exact hitem.symm
      | succ i => exact ih hrest i
  unfold atPosition?
  split
  · rfl
  · exact hplace _

theorem reorder_eq_ok_iff : reorder cuts order = .ok cuts' ↔
    IsArrangement order cuts.length ∧ renumber (order.filterMap (atPosition? cuts)) = cuts' := by
  rw [isArrangement_iff, ← List.isPerm_iff]
  unfold reorder
  split
  · rename_i hperm
    rw [Outcome.pure_eq_ok]
    exact ⟨fun h => ⟨hperm, h⟩, And.right⟩
  · rename_i hperm
    exact ⟨fun h => (nomatch h), fun h => absurd h.1 hperm⟩

theorem isOk_reorder : (reorder cuts order).isOk = true ↔ IsArrangement order cuts.length := by
  constructor
  · intro h
    cases hrun : reorder cuts order with
    | ok cuts' => exact (reorder_eq_ok_iff.1 hrun).1
    | error fault =>
      rw [hrun] at h
      cases h
  · intro h
    rw [reorder_eq_ok_iff.2 ⟨h, rfl⟩]
    rfl

theorem atPosition?_reorder (h : reorder cuts order = .ok cuts') (position : Int) :
    atPosition? cuts' position =
      ((atPosition? order position).bind (atPosition? cuts)).map fun c => { c with index := position } := by
  obtain ⟨horder, rfl⟩ := reorder_eq_ok_iff.1 h
  have hpick (position : Int) : position ∈ order → (atPosition? cuts position).isSome :=
    isSome_atPosition? (isArrangement_iff.1 horder)
  apply atPosition?_numbered (isNumbered_renumber _)
    (fun position => (atPosition? order position).bind (atPosition? cuts))
  rw [← atPosition?_map, unnumbered_renumber, atPosition?_map, atPosition?_picked hpick]

theorem reorder_composed {first second : List Int} {cuts₁ cuts₂ : List Cut}
    (h₁ : reorder cuts first = .ok cuts₁) (h₂ : reorder cuts₁ second = .ok cuts₂) :
    reorder cuts (composed first second) = .ok cuts₂ := by
  have hlength := length_of_reorder h₁
  obtain ⟨hfirst, rfl⟩ := reorder_eq_ok_iff.1 h₁
  obtain ⟨hsecond, rfl⟩ := reorder_eq_ok_iff.1 h₂
  rw [hlength] at hsecond
  have hcount : first.length = cuts.length := by
    simpa [positions] using (isArrangement_iff.1 hfirst).length_eq
  apply reorder_eq_ok_iff.2
  constructor
  · rw [← hcount] at hsecond
    exact isArrangement_iff.2 ((perm_picked hsecond).trans (isArrangement_iff.1 hfirst))
  · apply eq_of_unnumbered (isNumbered_renumber _) (isNumbered_renumber _)
    have hpick (position : Int) : position ∈ first → (atPosition? cuts position).isSome :=
      isSome_atPosition? (isArrangement_iff.1 hfirst)
    rw [unnumbered_renumber, unnumbered_renumber, composed, List.filterMap_filterMap,
      List.map_filterMap, List.map_filterMap]
    apply List.filterMap_congr
    intro position _
    rw [← atPosition?_map, unnumbered_renumber, atPosition?_map, atPosition?_picked hpick]

/-! ### Swaps -/

theorem move_of_inRange (h : 1 ≤ position ∧ position ≤ cuts.length)
    (h' : 1 ≤ position + offset ∧ position + offset ≤ cuts.length) :
    move cuts position offset =
      renumber (swap cuts (position.toNat - 1) ((position + offset).toNat - 1)) :=
  if_pos (by rw [inRange_iff.2 h, inRange_iff.2 h']; rfl)

theorem move_of_not_inRange (h : ¬ ((1 ≤ position ∧ position ≤ cuts.length) ∧
    1 ≤ position + offset ∧ position + offset ≤ cuts.length)) : move cuts position offset = cuts :=
  if_neg fun hboth => by
    rw [Bool.and_eq_true, inRange_iff, inRange_iff] at hboth
    exact h hboth

theorem swap_map {α β : Type} (f : α → β) (items : List α) (i j : Nat) :
    (swap items i j).map f = swap (items.map f) i j := by
  unfold swap
  rw [List.getElem?_map, List.getElem?_map]
  cases items[i]? <;> cases items[j]? <;> simp [List.map_set]

section

variable {α : Type} {items : List α} {i j : Nat}

theorem swap_eq (hi : i < items.length) (hj : j < items.length) :
    swap items i j = (items.set i items[j]).set j items[i] := by
  rw [swap, List.getElem?_eq_getElem hi, List.getElem?_eq_getElem hj]

theorem perm_swap (hi : i < items.length) (hj : j < items.length) : (swap items i j).Perm items := by
  rw [swap_eq hi hj]
  exact List.set_set_perm hi hj

theorem getElem?_swap (hi : i < items.length) (hj : j < items.length) (k : Nat) :
    (swap items i j)[k]? = items[Equiv.swap i j k]? := by
  rw [swap_eq hi hj, Equiv.swap_apply_def]
  grind

theorem swap_swap (hi : i < items.length) (hj : j < items.length) :
    swap (swap items i j) j i = items := by
  have hlength := (perm_swap hi hj).length_eq
  apply List.ext_getElem?
  intro k
  rw [getElem?_swap (hlength ▸ hj) (hlength ▸ hi), getElem?_swap hi hj, Equiv.swap_comm j i,
    Equiv.swap_apply_self]

end

theorem atPosition?_swap {α : Type} {items : List α} {i j : Nat} (hi : i < items.length)
    (hj : j < items.length) (position : Int) :
    atPosition? (swap items i j) position =
      atPosition? items (Equiv.swap ((i : Int) + 1) (j + 1) position) := by
  by_cases hlow : 1 ≤ position
  · obtain ⟨k, rfl⟩ : ∃ k : Nat, position = k + 1 := ⟨(position - 1).toNat, by omega⟩
    have hcast : Equiv.swap ((i : Int) + 1) (j + 1) (k + 1) = (Equiv.swap i j k : Nat) + 1 := by
      simp only [Equiv.swap_apply_def]
      split_ifs <;> omega
    rw [hcast, atPosition?_succ, atPosition?_succ, getElem?_swap hi hj]
  · rw [Equiv.swap_apply_of_ne_of_ne (by omega) (by omega), atPosition?_eq_none (by omega),
      atPosition?_eq_none (by omega)]

theorem atPosition?_move (h : 1 ≤ position ∧ position ≤ cuts.length)
    (h' : 1 ≤ position + offset ∧ position + offset ≤ cuts.length) (k : Int) :
    atPosition? (move cuts position offset) k =
      (atPosition? cuts (Equiv.swap position (position + offset) k)).map
        fun c => { c with index := k } := by
  rw [move_of_inRange h h']
  obtain ⟨i, hi, rfl⟩ := exists_place h
  obtain ⟨j, hj, htarget⟩ := exists_place h'
  rw [htarget]
  apply atPosition?_numbered (isNumbered_renumber _)
    (fun k => atPosition? cuts (Equiv.swap ((i : Int) + 1) (j + 1) k))
  rw [← atPosition?_map, unnumbered_renumber, atPosition?_map]
  simp only [Int.toNat_natCast_add_one, Nat.add_sub_cancel]
  rw [atPosition?_swap hi hj]

theorem move_move (hnumbered : IsNumbered cuts) (h : 1 ≤ position ∧ position ≤ cuts.length)
    (h' : 1 ≤ position + offset ∧ position + offset ≤ cuts.length) :
    move (move cuts position offset) (position + offset) (-offset) = cuts := by
  have hback : position + offset + -offset = position := by omega
  rw [move_of_inRange h h']
  obtain ⟨i, hi, rfl⟩ := exists_place h
  obtain ⟨j, hj, htarget⟩ := exists_place h'
  rw [htarget] at hback ⊢
  simp only [Int.toNat_natCast_add_one, Nat.add_sub_cancel]
  have hlength : (renumber (swap cuts i j)).length = cuts.length := by
    rw [length_renumber, (perm_swap hi hj).length_eq]
  rw [move_of_inRange (by rw [hlength]; omega) (by rw [hlength, hback]; omega), hback]
  simp only [Int.toNat_natCast_add_one, Nat.add_sub_cancel]
  apply eq_of_unnumbered (isNumbered_renumber _) hnumbered
  rw [unnumbered_renumber, swap_map, unnumbered_renumber, ← swap_map, swap_swap hi hj]

/-! ### Removals -/

theorem remove_eq_ok_iff : remove cuts position = .ok cuts' ↔
    (1 ≤ position ∧ position ≤ cuts.length) ∧
      renumber (cuts.eraseIdx (position.toNat - 1)) = cuts' := by
  rw [← inRange_iff]
  unfold remove
  split
  · rename_i hrange
    rw [Outcome.pure_eq_ok]
    exact ⟨fun h => ⟨hrange, h⟩, And.right⟩
  · rename_i hrange
    exact ⟨fun h => (nomatch h), fun h => absurd h.1 hrange⟩

theorem isOk_remove : (remove cuts position).isOk = true ↔ 1 ≤ position ∧ position ≤ cuts.length := by
  constructor
  · intro h
    cases hrun : remove cuts position with
    | ok cuts' => exact (remove_eq_ok_iff.1 hrun).1
    | error fault =>
      rw [hrun] at h
      cases h
  · intro h
    rw [remove_eq_ok_iff.2 ⟨h, rfl⟩]
    rfl

theorem atPosition?_remove (h : remove cuts position = .ok cuts') (k : Int) :
    atPosition? cuts' k =
      (atPosition? cuts (if k < position then k else k + 1)).map fun c => { c with index := k } := by
  obtain ⟨hrange, rfl⟩ := remove_eq_ok_iff.1 h
  obtain ⟨i, hi, rfl⟩ := exists_place hrange
  apply atPosition?_numbered (isNumbered_renumber _)
    (fun k => atPosition? cuts (if k < i + 1 then k else k + 1))
  rw [← atPosition?_map, unnumbered_renumber, atPosition?_map]
  congr 1
  simp only [Int.toNat_natCast_add_one, Nat.add_sub_cancel]
  by_cases hlow : 1 ≤ k
  · obtain ⟨k, rfl⟩ : ∃ n : Nat, k = n + 1 := ⟨(k - 1).toNat, by omega⟩
    rw [atPosition?_succ, List.getElem?_eraseIdx]
    by_cases hbefore : k < i
    · rw [if_pos hbefore, if_pos (by omega), atPosition?_succ]
    · rw [if_neg hbefore, if_neg (by omega), ← atPosition?_succ, Int.natCast_add, Int.natCast_one]
  · rw [if_pos (by omega), atPosition?_eq_none (by omega), atPosition?_eq_none (by omega)]

/-! ### Sequences of edits -/

namespace Edit

/-- An edit that is made numbers the clips, and takes out or keeps each of them. -/
theorem apply_eq_ok {edit : Edit} (hnumbered : IsNumbered cuts) (h : edit.apply cuts = .ok cuts') :
    IsNumbered cuts' ∧
      ((cuts' ++ edit.taken cuts).map Cut.unnumbered).Perm (cuts.map Cut.unnumbered) := by
  cases edit with
  | reorder order =>
    obtain ⟨horder, rfl⟩ := reorder_eq_ok_iff.1 h
    refine ⟨isNumbered_renumber _, ?_⟩
    rw [taken, List.append_nil, unnumbered_renumber]
    exact (perm_picked horder).map _
  | move position offset =>
    cases h
    by_cases hrange : (1 ≤ position ∧ position ≤ cuts.length) ∧
        1 ≤ position + offset ∧ position + offset ≤ cuts.length
    · rw [move_of_inRange hrange.1 hrange.2]
      refine ⟨isNumbered_renumber _, ?_⟩
      rw [taken, List.append_nil, unnumbered_renumber]
      exact (perm_swap (by omega) (by omega)).map _
    · rw [move_of_not_inRange hrange]
      exact ⟨hnumbered, by rw [taken, List.append_nil]⟩
  | remove position =>
    obtain ⟨hrange, rfl⟩ := remove_eq_ok_iff.1 h
    obtain ⟨i, hi, rfl⟩ := exists_place hrange
    refine ⟨isNumbered_renumber _, ?_⟩
    rw [taken, atPosition?_succ, List.getElem?_eq_getElem hi, List.map_append, unnumbered_renumber,
      Int.toNat_natCast_add_one, Nat.add_sub_cancel, ← List.map_append]
    apply List.Perm.map
    exact List.perm_append_comm.trans (List.getElem_cons_eraseIdx_perm hi)
  | renumber =>
    cases h
    refine ⟨isNumbered_renumber _, ?_⟩
    rw [taken, List.append_nil, unnumbered_renumber]

theorem after_keeps (hnumbered : IsNumbered cuts) (edit : Edit) : IsNumbered (edit.after cuts) ∧
    ((edit.after cuts ++ edit.taken cuts).map Cut.unnumbered).Perm (cuts.map Cut.unnumbered) := by
  unfold after
  split
  · rename_i cuts' happly
    exact apply_eq_ok hnumbered happly
  · rename_i fault happly
    refine ⟨hnumbered, ?_⟩
    -- Only a removal takes anything, and one that is refused names no clip.
    have hnone : edit.taken cuts = [] := by
      cases edit with
      | remove position =>
        have hrange : ¬ (1 ≤ position ∧ position ≤ cuts.length) := fun hrange => by
          rw [apply, remove_eq_ok_iff.2 ⟨hrange, rfl⟩] at happly
          cases happly
        rw [taken, atPosition?_eq_none hrange]
        rfl
      | _ => rfl
    rw [hnone, List.append_nil]

/-- Over a whole sequence of edits, what they take out and what they leave are the clips there were. -/
theorem foldl_after_keeps (edits : List Edit) (hnumbered : IsNumbered cuts) :
    IsNumbered (edits.foldl after cuts) ∧
      ((edits.foldl after cuts ++ removed cuts edits).map Cut.unnumbered).Perm
        (cuts.map Cut.unnumbered) := by
  induction edits generalizing cuts with
  | nil => exact ⟨hnumbered, by rw [removed, List.append_nil]; rfl⟩
  | cons edit rest ih =>
    obtain ⟨hnumbered', hfirst⟩ := after_keeps hnumbered edit
    obtain ⟨hlast, hrest⟩ := ih hnumbered'
    refine ⟨hlast, ?_⟩
    have hmoved : (rest.foldl after (edit.after cuts) ++
        (edit.taken cuts ++ removed (edit.after cuts) rest)).Perm
          (rest.foldl after (edit.after cuts) ++ removed (edit.after cuts) rest ++ edit.taken cuts) := by
      rw [List.append_assoc]
      exact List.perm_append_comm.append_left _
    calc List.Perm ((rest.foldl after (edit.after cuts) ++
          (edit.taken cuts ++ removed (edit.after cuts) rest)).map Cut.unnumbered)
          ((rest.foldl after (edit.after cuts) ++ removed (edit.after cuts) rest).map Cut.unnumbered ++
            (edit.taken cuts).map Cut.unnumbered) := by
          rw [← List.map_append]
          exact hmoved.map _
      List.Perm _ ((edit.after cuts ++ edit.taken cuts).map Cut.unnumbered) := by
          simpa only [List.map_append] using hrest.append_right _
      List.Perm _ (cuts.map Cut.unnumbered) := hfirst

end Edit

/-- What each edit of a list does, position by position. -/
structure IsEditable (cuts : List Cut) : Prop where
  reorder_isOk : ∀ order, (reorder cuts order).isOk = true ↔ IsArrangement order cuts.length
  reorder_places : ∀ order cuts', reorder cuts order = .ok cuts' → ∀ k, atPosition? cuts' k =
    ((atPosition? order k).bind (atPosition? cuts)).map fun c => { c with index := k }
  reorder_twice : ∀ first second cuts₁ cuts₂, reorder cuts first = .ok cuts₁ →
    reorder cuts₁ second = .ok cuts₂ → reorder cuts (composed first second) = .ok cuts₂
  move_swaps : ∀ position offset : Int, 1 ≤ position ∧ position ≤ cuts.length →
    1 ≤ position + offset ∧ position + offset ≤ cuts.length → ∀ k,
      atPosition? (move cuts position offset) k =
        (atPosition? cuts (Equiv.swap position (position + offset) k)).map
          fun c => { c with index := k }
  move_back : ∀ position offset : Int, 1 ≤ position ∧ position ≤ cuts.length →
    1 ≤ position + offset ∧ position + offset ≤ cuts.length →
      move (move cuts position offset) (position + offset) (-offset) = cuts
  move_outside : ∀ position offset : Int, ¬ ((1 ≤ position ∧ position ≤ cuts.length) ∧
    1 ≤ position + offset ∧ position + offset ≤ cuts.length) → move cuts position offset = cuts
  remove_isOk : ∀ position : Int,
    (remove cuts position).isOk = true ↔ 1 ≤ position ∧ position ≤ cuts.length
  remove_shifts : ∀ position cuts', remove cuts position = .ok cuts' → ∀ k, atPosition? cuts' k =
    (atPosition? cuts (if k < position then k else k + 1)).map fun c => { c with index := k }
  renumber_same : renumber cuts = cuts
  refused_same : ∀ edit : Edit, (edit.apply cuts).isOk = false → edit.after cuts = cuts

theorem isEditable_of_isNumbered (h : IsNumbered cuts) : IsEditable cuts where
  reorder_isOk _ := isOk_reorder
  reorder_places _ _ hrun := atPosition?_reorder hrun
  reorder_twice _ _ _ _ := reorder_composed
  move_swaps _ _ := atPosition?_move
  move_back _ _ := move_move h
  move_outside _ _ := move_of_not_inRange
  remove_isOk _ := isOk_remove
  remove_shifts _ _ hrun := atPosition?_remove hrun
  renumber_same := renumber_eq h
  refused_same edit hrun := by
    unfold Edit.after
    split
    · rename_i cuts' happly
      rw [happly] at hrun
      cases hrun
    · rfl

/-- Whatever is done to the merged clips, the list stays numbered and can be edited by these laws, and
with what was taken out it is the merged clips, each once. -/
theorem MergeRule.merge_isEditable (rule : MergeRule) (segments : List Segment) (edits : List Edit) :
    IsNumbered (edits.foldl Edit.after (rule.merge segments)) ∧
      ((edits.foldl Edit.after (rule.merge segments) ++
          Edit.removed (rule.merge segments) edits).map Cut.unnumbered).Perm
        ((rule.merge segments).map Cut.unnumbered) ∧
      IsEditable (edits.foldl Edit.after (rule.merge segments)) := by
  obtain ⟨hnumbered, hkept⟩ := Edit.foldl_after_keeps edits (isNumbered_merge rule segments)
  exact ⟨hnumbered, hkept, isEditable_of_isNumbered hnumbered⟩

end Montage.Cutting
