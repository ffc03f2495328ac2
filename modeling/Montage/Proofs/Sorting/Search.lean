import Mathlib.Order.Lattice
import Montage.Sorting.Merge

/-!
# Searching for a border

Where the items of an array fall into those before and those behind something, bisection and
galloping find the border (`bisect_eq`, `gallop_eq`).
-/

namespace Montage.Sorting

variable {α : Type} {behind : α → Id Bool} {items : Array α} {border : Nat}

/-- The items from a place on are behind, and those before it are not. -/
structure IsBorder (behind : α → Id Bool) (items : Array α) (border : Nat) : Prop where
  le_size : border ≤ items.size
  behind_eq : ∀ i x, items[i]? = some x → (behind x).run = decide (border ≤ i)

namespace IsBorder

variable (h : IsBorder behind items border)
include h

theorem itemAt_eq (n : Nat) :
    (itemAt items n behind).run = (decide (border ≤ n) && decide (n < items.size)) := by
  unfold itemAt
  cases hitem : items[n]? with
  | none =>
    have hsize : items.size ≤ n := Array.getElem?_eq_none_iff.1 hitem
    simp [hsize]
  | some x =>
    obtain ⟨hsize, -⟩ := Array.getElem?_eq_some_iff.1 hitem
    simp [h.behind_eq n x hitem, hsize]

theorem itemAt_not_eq (n : Nat) :
    (itemAt items n fun x => return !(← behind x) : Id Bool).run = decide (n < border) := by
  have hle := h.le_size
  unfold itemAt
  cases hitem : items[n]? with
  | none =>
    have hsize : items.size ≤ n := Array.getElem?_eq_none_iff.1 hitem
    have hborder : ¬ n < border := by omega
    simp [hborder]
  | some x =>
    simp [h.behind_eq n x hitem, ← decide_not]

/-- Bisection halves an interval around the border. -/
theorem bisect_eq {steps low high : Nat} (hlow : low ≤ border) (hhigh : border ≤ high)
    (hsize : high ≤ items.size) (hsteps : high - low ≤ steps) :
    (bisect behind items steps low high).run = border := by
  induction steps generalizing low high with
  | zero =>
    have hsame : low = border := by omega
    simpa [bisect] using hsame
  | succ steps ih =>
    unfold bisect
    by_cases hdone : high ≤ low
    · have hsame : low = border := by omega
      rw [if_pos hdone]
      exact hsame
    · have hmiddle : low + (high - low) / 2 < high := by omega
      have hitem : items[low + (high - low) / 2]? = some items[low + (high - low) / 2] :=
        Array.getElem?_eq_getElem (by omega)
      rw [if_neg hdone]
      simp only [hitem, Id.run_bind, h.behind_eq _ _ hitem, decide_eq_true_eq]
      split
      · exact ih hlow (by omega) (by omega) (by omega)
      · exact ih (by omega) hhigh hsize (by omega)

end IsBorder

/-- Strides go on while they may: the last one may, and the one after it may not or is the limit. -/
theorem strides_spec {goesOn : Nat → Id Bool} {limit fuel last stride : Nat} {found : Nat × Nat}
    (hfound : (strides goesOn limit fuel last stride).run = found) (hfuel : limit ≤ fuel + stride) :
    (found.1 = last ∨ (goesOn found.1).run = true) ∧
      (found.2 = limit ∨ found.2 < limit ∧ (goesOn found.2).run = false) := by
  subst hfound
  induction fuel generalizing last stride with
  | zero => exact ⟨.inl rfl, .inl (min_eq_right (by omega))⟩
  | succ fuel ih =>
    unfold strides
    by_cases hlimit : limit ≤ stride
    · rw [if_pos hlimit]
      exact ⟨.inl rfl, .inl rfl⟩
    · rw [if_neg hlimit]
      simp only [Id.run_bind]
      cases hgoes : (goesOn stride).run with
      | true =>
        rw [if_pos rfl]
        obtain ⟨hlast, hstride⟩ := @ih stride (2 * stride + 1) (by omega)
        refine ⟨.inr ?_, hstride⟩
        rcases hlast with hlast | hlast
        · rw [hlast, hgoes]
        · exact hlast
      | false =>
        rw [if_neg (by simp)]
        exact ⟨.inl rfl, .inr ⟨by simpa using hlimit, hgoes⟩⟩

theorem IsBorder.gallop_eq (h : IsBorder behind items border) {hint : Nat}
    (hhint : hint < items.size) : (gallop behind items hint).run = border := by
  have hle := h.le_size
  unfold gallop
  simp only [Id.run_bind, h.itemAt_eq hint, hhint, decide_true, Bool.and_true, decide_eq_true_eq]
  split
  · rw [Id.run_bind]
    generalize hfound : (strides (fun n => itemAt items (hint - n) behind) (hint + 1) items.size 0
      1).run = found
    obtain ⟨hlast, hstride⟩ := strides_spec hfound (by omega)
    simp only [h.itemAt_eq, Bool.and_eq_true, decide_eq_true_eq, Bool.and_eq_false_iff,
      decide_eq_false_iff_not] at hlast hstride
    exact h.bisect_eq (by omega) (by omega) (by omega) (by omega)
  · rw [Id.run_bind]
    generalize hfound : (strides (fun n => itemAt items (hint + n) fun x => return !(← behind x))
      (items.size - hint) items.size 0 1).run = found
    obtain ⟨hlast, hstride⟩ := strides_spec hfound (by omega)
    simp only [h.itemAt_not_eq, decide_eq_true_eq, decide_eq_false_iff_not] at hlast hstride
    exact h.bisect_eq (by omega) (by omega) (by omega) (by omega)

end Montage.Sorting
