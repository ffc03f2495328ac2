import Montage.Proofs.Number.Nearest

/-!
# Maxima of binary numbers

A maximum is one of some numbers that none of them is above (`IsMaximum`). Two of them can be zeros of
different signs, which no difference can tell apart (`lt_sub_congr`).
-/

namespace Montage.Binary64

variable {x y m n : Binary64} {xs : List Binary64}

/-- One of some numbers that none of them is above. -/
structure IsMaximum (xs : List Binary64) (m : Binary64) : Prop where
  mem : m ∈ xs
  le : ∀ x ∈ xs, x.le m = true

theorem isNaN_ofQuotient (negative : Bool) (n d : Nat) :
    (ofQuotient negative n d).isNaN = false := by
  simp only [ofQuotient, ofUnits]
  split <;> rfl

theorem isNaN_add (hx : x.isFinite = true) (hy : y.isNaN = false) : (x + y).isNaN = false := by
  cases x with
  | nan => cases hx
  | infinite s => cases hx
  | finite s a _ =>
    cases y with
    | nan => cases hy
    | infinite r => rfl
    | finite r b _ =>
      change (add _ _).isNaN = false
      rw [add]
      split
      · exact isNaN_ofQuotient _ _ _
      · split
        · rfl
        · split <;> exact isNaN_ofQuotient _ _ _

theorem isNaN_sub (hx : x.isFinite = true) (hy : y.isNaN = false) : (x - y).isNaN = false := by
  refine isNaN_add hx ?_
  cases y with
  | nan => cases hy
  | infinite s => rfl
  | finite s a _ => rfl

theorem isNaN_of_isFinite (hx : x.isFinite = true) : x.isNaN = false := by
  cases x with
  | nan => cases hx
  | infinite s => rfl
  | finite s a _ => rfl

theorem le_refl (hx : x.isNaN = false) : x.le x = true := by
  rw [le_eq_not_lt hx hx, lt_irrefl]
  rfl

theorem lt_iff_units {a b : Int} (hx : x.toUnits? = some a) (hy : y.toUnits? = some b) :
    x.lt y = decide (a < b) := by
  have hxNaN : x.isNaN = false := by cases x <;> first | rfl | cases hx
  have hyNaN : y.isNaN = false := by cases y <;> first | rfl | cases hy
  have hle := le_eq_not_lt hxNaN hyNaN
  by_cases h : y.le x = true
  · have hunits := (le_iff_units hy hx).1 h
    rw [h] at hle
    rw [decide_eq_false (by omega)]
    simpa using hle
  · have hunits := mt (le_iff_units hy hx).2 h
    rw [Bool.eq_false_iff.2 h] at hle
    rw [decide_eq_true (by omega)]
    simpa using hle

/-- Numbers that are at most each other are the same, or both zero. -/
theorem eq_or_units_eq (h : m.le n = true) (h' : n.le m = true) :
    m = n ∨ ∃ u, m.toUnits? = some u ∧ n.toUnits? = some u := by
  rcases le_cases h with ⟨u, v, hu, hv, huv⟩ | ⟨rfl, -⟩ | ⟨rfl, -⟩
  · exact .inr ⟨u, hu, le_antisymm huv ((le_iff_units hv hu).1 h') ▸ hv⟩
  · rcases le_cases h' with ⟨_, _, -, hu, -⟩ | ⟨rfl, -⟩ | ⟨hinfinite, -⟩
    · cases hu
    · exact .inl rfl
    · cases hinfinite
  · rcases le_cases h' with ⟨_, _, hu, -, -⟩ | ⟨hinfinite, -⟩ | ⟨rfl, -⟩
    · cases hu
    · cases hinfinite
    · exact .inl rfl

/-- How far something is behind a maximum does not depend on which of equal numbers the maximum is. -/
theorem lt_sub_congr {gap : Binary64} (hgap : gap.isFinite = true) (hx : x.isFinite = true)
    (h : m.le n = true) (h' : n.le m = true) : gap.lt (x - m) = gap.lt (x - n) := by
  obtain rfl | ⟨u, hm, hn⟩ := eq_or_units_eq h h'
  · rfl
  obtain ⟨v, hv⟩ := exists_units hx
  obtain ⟨g, hg⟩ := exists_units hgap
  change gap.lt (x + -m) = gap.lt (x + -n)
  have hcases := add_cases hv (toUnits?_neg hm)
  have hcases' := add_cases hv (toUnits?_neg hn)
  rcases hcases with ⟨hpos, hsum⟩ | ⟨hneg, hsum⟩ | ⟨hzero, hsum⟩ <;>
  rcases hcases' with ⟨hpos', hsum'⟩ | ⟨hneg', hsum'⟩ | ⟨hzero', hsum'⟩ <;> try omega
  · rw [hsum, hsum']
  · rw [hsum, hsum']
  · rw [lt_iff_units hg hsum, lt_iff_units hg hsum']

/-! ### Running maxima -/

theorem foldl_max_eq_or_mem (xs : List Binary64) (m : Binary64) :
    xs.foldl max m = m ∨ xs.foldl max m ∈ xs := by
  induction xs generalizing m with
  | nil => exact .inl rfl
  | cons x xs ih =>
    rw [List.foldl_cons]
    rcases ih (max m x) with hmax | hmem
    · rw [hmax, max]
      split
      · exact .inr (.head xs)
      · exact .inl rfl
    · exact .inr (.tail x hmem)

theorem isNaN_max (hm : m.isNaN = false) : (max m x).isNaN = false := by
  rw [max]
  split
  · rename_i hlt
    cases x with
    | nan =>
      rw [lt_nan] at hlt
      cases hlt
    | _ => rfl
  · exact hm

theorem isNaN_foldl_max (hm : m.isNaN = false) : (xs.foldl max m).isNaN = false := by
  induction xs generalizing m with
  | nil => exact hm
  | cons x xs ih => exact ih (isNaN_max hm)

theorem foldl_max_le_of_subset {ys : List Binary64} (hm : m.isNaN = false) (h : xs ⊆ ys) :
    (xs.foldl max m).le (ys.foldl max m) = true := by
  have hbelow : (ys.foldl max m).lt (xs.foldl max m) = false := by
    refine foldl_max_not_lt ?_
    rcases foldl_max_eq_or_mem xs m with heq | hmem
    · left
      rw [heq]
      exact lt_irrefl m
    · exact .inr (h hmem)
  rw [le_eq_not_lt (isNaN_foldl_max hm) (isNaN_foldl_max hm), hbelow]
  rfl

/-- The order in which a maximum is taken decides no more than which of two zeros it is. -/
theorem foldl_max_congr {ys : List Binary64} (h : ∀ x, x ∈ xs ↔ x ∈ ys) (m : Binary64) :
    xs.foldl max m = ys.foldl max m ∨
      ∃ u, (xs.foldl max m).toUnits? = some u ∧ (ys.foldl max m).toUnits? = some u := by
  cases hm : m.isNaN with
  | true =>
    -- Nothing is above what is no number, so that a maximum that starts with it stays there.
    obtain rfl : m = nan := by cases m <;> first | rfl | cases hm
    rw [foldl_max_eq_self fun x _ => nan_lt x, foldl_max_eq_self fun x _ => nan_lt x]
    exact .inl rfl
  | false =>
    exact eq_or_units_eq (foldl_max_le_of_subset hm fun x => (h x).1)
      (foldl_max_le_of_subset hm fun x => (h x).2)

/-! ### Signs of zeros -/

section Zeros

variable {p : Binary64}

theorem ofQuotient_eq_neg_zero {negative : Bool} {n : Nat} (h : ofQuotient negative n 1 = -zero) :
    negative = true ∧ n = 0 := by
  change _ = finite true 0 representable_zero at h
  rw [ofQuotient_one, ofUnits] at h
  split at h
  · obtain ⟨hsign, hunits⟩ := finite.inj h
    refine ⟨hsign, ?_⟩
    by_contra hn
    have hone : Representable 1 := by decide +kernel
    have hpos : 1 ≤ nearest n := le_nearest hone (by omega)
    omega
  · cases h

/-- A sum with a number that is not negative, and is no negative zero, is no negative zero. -/
theorem add_ne_neg_zero (hp : zero.le p = true) (hne : p ≠ -zero) (x : Binary64) : x + p ≠ -zero := by
  intro hsum
  change add x p = -zero at hsum
  cases p with
  | nan => cases hp
  | infinite s =>
    cases x with
    | infinite r =>
      rw [add] at hsum
      split at hsum <;> cases hsum
    | _ => cases hsum
  | finite s b hb =>
    cases s with
    | true =>
      have hunits := (le_iff_units (x := zero) rfl rfl).1 hp
      obtain rfl : b = 0 := by omega
      exact hne rfl
    | false =>
      cases x with
      | finite r a _ =>
        -- Of the exact sum, only a negative one is rounded to a number with a sign.
        rw [add] at hsum
        split at hsum
        · rename_i hsign
          subst hsign
          cases (ofQuotient_eq_neg_zero hsum).1
        · split at hsum
          · cases hsum
          · split at hsum
            · cases (ofQuotient_eq_neg_zero hsum).1
            · have hzero := (ofQuotient_eq_neg_zero hsum).2
              omega
      | _ => cases hsum

theorem eq_zero_or_neg_zero (h : x.toUnits? = some 0) : x = zero ∨ x = -zero := by
  cases x with
  | finite s a ha =>
    cases s with
    | false =>
      obtain rfl : a = 0 := by
        have hunits : (a : Int) = 0 := Option.some.inj h
        omega
      exact .inl rfl
    | true =>
      obtain rfl : a = 0 := by
        have hunits : -(a : Int) = 0 := Option.some.inj h
        omega
      exact .inr rfl
  | _ => cases h

/-- Only zeros can have the same value and be different. -/
theorem eq_or_eq_zero_of_units {u : Int} (hx : x.toUnits? = some u) (hy : y.toUnits? = some u) :
    x = y ∨ u = 0 := by
  cases x with
  | finite s a ha =>
    cases y with
    | finite r b hb =>
      cases s <;> cases r <;> cases hx <;> have hunits := Option.some.inj hy
      · obtain rfl : b = a := by omega
        exact .inl rfl
      · exact .inr (by omega)
      · exact .inr (by omega)
      · obtain rfl : b = a := by omega
        exact .inl rfl
    | _ => cases hy
  | _ => cases hx

/-- Numbers of the same value are equal, unless one of them is a negative zero. -/
theorem eq_of_le_of_le (h : x.le y = true) (h' : y.le x = true) (hx : x ≠ -zero) (hy : y ≠ -zero) :
    x = y := by
  obtain heq | ⟨u, hxu, hyu⟩ := eq_or_units_eq h h'
  · exact heq
  obtain heq | rfl := eq_or_eq_zero_of_units hxu hyu
  · exact heq
  rw [(eq_zero_or_neg_zero hxu).resolve_right hx, (eq_zero_or_neg_zero hyu).resolve_right hy]

theorem same_of_le_of_le (h : x.le y = true) (h' : y.le x = true) : x.same y = true := by
  have hlt : x.lt y = false := by
    have hnot := le_eq_not_lt (isNaN_of_le h).1 (isNaN_of_le h).2
    rw [h'] at hnot
    simpa using hnot.symm
  rw [le, hlt] at h
  exact h

theorem max_zero_sub_congr {u : Int} (hx : x.toUnits? = some u) (hy : y.toUnits? = some u)
    (hp : p.isNaN = false) : max zero (x - p) = max zero (y - p) := by
  cases p with
  | nan => cases hp
  | infinite s =>
    have hfar {w : Binary64} (hw : w.toUnits? = some u) : w - infinite s = infinite !s := by
      cases w with
      | finite => rfl
      | _ => cases hw
    rw [hfar hx, hfar hy]
  | finite s b hb =>
    obtain ⟨q, hq⟩ : ∃ q, (-finite s b hb).toUnits? = some q := exists_units rfl
    have hzero {w : Binary64} (hw : w.toUnits? = some 0) : max zero w = zero := by
      rw [max, lt_iff_units rfl hw, if_neg (by simp)]
    change max zero (x + -finite s b hb) = max zero (y + -finite s b hb)
    rcases add_cases hx hq with ⟨hpos, hsum⟩ | ⟨hneg, hsum⟩ | ⟨hnone, hsum⟩ <;>
      rcases add_cases hy hq with ⟨hpos', hsum'⟩ | ⟨hneg', hsum'⟩ | ⟨hnone', hsum'⟩ <;> try omega
    · rw [hsum, hsum']
    · rw [hsum, hsum']
    · rw [hzero hsum, hzero hsum']

end Zeros

namespace IsMaximum

theorem le_of_isMaximum (hm : IsMaximum xs m) (hn : IsMaximum xs n) : m.le n = true :=
  hn.le m hm.mem

theorem singleton (hx : x.isNaN = false) : IsMaximum [x] x :=
  ⟨List.mem_singleton.2 rfl, fun y hy => by rw [List.mem_singleton.1 hy]; exact le_refl hx⟩

/-- The maximum of two is that of what both are the maximum of. -/
theorem append (hm : IsMaximum xs m) (hmNaN : m.isNaN = false) (hx : x.isNaN = false) :
    IsMaximum (xs ++ [x]) (max m x) := by
  rw [Binary64.max]
  split
  · rename_i hlt
    have hle : m.le x = true := by simp [Binary64.le, hlt]
    refine ⟨by simp, fun y hy => ?_⟩
    rcases List.mem_append.1 hy with hy | hy
    · exact le_trans (hm.le y hy) hle
    · rw [List.mem_singleton.1 hy]
      exact le_refl hx
  · rename_i hlt
    refine ⟨List.mem_append_left _ hm.mem, fun y hy => ?_⟩
    rcases List.mem_append.1 hy with hy | hy
    · exact hm.le y hy
    · rw [List.mem_singleton.1 hy, le_eq_not_lt hmNaN hx]
      simp [hlt]

end IsMaximum

end Montage.Binary64
