import Montage.Proofs.Number.Difference
import Montage.Proofs.Number.Milliseconds

/-!
# Rounding keeps the order

A larger quotient is not rounded to a smaller number (`nearestQuotient_mono`): both have the same step, or
a power of two stands between them. So differences from one number are ordered as what they are taken
from (`sub_le_sub`), and shortest texts as the numbers that they are the texts of (`shortestValue_mono`).
-/

namespace Montage

namespace Rounding

variable {n d k n' d' : Nat}

/-- Halfway between two numbers, the even one is taken. -/
theorem halfEven_tie (hd : 0 < d) (h : 2 * n = (2 * k + 1) * d) :
    halfEven n d = if k % 2 = 0 then k else k + 1 := by
  have hdouble : (2 * k + 1) * d = 2 * (k * d) + d := by ring
  have hnext : (k + 1) * d = k * d + d := by ring
  have hquotient : n / d = k := Nat.div_eq_of_lt_le (by omega) (by omega)
  have hdivision := Nat.div_add_mod n d
  rw [hquotient, Nat.mul_comm d k] at hdivision
  simp only [halfEven, hquotient]
  rw [if_neg (by omega), if_neg (by omega)]

theorem halfEven_mono (hd : 0 < d) (hd' : 0 < d') (h : n * d' ≤ n' * d) :
    halfEven n d ≤ halfEven n' d' := by
  obtain ⟨hclose, -⟩ := halfEven_close (n := n) hd
  obtain ⟨-, hclose'⟩ := halfEven_close (n := n') hd'
  by_contra hlt
  generalize hk : halfEven n' d' = k at hclose' hlt
  have hstep : (k + 1) * d ≤ halfEven n d * d := Nat.mul_le_mul_right d (by omega)
  have hlow : (2 * k + 1) * d ≤ 2 * n := by
    have : (k + 1) * d = k * d + d := by ring
    have : (2 * k + 1) * d = 2 * (k * d) + d := by ring
    omega
  have hhigh : 2 * n' ≤ (2 * k + 1) * d' := by
    have : (2 * k + 1) * d' = 2 * (k * d') + d' := by ring
    omega
  -- The larger quotient is at most halfway, the smaller one at least: both are a tie.
  have hlow' : (2 * k + 1) * d * d' ≤ 2 * (n * d') := by
    calc (2 * k + 1) * d * d'
      _ ≤ 2 * n * d' := Nat.mul_le_mul_right d' hlow
      _ = 2 * (n * d') := by ring
  have hhigh' : 2 * (n' * d) ≤ (2 * k + 1) * d * d' := by
    calc 2 * (n' * d)
      _ = 2 * n' * d := by ring
      _ ≤ (2 * k + 1) * d' * d := Nat.mul_le_mul_right d hhigh
      _ = (2 * k + 1) * d * d' := by ring
  have htie : 2 * n = (2 * k + 1) * d := by
    refine Nat.eq_of_mul_eq_mul_right hd' ?_
    rw [Nat.mul_assoc 2 n d']
    omega
  have htie' : 2 * n' = (2 * k + 1) * d' := by
    refine Nat.eq_of_mul_eq_mul_right hd ?_
    rw [Nat.mul_assoc 2 n' d, Nat.mul_right_comm]
    omega
  rw [halfEven_tie hd htie] at hlt
  rw [halfEven_tie hd' htie'] at hk
  omega

end Rounding

namespace Binary64

variable {n d n' d' u v : Nat}

/-- A multiple of the step that is not below a quotient is not below the nearest magnitude. -/
theorem nearestQuotient_le_mul {k : Nat} (hd : 0 < d)
    (h : n ≤ k * Nat.pow 2 (exponent (n / d)) * d) :
    nearestQuotient n d ≤ k * Nat.pow 2 (exponent (n / d)) := by
  refine Nat.mul_le_mul_right _ (Rounding.halfEven_le (step_pos hd _) ?_)
  calc n
    _ ≤ k * Nat.pow 2 (exponent (n / d)) * d := h
    _ = k * (d * Nat.pow 2 (exponent (n / d))) := by ring

theorem nearestQuotient_mono (hd : 0 < d) (hd' : 0 < d') (h : n * d' ≤ n' * d) :
    nearestQuotient n d ≤ nearestQuotient n' d' := by
  have hquotient : n / d ≤ n' / d' := by
    rw [Nat.le_div_iff_mul_le hd']
    refine Nat.le_of_mul_le_mul_right (Nat.le_trans ?_ h) hd
    calc n / d * d' * d
      _ = n / d * d * d' := by ring
      _ ≤ n * d' := Nat.mul_le_mul_right d' (Nat.div_mul_le_self n d)
  rcases Nat.eq_or_lt_of_le (exponent_mono hquotient) with hexponent | hexponent
  · rw [nearestQuotient, nearestQuotient, hexponent]
    refine Nat.mul_le_mul_right _ (Rounding.halfEven_mono (step_pos hd _) (step_pos hd' _) ?_)
    rw [← Nat.mul_assoc, ← Nat.mul_assoc]
    exact Nat.mul_le_mul_right _ h
  · -- The highest bit of the larger quotient stands between the two.
    have hlog : (n / d).log2 < (n' / d').log2 := by
      unfold exponent at hexponent
      omega
    have hpos : n' / d' ≠ 0 := by
      intro hzero
      rw [hzero] at hlog
      exact Nat.not_lt_zero _ hlog
    have hbelow : 2 ^ (n' / d').log2 = _ :=
      two_pow_eq_mul (n := n / d) (by unfold exponent; omega)
    have habove : 2 ^ (n' / d').log2 = _ :=
      two_pow_eq_mul (n := n' / d') (by unfold exponent; omega)
    have hlow : n ≤ 2 ^ (n' / d').log2 * d := by
      refine Nat.le_of_lt ((Nat.div_lt_iff_lt_mul hd).1 ?_)
      exact Nat.lt_of_lt_of_le Nat.lt_log2_self (Nat.pow_le_pow_right (by decide) hlog)
    have hhigh : 2 ^ (n' / d').log2 * d' ≤ n' :=
      (Nat.le_div_iff_mul_le hd').1 (Nat.log2_self_le hpos)
    calc nearestQuotient n d
      _ ≤ 2 ^ (n' / d').log2 := by
        rw [hbelow]
        exact nearestQuotient_le_mul hd (hbelow ▸ hlow)
      _ ≤ nearestQuotient n' d' := by
        rw [habove]
        exact mul_le_nearestQuotient hd' (habove ▸ hhigh)

theorem nearest_mono (h : u ≤ v) : nearest u ≤ nearest v := by
  rw [← nearestQuotient_mul Nat.one_pos u, ← nearestQuotient_mul Nat.one_pos v]
  exact nearestQuotient_mono Nat.one_pos Nat.one_pos (by omega)

/-- Texts of larger numbers stand for larger numbers. -/
theorem shortestValue_mono (hu : Representable u) (hv : Representable v) (h : u ≤ v) :
    shortestValue u ≤ shortestValue v := by
  rcases Nat.eq_zero_or_pos u with rfl | hpos
  · rw [shortestValue, if_pos rfl]
    exact shortestValue_nonneg v
  have hpos' : 0 < v := Nat.lt_of_lt_of_le hpos h
  obtain ⟨-, hread⟩ := nearestQuotient_of_unitsOfDecimal (shortest_spec hu hpos).reads_back hpos
  obtain ⟨-, hread'⟩ := nearestQuotient_of_unitsOfDecimal (shortest_spec hv hpos').reads_back hpos'
  by_contra hlt
  -- Were the larger text that of the smaller number, both would read back as the same number.
  have hcross : (shortest v).1 * gridDenominator (shortest v).2 * gridScale (shortest u).2 ≤
      (shortest u).1 * gridDenominator (shortest u).2 * gridScale (shortest v).2 := by
    have hvalue := mul_le_mul_of_nonneg_right (not_le.1 hlt).le
      (Nat.cast_nonneg (one * gridScale (shortest v).2 * gridScale (shortest u).2) : (0 : ℚ) ≤ _)
    have hleft := shortestValue_mul hpos'
    have hright := shortestValue_mul hpos
    have hreal : ((shortest v).1 * gridDenominator (shortest v).2 * gridScale (shortest u).2 : ℚ) ≤
        (shortest u).1 * gridDenominator (shortest u).2 * gridScale (shortest v).2 := by
      rw [← hleft, ← hright]
      push_cast at hvalue
      linarith
    exact_mod_cast hreal
  have hle := nearestQuotient_mono (gridScale_pos _) (gridScale_pos _) hcross
  rw [hread, hread'] at hle
  obtain rfl := Nat.le_antisymm h hle
  exact hlt le_rfl

/-! ### Sums and differences -/

variable {x y z : Binary64}

theorem ofQuotient_mono (h : u ≤ v) : (ofQuotient false u 1).le (ofQuotient false v 1) = true := by
  have hnearest := nearest_mono h
  rw [ofQuotient_one, ofQuotient_one]
  by_cases hlimit : nearest v < unitLimit
  · rw [ofUnits_of_representable false (representable_nearest hlimit),
      ofUnits_of_representable false (representable_nearest (Nat.lt_of_le_of_lt hnearest hlimit))]
    exact (le_iff_units rfl rfl).2 (Int.ofNat_le.2 hnearest)
  · have hlarge : ofUnits false (nearest v) = infinite false := dif_neg fun hv => hlimit hv.1
    rw [hlarge, ← ofQuotient_one]
    exact ofQuotient_le_infinite false u 1

/-- As `add_le_add_right`, for numbers. -/
theorem add_le_add_of_units {a b c : Int} (hx : x.toUnits? = some a) (hy : y.toUnits? = some b)
    (hz : z.toUnits? = some c) (h : a ≤ b) : (x + z).le (y + z) = true := by
  have hnonneg (k : Nat) : zero.le (ofQuotient false k 1) = true :=
    le_ofQuotient representable_zero (Nat.zero_le k)
  rcases add_cases hx hz with ⟨hpos, hsum⟩ | ⟨hneg, hsum⟩ | ⟨hzero, hsum⟩ <;>
    rcases add_cases hy hz with ⟨hpos', hsum'⟩ | ⟨hneg', hsum'⟩ | ⟨hzero', hsum'⟩ <;> try omega
  · rw [hsum, hsum']
    exact ofQuotient_mono (by omega)
  · rw [hsum, hsum']
    exact le_trans (ofQuotient_true_le_zero _ _) (hnonneg _)
  · rw [hsum, hsum', ofQuotient_true, ofQuotient_true, neg_le_neg]
    exact ofQuotient_mono (by omega)
  · rw [hsum]
    exact le_trans (ofQuotient_true_le_zero _ _) ((le_iff_units rfl hsum').2 (Int.le_refl 0))
  · rw [hsum']
    exact le_ofQuotient_of_units (k := 0) hsum (Nat.zero_le _)
  · exact (le_iff_units hsum hsum').2 (Int.le_refl 0)

protected theorem add_comm (x y : Binary64) : x + y = y + x := by
  cases x with
  | nan => cases y <;> rfl
  | infinite s =>
    cases y with
    | infinite r => cases s <;> cases r <;> rfl
    | _ => rfl
  | finite s a _ =>
    cases y with
    | finite r b _ =>
      change add _ _ = add _ _
      by_cases hsign : s = r
      · rw [add, add, if_pos hsign, if_pos hsign.symm, hsign, Nat.add_comm]
      · rw [add, add, if_neg hsign, if_neg (Ne.symm hsign)]
        rcases Nat.lt_trichotomy a b with hlt | rfl | hlt
        · rw [if_neg (by omega), if_pos hlt, if_neg (by omega), if_neg (by omega)]
        · rw [if_pos rfl, if_pos rfl]
        · rw [if_neg (by omega), if_neg (by omega), if_neg (by omega), if_pos hlt]
    | _ => rfl

theorem add_le_add_right (hz : z.isFinite = true) (h : x.le y = true) : (x + z).le (y + z) = true := by
  have hinfinite (s : Bool) : infinite s + z = infinite s := by
    cases z with
    | finite => rfl
    | _ => cases hz
  rcases le_cases h with ⟨a, b, ha, hb, hab⟩ | ⟨rfl, hy⟩ | ⟨rfl, hx⟩
  · obtain ⟨c, hc⟩ := exists_units hz
    exact add_le_add_of_units ha hb hc hab
  · rw [hinfinite, Binary64.add_comm y]
    exact infinite_true_le (isNaN_add hz hy)
  · rw [hinfinite, Binary64.add_comm x]
    exact le_infinite (isNaN_add hz hx)

theorem sub_le_sub (hz : z.isFinite = true) (h : x.le y = true) : (x - z).le (y - z) = true :=
  add_le_add_right ((isFinite_neg z).trans hz) h

theorem add_le_add_left (hz : z.isFinite = true) (h : x.le y = true) : (z + x).le (z + y) = true := by
  rw [Binary64.add_comm z x, Binary64.add_comm z y]
  exact add_le_add_right hz h

/-- What is taken off last, the larger takes off more. -/
theorem sub_le_sub_left (hz : z.isFinite = true) (h : x.le y = true) : (z - y).le (z - x) = true :=
  add_le_add_left hz ((neg_le_neg y x).trans h)

theorem le_zero_add (hx : x.isFinite = true) : x.le (zero + x) = true := by
  obtain ⟨a, ha⟩ := exists_units hx
  cases x with
  | finite s u hu =>
    cases s with
    | false =>
      rw [zero_add_finite hu]
      exact le_refl rfl
    | true =>
      change Binary64.le _ (add zero (finite true u hu)) = true
      rw [zero, add, if_neg (by decide)]
      split
      · exact (le_iff_units ha rfl).2 (by cases ha; omega)
      · rw [if_pos (by omega), ofQuotient_one, Nat.sub_zero, nearest_eq hu,
          ofUnits_of_representable true hu]
        exact le_refl rfl
  | _ => cases hx

theorem le_add_right {p : Binary64} (hx : x.isFinite = true) (hp : zero.le p = true) :
    x.le (x + p) = true := by
  rw [Binary64.add_comm]
  exact le_trans (le_zero_add hx) (add_le_add_right hx hp)

theorem sub_self_le_zero (hx : x.isFinite = true) : (x - x).le zero = true := by
  obtain ⟨a, ha⟩ := exists_units hx
  exact sub_le_zero ha ha (Int.le_refl a)

theorem sub_le_zero_of_le (hx : x.isFinite = true) (h : x.le y = true) : (x - y).le zero = true :=
  le_trans (sub_le_sub_left hx h) (sub_self_le_zero hx)

/-- As `sub_le_sub`, also for what is taken off an infinite number. -/
theorem sub_le_sub_right (hx : x.isFinite = true) (hy : y.isFinite = true) (hz : z.isNaN = false)
    (h : x.le y = true) : (x - z).le (y - z) = true := by
  cases z with
  | nan => cases hz
  | infinite s =>
    have hfar {w : Binary64} (hw : w.isFinite = true) : w - infinite s = infinite !s := by
      cases w with
      | finite => rfl
      | _ => cases hw
    rw [hfar hx, hfar hy]
    exact le_refl rfl
  | finite s a ha => exact sub_le_sub rfl h

theorem max_le (hx : x.le z = true) (hy : y.le z = true) : (max x y).le z = true := by
  rw [max]
  split
  · exact hy
  · exact hx

theorem le_min (hx : z.le x = true) (hy : z.le y = true) : z.le (min x y) = true := by
  rw [min]
  split
  · exact hy
  · exact hx

end Binary64

end Montage
