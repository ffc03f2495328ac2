import Mathlib.Tactic.Ring
import Montage.Proofs.Number.Nearest

/-!
# Rounding a quotient to the nearest binary number

A quotient of whole numbers is rounded as a whole number of units is: no number of the format lies
between it and the result (`nearestQuotient_le`, `le_nearestQuotient`). Two facts about distances
follow. What is off by less than the width of 53 bits is rounded back (`nearestQuotient_eq_of_close`),
and a rounded number is off by at most that (`nearest_close`).
-/

namespace Montage

namespace Rounding

variable {n d k : Nat}

theorem halfEven_eq_of_close (habove : 2 * (n - k * d) < d) (hbelow : 2 * (k * d - n) < d) :
    halfEven n d = k := by
  have hdivision := Nat.div_add_mod n d
  have hrest : n % d < d := Nat.mod_lt n (by omega)
  rcases Nat.lt_or_ge n (k * d) with hlt | hge
  · -- The quotient is just below `k`, and its rest more than half of the divisor.
    obtain ⟨j, rfl⟩ : ∃ j, k = j + 1 := Nat.exists_eq_succ_of_ne_zero (by rintro rfl; omega)
    have hsplit : (j + 1) * d = j * d + d := by ring
    have hquotient : n / d = j := Nat.div_eq_of_lt_le (by omega) hlt
    rw [hquotient, Nat.mul_comm d j] at hdivision
    simp only [halfEven, hquotient]
    rw [if_neg (by omega), if_pos (by omega)]
  · have hsplit : (k + 1) * d = k * d + d := by ring
    have hquotient : n / d = k := Nat.div_eq_of_lt_le hge (by omega)
    rw [hquotient, Nat.mul_comm d k] at hdivision
    simp only [halfEven, hquotient]
    rw [if_pos (by omega)]

/-- Rounding is off by at most one half. -/
theorem halfEven_close (hd : 0 < d) :
    2 * (halfEven n d * d - n) ≤ d ∧ 2 * (n - halfEven n d * d) ≤ d := by
  have hdivision := Nat.div_add_mod n d
  have hrest := Nat.mod_lt n hd
  have hdown : n / d * d = d * (n / d) := Nat.mul_comm _ _
  have hup : (n / d + 1) * d = d * (n / d) + d := by ring
  simp only [halfEven]
  split
  · omega
  · split
    · omega
    · split <;> omega

end Rounding

namespace Binary64

variable {n d r u : Nat}

/-- The magnitude nearest to a quotient among those with 53 significant bits. -/
def nearestQuotient (n d : Nat) : Nat :=
  Rounding.halfEven n (d * Nat.pow 2 (exponent (n / d))) * Nat.pow 2 (exponent (n / d))

theorem ofQuotient_eq (negative : Bool) (n d : Nat) :
    ofQuotient negative n d = ofUnits negative (nearestQuotient n d) := rfl

theorem ofUnits_of_representable (negative : Bool) (hu : Representable u) :
    ofUnits negative u = finite negative u hu := dif_pos hu

theorem step_pos (hd : 0 < d) (e : Nat) : 0 < d * Nat.pow 2 e :=
  Nat.mul_pos hd (Nat.pow_pos Nat.two_pos)

theorem nearestQuotient_le (hd : 0 < d) (hr : Representable r) (h : n ≤ r * d) :
    nearestQuotient n d ≤ r := by
  have hquotient : n / d ≤ r := Nat.div_le_of_le_mul (Nat.mul_comm r d ▸ h)
  obtain ⟨k, hk⟩ := hr.exists_eq (exponent_mono hquotient)
  have hmul : r * d = k * (d * Nat.pow 2 (exponent (n / d))) := by
    conv_lhs => rw [hk]
    ring
  have hround := Rounding.halfEven_le (step_pos hd (exponent (n / d))) (hmul ▸ h)
  calc nearestQuotient n d
    _ ≤ k * Nat.pow 2 (exponent (n / d)) := Nat.mul_le_mul_right _ hround
    _ = r := hk.symm

/-- A multiple of the step that is not above a quotient is not above the nearest magnitude. -/
theorem mul_le_nearestQuotient {k : Nat} (hd : 0 < d)
    (h : k * Nat.pow 2 (exponent (n / d)) * d ≤ n) :
    k * Nat.pow 2 (exponent (n / d)) ≤ nearestQuotient n d := by
  refine Nat.mul_le_mul_right _ (Rounding.le_halfEven (step_pos hd _) ?_)
  calc k * (d * Nat.pow 2 (exponent (n / d)))
    _ = k * Nat.pow 2 (exponent (n / d)) * d := by ring
    _ ≤ n := h

theorem le_nearestQuotient (hd : 0 < d) (hr : Representable r) (h : r * d ≤ n) :
    r ≤ nearestQuotient n d := by
  by_cases hr0 : r = 0
  · omega
  have hquotient : r ≤ n / d := (Nat.le_div_iff_mul_le hd).2 h
  have hpos : n / d ≠ 0 := by omega
  rcases Nat.eq_or_lt_of_le (log2_le_log2 hquotient) with hlog | hlog
  · have hexponent : exponent (n / d) = exponent r := by rw [exponent, exponent, hlog]
    obtain ⟨k, hk⟩ := hr.exists_eq (Nat.le_of_eq hexponent)
    calc r
      _ = k * Nat.pow 2 (exponent (n / d)) := hk
      _ ≤ nearestQuotient n d := mul_le_nearestQuotient hd (hk ▸ h)
  · -- The highest bit of the quotient alone is above the number, and is kept.
    have hsplit : 2 ^ (n / d).log2 = _ :=
      two_pow_eq_mul (n := n / d) (by unfold exponent; omega)
    have hbit : 2 ^ (n / d).log2 * d ≤ n :=
      (Nat.le_div_iff_mul_le hd).1 (Nat.log2_self_le hpos)
    calc r
      _ ≤ 2 ^ (r.log2 + 1) := Nat.lt_log2_self.le
      _ ≤ 2 ^ (n / d).log2 := Nat.pow_le_pow_right (by decide) hlog
      _ ≤ nearestQuotient n d := by
        rw [hsplit]
        exact mul_le_nearestQuotient hd (hsplit ▸ hbit)

/-- A magnitude has at most 53 bits above its exponent. -/
theorem lt_two_pow_exponent (n : Nat) : n < 2 ^ 53 * Nat.pow 2 (exponent n) := by
  calc n
    _ < 2 ^ (n.log2 + 1) := Nat.lt_log2_self
    _ ≤ 2 ^ (53 + exponent n) := Nat.pow_le_pow_right (by decide) (by unfold exponent; omega)
    _ = 2 ^ 53 * Nat.pow 2 (exponent n) := Nat.pow_add 2 53 (exponent n)

/-- Between a number and a larger power of two there is room for a step of the number. -/
theorem add_step_le (hu : Representable u) {m : Nat} (hm : exponent u ≤ m)
    (hlt : u < 2 ^ m) : u + 2 ^ exponent u ≤ 2 ^ m := by
  obtain ⟨k, hk⟩ := hu.exists_eq (Nat.le_refl (exponent u))
  have hsplit : 2 ^ m = 2 ^ (m - exponent u) * 2 ^ exponent u := by
    rw [← Nat.pow_add, Nat.sub_add_cancel hm]
  change u = k * 2 ^ exponent u at hk
  rw [hsplit] at hlt ⊢
  generalize 2 ^ exponent u = step at *
  rw [hk] at hlt ⊢
  rw [← Nat.add_one_mul]
  exact Nat.mul_le_mul_right _ (Nat.lt_of_mul_lt_mul_right hlt)

/-- The step of a quotient close to a number of the format divides that number. -/
theorem exponent_le_of_close (hu : Representable u) (hd : 0 < d)
    (habove : 2 * 10 ^ 16 * (n - u * d) ≤ u * d) : exponent (n / d) ≤ exponent u := by
  by_contra hgt
  have hlog : u.log2 < (n / d).log2 := by
    unfold exponent at hgt
    omega
  have hpower : u < 2 ^ (n / d).log2 :=
    Nat.lt_of_lt_of_le Nat.lt_log2_self (Nat.pow_le_pow_right (by decide) hlog)
  have hbit : 2 ^ (n / d).log2 * d ≤ n :=
    (Nat.le_div_iff_mul_le hd).1 (Nat.log2_self_le (by rintro h; simp [h] at hlog))
  have hroom := add_step_le hu (by unfold exponent; omega) hpower
  have hfar : 2 ^ exponent u * d ≤ n - u * d := by
    have := Nat.mul_le_mul_right d hroom
    rw [Nat.add_mul] at this
    omega
  have hsmall : u * d < 2 ^ 53 * (2 ^ exponent u * d) := by
    rw [← Nat.mul_assoc]
    exact Nat.mul_lt_mul_of_pos_right (lt_two_pow_exponent u) hd
  omega

/-- A quotient that is off by less than a 53rd bit is rounded to the number that it is close to. -/
theorem nearestQuotient_eq_of_close (hu : Representable u) (hd : 0 < d)
    (habove : 2 * 10 ^ 16 * (n - u * d) ≤ u * d) (hbelow : 2 * 10 ^ 16 * (u * d - n) ≤ u * d) :
    nearestQuotient n d = u := by
  obtain ⟨k, hk⟩ := hu.exists_eq (exponent_le_of_close hu hd habove)
  have hquotient : n < 2 ^ 53 * (Nat.pow 2 (exponent (n / d)) * d) := by
    have hlt := lt_two_pow_exponent (n / d)
    rw [Nat.div_lt_iff_lt_mul hd] at hlt
    rwa [← Nat.mul_assoc]
  rw [nearestQuotient]
  generalize Nat.pow 2 (exponent (n / d)) = step at *
  have hmul : k * (d * step) = u * d := by rw [hk]; ring
  have hround : Rounding.halfEven n (d * step) = k := by
    rw [Nat.mul_comm step d] at hquotient
    refine Rounding.halfEven_eq_of_close ?_ ?_
    · rw [hmul]
      omega
    · rw [hmul]
      omega
  rw [hround, ← hk]

/-! ### How far rounding goes -/

theorem nearestQuotient_mul (hd : 0 < d) (n : Nat) : nearestQuotient (n * d) d = nearest n := by
  rw [nearestQuotient, nearest, Nat.mul_div_cancel _ hd]
  generalize Nat.pow 2 (exponent n) = step
  have hhalfEven : Rounding.halfEven (n * d) (d * step) = Rounding.halfEven n step := by
    have hquotient : n * d / (d * step) = n / step := by
      rw [Nat.mul_comm n d, Nat.mul_div_mul_left _ _ hd]
    have hrest : n * d % (d * step) = d * (n % step) := by
      rw [Nat.mul_comm n d, Nat.mul_mod_mul_left]
    have hlow : 2 * (d * (n % step)) < d * step ↔ 2 * (n % step) < step := by
      rw [Nat.mul_left_comm, Nat.mul_lt_mul_left hd]
    have hhigh : d * step < 2 * (d * (n % step)) ↔ step < 2 * (n % step) := by
      rw [Nat.mul_left_comm, Nat.mul_lt_mul_left hd]
    simp only [Rounding.halfEven, hquotient, hrest, hlow, hhigh]
  rw [hhalfEven]

theorem nearest_close (n : Nat) :
    2 ^ 53 * (nearest n - n) ≤ n ∧ 2 ^ 53 * (n - nearest n) ≤ n := by
  have hstep : 0 < Nat.pow 2 (exponent n) := Nat.pow_pos Nat.two_pos
  obtain ⟨habove, hbelow⟩ := Rounding.halfEven_close (n := n) hstep
  by_cases hexponent : exponent n = 0
  · rw [nearest]
    rw [hexponent] at habove hbelow ⊢
    change 2 * (_ - n) ≤ 1 at habove
    change 2 * (n - _) ≤ 1 at hbelow
    omega
  · have hpos : n ≠ 0 := by
      rintro rfl
      exact hexponent rfl
    have hsplit : 2 ^ n.log2 = 2 ^ 52 * Nat.pow 2 (exponent n) := by
      change 2 ^ n.log2 = 2 ^ 52 * 2 ^ exponent n
      rw [← Nat.pow_add]
      congr 1
      unfold exponent at *
      omega
    have hbit := Nat.log2_self_le hpos
    rw [nearest]
    generalize Nat.pow 2 (exponent n) = step at *
    omega

end Binary64

end Montage
