import Mathlib.Data.Nat.Prime.Basic
import Montage.Proofs.Number.Clock

/-!
# Whole multiples

How often a number fits into another one is found exactly when the format holds that many times the number
(`Binary64.floorDiv_eq`). Whole numbers beyond 53 bits are not all in the format, but with whole numbers the
operations stay among whole numbers (`Binary64.one_dvd_nearest`), so that nothing is lost where the result is
small (`Binary64.eq_of_nearest_lt`).
-/

namespace Montage

theorem Rounding.halfEven_mul {d : Nat} (hd : 0 < d) (k : Nat) : halfEven (k * d) d = k :=
  Nat.le_antisymm (halfEven_le hd (Nat.le_refl _)) (le_halfEven hd (Nat.le_refl _))

namespace Representable

variable {n c k : Nat}

theorem of_mul_odd (hc : Odd c) (h : Representable (c * n)) : Representable n := by
  have hle : n ≤ c * n := Nat.le_mul_of_pos_left n hc.pos
  have hexponent : 2 ^ Binary64.exponent n ∣ c * n :=
    (Nat.pow_dvd_pow 2 (Binary64.exponent_mono hle)).trans h.2
  have hcoprime : Nat.Coprime (2 ^ Binary64.exponent n) c :=
    Nat.Coprime.pow_left _ (Nat.coprime_two_left.2 hc)
  exact ⟨Nat.lt_of_le_of_lt hle h.1, hcoprime.dvd_of_dvd_mul_left hexponent⟩

theorem of_mul_two_pow (h : Representable (n * 2 ^ k)) : Representable n := by
  have hpower : 0 < 2 ^ k := Nat.two_pow_pos k
  refine ⟨Nat.lt_of_le_of_lt (Nat.le_mul_of_pos_right n hpower) h.1, ?_⟩
  change 2 ^ (n.log2 - 52) ∣ n
  by_cases hsmall : n.log2 ≤ 52
  · rw [Nat.sub_eq_zero_of_le hsmall]
    exact Nat.one_dvd n
  · have hzero : n ≠ 0 := by
      rintro rfl
      exact hsmall (Nat.zero_le 52)
    have hlog : n.log2 + k ≤ (n * 2 ^ k).log2 := by
      rw [Nat.le_log2 (Nat.mul_ne_zero hzero hpower.ne'), Nat.pow_add]
      exact Nat.mul_le_mul_right _ (Nat.log2_self_le hzero)
    have hexponent : 2 ^ (n.log2 - 52) * 2 ^ k ∣ n * 2 ^ k := by
      rw [← Nat.pow_add]
      exact (Nat.pow_dvd_pow 2 (by omega)).trans h.2
    exact Nat.dvd_of_mul_dvd_mul_right hpower hexponent

end Representable

namespace Binary64

variable {n u v d k : Nat} {x : Binary64}

/-! ### Whole numbers -/

theorem one_cast_pos : (0 : ℚ) < one := Nat.cast_pos.2 Binary64.one_pos

theorem one_cast_ne_zero : (one : ℚ) ≠ 0 := one_cast_pos.ne'

/-- Rounding keeps the powers of two that divide a magnitude. -/
theorem dvd_nearest (h : 2 ^ k ∣ n) : 2 ^ k ∣ nearest n := by
  rcases Nat.le_total k (exponent n) with hle | hle
  · exact (Nat.pow_dvd_pow 2 hle).trans (Nat.dvd_mul_left _ _)
  · have hstep : Nat.pow 2 (exponent n) ∣ n := (Nat.pow_dvd_pow 2 hle).trans h
    have hpos : 0 < Nat.pow 2 (exponent n) := Nat.pow_pos Nat.two_pos
    rw [nearest]
    generalize Nat.pow 2 (exponent n) = step at *
    obtain ⟨m, rfl⟩ := hstep
    rwa [Nat.mul_comm step, Rounding.halfEven_mul hpos, ← Nat.mul_comm step]

theorem one_dvd_nearest (h : one ∣ n) : one ∣ nearest n := dvd_nearest (k := 1074) h

/-- A whole number that is rounded to less than 52 bits is not rounded at all. -/
theorem eq_of_nearest_lt (hn : one ∣ n) (h : nearest n < 2 ^ 52 * one) : nearest n = n := by
  obtain ⟨j, hj⟩ := hn
  have hunits : n = j * one := hj.trans (Nat.mul_comm one j)
  rw [hunits] at h ⊢
  rcases Nat.lt_or_ge j (2 ^ 53) with hlt | hge
  · exact nearest_eq (representable_mul_one hlt)
  · have hle : 2 ^ 52 * one ≤ j * one := Nat.mul_le_mul_right one (by omega)
    exact absurd h (Nat.not_lt.2 (le_nearest (representable_mul_one (by decide)) hle))

/-- A large number is whole. -/
theorem one_dvd (hu : Representable u) (h : 2 ^ 53 * one ≤ u) : one ∣ u := by
  have hexponent : 1074 ≤ exponent (2 ^ 53 * one) := by decide +kernel
  exact (Nat.pow_dvd_pow 2 (hexponent.trans (exponent_mono h))).trans hu.2

/-- The format holds a whole number just when it holds that many units. -/
theorem exists_toRat?_natCast_iff :
    (∃ y : Binary64, y.toRat? = some (n : ℚ)) ↔ Representable (n * one) := by
  constructor
  · rintro ⟨y, hy⟩
    obtain ⟨k, hk⟩ := exists_units (isFinite_of_toRat? hy)
    have hvalue : (k : ℚ) / one = n := Option.some.inj ((toRat?_of_units hk).symm.trans hy)
    rw [div_eq_iff one_cast_ne_zero] at hvalue
    have hunits : k = (n * one : Nat) := by exact_mod_cast hvalue
    exact representable_of_units (hunits ▸ hk)
  · intro h
    refine ⟨finite false (n * one) h, ?_⟩
    rw [toRat?_of_units (m := (n * one : Nat)) rfl, Int.cast_natCast, Nat.cast_mul,
      mul_div_cancel_right₀ _ one_cast_ne_zero]

/-! ### Quotients without a rest -/

/-- A number less one that is no larger. -/
theorem exists_sub_eq_finite (hu : Representable u) (hv : Representable v) (hvu : v ≤ u) :
    ∃ hsub : Representable (nearest (u - v)),
      finite false u hu - finite false v hv = finite false (nearest (u - v)) hsub := by
  have hle : nearest (u - v) ≤ u := nearest_le hu (Nat.sub_le u v)
  have hsub := representable_nearest (Nat.lt_of_le_of_lt hle hu.1)
  refine ⟨hsub, ?_⟩
  rcases Nat.eq_or_lt_of_le hvu with rfl | hlt
  · have hself : finite false v hu - finite false v hv = zero := by
      change add (finite false v hu) (finite true v hv) = zero
      simp [add]
    simp only [hself, zero, Nat.sub_self, nearest_eq representable_zero]
  · have hunits : ((u : Int) - v).toNat = u - v := by omega
    rw [sub_eq_ofQuotient rfl rfl (Int.ofNat_lt.2 hlt), hunits, ofQuotient_one,
      ofUnits_of_representable false hsub]

/-- A number less a larger one. -/
theorem exists_sub_eq_negative (hu : Representable u) (hv : Representable v) (huv : u < v) :
    ∃ hsub : Representable (nearest (v - u)),
      finite false u hu - finite false v hv = finite true (nearest (v - u)) hsub := by
  have hle : nearest (v - u) ≤ v := nearest_le hv (Nat.sub_le v u)
  have hsub := representable_nearest (Nat.lt_of_le_of_lt hle hv.1)
  refine ⟨hsub, ?_⟩
  change add (finite false u hu) (finite true v hv) = _
  rw [add, if_neg (by decide), if_neg huv.ne, if_pos huv, ofQuotient_one, ofUnits_of_representable true hsub]

theorem sub_eq_finite (hu : Representable u) (hv : Representable v) (hvu : v ≤ u)
    (hsub : Representable (u - v)) :
    finite false u hu - finite false v hv = finite false (u - v) hsub := by
  obtain ⟨hnearest, heq⟩ := exists_sub_eq_finite hu hv hvu
  rw [heq]
  simp only [nearest_eq hsub]

theorem floorDiv_eq (hu : Representable u) (hd : Representable d) (hpos : 0 < d)
    (hmultiple : Representable (u / d * d)) (hcount : Representable (u / d * one)) :
    floorDiv (finite false u hu) (finite false d hd) = finite false (u / d * one) hcount := by
  have hrest := representable_mod hu hd hpos
  have hremainder := remainder_finite hu hd hpos
  have hwhole : u - u % d = u / d * d := by
    have hdivision := Nat.div_add_mod u d
    rw [Nat.mul_comm d] at hdivision
    omega
  have hsub : finite false u hu - finite false (u % d) hrest = finite false (u / d * d) hmultiple := by
    rw [sub_eq_finite hu hrest (Nat.mod_le u d) (hwhole ▸ hmultiple)]
    simp only [hwhole]
  have hdiv : finite false (u / d * d) hmultiple / finite false d hd = finite false (u / d * one) hcount := by
    have hquotient : finite false (u / d * d) hmultiple / finite false d hd =
        ofQuotient false (u / d * d * one) d := if_neg (by omega)
    rw [hquotient, ofQuotient_eq, Nat.mul_right_comm, nearestQuotient_mul hpos, nearest_eq hcount,
      ofUnits_of_representable false hcount]
  have hfloor : floor (finite false (u / d * one) hcount) = finite false (u / d * one) hcount := by
    rw [floor, Nat.mul_div_cancel _ Binary64.one_pos, ofUnits_of_representable false hcount]
  have hsign : (finite false (u % d) hrest).lt zero = false := by simp [lt, zero]
  have hhalf : (ofRatio 1 2).lt (finite false 0 representable_zero) = false := by decide +kernel
  have hself : finite false (u / d * one) hcount - finite false (u / d * one) hcount =
      finite false 0 representable_zero := by
    rw [sub_eq_finite hcount hcount (Nat.le_refl _) (by rw [Nat.sub_self]; exact representable_zero)]
    simp only [Nat.sub_self]
  unfold floorDiv
  simp only [hremainder, hsub, hdiv, hsign, hfloor, hself, hhalf, Bool.false_eq_true, if_false]

/-! ### Signs -/

theorem isUnsigned_ofUnits (u : Nat) : (ofUnits false u).isUnsigned = true := by
  rw [ofUnits]
  split <;> rfl

theorem isUnsigned_floor (hx : x.isUnsigned = true) : x.floor.isUnsigned = true := by
  obtain rfl | ⟨u, hu, rfl⟩ := isUnsigned_cases hx
  · rfl
  · exact isUnsigned_ofUnits _

theorem isUnsigned_add_finite (hx : x.isUnsigned = true) (hv : Representable v) :
    (x + finite false v hv).isUnsigned = true := by
  obtain rfl | ⟨u, hu, rfl⟩ := isUnsigned_cases hx
  · rfl
  · change (add (finite false u hu) (finite false v hv)).isUnsigned = true
    rw [add, if_pos rfl]
    exact isUnsigned_ofUnits _

/-- What fits into a number without a sign is counted without a sign. -/
theorem isUnsigned_floorDiv (hu : Representable u) (hd : Representable d) (hpos : 0 < d) :
    (floorDiv (finite false u hu) (finite false d hd)).isUnsigned = true := by
  have hrest := representable_mod hu hd hpos
  have hremainder := remainder_finite hu hd hpos
  obtain ⟨v, hv, hsub, -⟩ := isUpTo_sub hu hrest (Nat.mod_le u d)
  have hquotient : finite false v hv / finite false d hd = ofQuotient false (v * one) d := if_neg (by omega)
  have hsign : (finite false (u % d) hrest).lt zero = false := by simp [lt, zero]
  have hwhole : (ofQuotient false (v * one) d).floor.isUnsigned = true :=
    isUnsigned_floor (isUnsigned_ofUnits _)
  unfold floorDiv
  simp only [hremainder, hsub, hquotient, hsign, ofInt_one, Bool.false_eq_true, if_false]
  split
  · exact isUnsigned_add_finite hwhole representable_one
  · exact hwhole

end Binary64

end Montage
