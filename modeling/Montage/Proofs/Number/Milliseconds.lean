import Montage.Proofs.Number.Literal

/-!
# Times in milliseconds

A time from zero on is counted in milliseconds by a product, its shortest text, and the nearest whole
number to that. The product is off by at most one rounding, and nothing is lost on the way through the
text (`Timecode.round_finite`), so that the count is off by one half and that rounding
(`Timecode.milliseconds_close`).
-/

namespace Montage

namespace Binary64

variable {m k u w : Nat}

theorem representable_mul_two_pow (hm : m < 2 ^ 53) (hlimit : m * Nat.pow 2 k < unitLimit) :
    Representable (m * Nat.pow 2 k) := by
  refine ⟨hlimit, ?_⟩
  by_cases hzero : m = 0
  · rw [hzero, Nat.zero_mul]
    exact Nat.dvd_zero _
  · have hpower : 0 < Nat.pow 2 k := Nat.pow_pos Nat.two_pos
    have hlog : (m * Nat.pow 2 k).log2 < 53 + k := by
      rw [Nat.log2_lt (Nat.mul_ne_zero hzero (Nat.ne_of_gt hpower)), Nat.pow_add]
      exact Nat.mul_lt_mul_of_pos_right hm hpower
    exact (Nat.pow_dvd_pow 2 (by omega)).trans (Nat.dvd_mul_left _ _)

/-- Half of one, in units. -/
def half : Nat := Nat.pow 2 1073

theorem half_pos : 0 < half := by decide +kernel

theorem one_eq : one = 2 * half := by decide +kernel

/-- Halves are numbers of the format, up to a bound. -/
theorem representable_halves (hm : m < 2 ^ 53) : Representable (m * half) := by
  have hlimit : 2 ^ 53 * half < unitLimit := by decide +kernel
  have hlt : m * half < 2 ^ 53 * half := Nat.mul_lt_mul_of_pos_right hm half_pos
  exact representable_mul_two_pow hm (Nat.lt_trans hlt hlimit)

theorem shortestValue_nonneg (u : Nat) : 0 ≤ shortestValue u := by
  unfold shortestValue
  split
  · exact le_rfl
  · exact mul_nonneg (Nat.cast_nonneg _) (zpow_nonneg (by norm_num) _)

/-- Halves in units, for a magnitude and for what its text says. -/
theorem value_mul_one (x : ℚ) : x * one = 2 * x * half := by
  rw [one_eq, Nat.cast_mul]
  generalize half = step
  push_cast
  ring

theorem halves_le (hw : Representable w) (hm : m < 2 ^ 53) (h : (m : ℚ) ≤ 2 * shortestValue w) :
    m * half ≤ w := by
  apply le_of_le_shortestValue hw (representable_halves hm)
  rw [value_mul_one, Nat.cast_mul]
  exact mul_le_mul_of_nonneg_right h (Nat.cast_nonneg _)

theorem le_halves (hw : Representable w) (hm : m < 2 ^ 53) (h : 2 * shortestValue w ≤ m) :
    w ≤ m * half := by
  apply le_of_shortestValue_le hw (representable_halves hm)
  rw [value_mul_one, Nat.cast_mul]
  exact mul_le_mul_of_nonneg_right h (Nat.cast_nonneg _)

end Binary64

open Binary64

/-- A magnitude that is not too large is rounded to a whole number at most one half away. -/
theorem Timecode.round_finite {w : Nat} {hw : Representable w} {d : Int}
    (h : Timecode.round (finite false w hw) = .ok d) (hlimit : w < 2 ^ 51 * half) :
    ∃ n : Nat, d = n ∧ 2 * n * half ≤ w + half ∧ w ≤ (2 * n + 1) * half := by
  obtain ⟨exact, hexact, hlow, hhigh⟩ := Timecode.round_eq_ok h
  obtain ⟨r, hr, hvalue⟩ := Timecode.ratio?_finite false hw
  obtain rfl := Option.some.inj (hexact.symm.trans hr)
  rw [hvalue, if_neg nofun, one_mul] at hlow hhigh
  have hbound : 2 * shortestValue w < 2 ^ 51 := by
    by_contra hlarge
    have hle := halves_le (m := 2 ^ 51) hw (by decide) (by exact_mod_cast not_lt.1 hlarge)
    exact absurd hle (Nat.not_le.2 hlimit)
  have hnonneg : 0 ≤ d := by
    have hpos : (0 : ℚ) < d + 1 := by linarith [shortestValue_nonneg w]
    have hpos : 0 < d + 1 := by exact_mod_cast hpos
    omega
  obtain ⟨n, rfl⟩ := Int.eq_ofNat_of_zero_le hnonneg
  rw [Int.cast_natCast] at hlow hhigh
  have hsmall : n < 2 ^ 51 := by
    have hlt : (n : ℚ) < 2 ^ 50 + 1 := by linarith
    have hlt : n < 2 ^ 50 + 1 := by exact_mod_cast hlt
    omega
  refine ⟨n, rfl, ?_, le_halves hw (by omega) (by push_cast; linarith)⟩
  cases n with
  | zero =>
    rw [Nat.mul_zero, Nat.zero_mul]
    exact Nat.zero_le _
  | succ k =>
    have hle := halves_le (m := 2 * k + 1) hw (by omega) (by push_cast at hlow ⊢; linarith)
    have hsplit : 2 * (k + 1) * half = (2 * k + 1) * half + half := by
      generalize half = step
      ring
    rw [hsplit]
    exact Nat.add_le_add_right hle half

namespace Binary64

variable {u : Nat}

theorem finite_mul_finite {v : Nat} (hu : Representable u) (hv : Representable v) :
    finite false u hu * finite false v hv = ofQuotient false (u * v) one := by
  change mul _ _ = _
  simp only [mul, bne_self_eq_false]

theorem mul_thousand (hu : Representable u) :
    finite false u hu * ofInt 1000 = ofUnits false (nearest (1000 * u)) := by
  obtain ⟨hthousand, heq⟩ : ∃ h, ofInt 1000 = finite false (1000 * one) h :=
    ⟨by decide +kernel, by decide +kernel⟩
  rw [heq, finite_mul_finite, ofQuotient_eq, ← Nat.mul_assoc, nearestQuotient_mul one_pos,
    Nat.mul_comm]

theorem max_zero (hu : Representable u) : max zero (finite false u hu) = finite false u hu := by
  rcases Nat.eq_zero_or_pos u with rfl | hpos
  · rfl
  · exact if_pos (decide_eq_true hpos)

theorem max_zero_of_nonneg {x : Binary64} (hx : x.toUnits? = some (u : Int)) :
    max zero x = finite false u (representable_of_units hx) := by
  cases x with
  | finite negative v hv =>
    cases negative with
    | true =>
      have hsign : -(v : Int) = u := Option.some.inj hx
      obtain rfl : u = 0 := by omega
      exact if_neg nofun
    | false =>
      obtain rfl : v = u := Int.ofNat.inj (Option.some.inj hx)
      exact max_zero hv
  | _ => cases hx

theorem max_zero_of_nonpos {x : Binary64} {units : Int} (hx : x.toUnits? = some units)
    (hunits : units ≤ 0) : max zero x = zero := by
  cases x with
  | finite negative u hu =>
    cases negative with
    | true => exact if_neg nofun
    | false =>
      obtain rfl : (u : Int) = units := Option.some.inj hx
      obtain rfl : u = 0 := by omega
      rfl
  | _ => cases hx

end Binary64

namespace Timecode

theorem milliseconds_zero : milliseconds zero = .ok 0 := by decide +kernel

/-- Whole milliseconds, in units: one half of a millisecond and the rounding of a product away. -/
theorem milliseconds_units {u : Nat} (hu : Representable u) (hlimit : u < 10 ^ 9 * one) {d : Int}
    (h : milliseconds (finite false u hu) = .ok d) :
    2 ^ 53 * (2 * d * half - 1000 * u) ≤ 2 ^ 53 * half + 1000 * u ∧
      2 ^ 53 * (1000 * u - 2 * d * half) ≤ 2 ^ 53 * half + 1000 * u := by
  obtain ⟨habove, hbelow⟩ := nearest_close (1000 * u)
  rw [one_eq] at hlimit
  have hsmall : nearest (1000 * u) < 2 ^ 51 * half := by
    generalize half = step at *
    omega
  have hlarge : 2 ^ 51 * half < unitLimit := by decide +kernel
  have hrepresentable := representable_nearest (Nat.lt_trans hsmall hlarge)
  rw [milliseconds, mul_thousand, ofUnits_of_representable false hrepresentable] at h
  obtain ⟨n, rfl, hlow, hhigh⟩ := round_finite h hsmall
  generalize nearest (1000 * u) = w at *
  generalize half = step at *
  have hwhole : (2 * n * step : Int) = (2 * n * step : Nat) := by push_cast; rfl
  rw [Nat.add_mul] at hhigh
  rw [hwhole]
  generalize 2 * n * step = whole at *
  omega

/-- A distance in units of half a second, as one in milliseconds. -/
theorem close_of_units {u step : Nat} (hstep : 0 < step) {d : Int}
    (habove : 2 ^ 53 * (2 * d * step - 1000 * u) ≤ 2 ^ 53 * step + 1000 * u)
    (hbelow : 2 ^ 53 * (1000 * u - 2 * d * step) ≤ 2 ^ 53 * step + 1000 * u) :
    |(d : ℚ) - 1000 * (u / (2 * step))| ≤ 1 / 2 + 1000 * (u / (2 * step)) / 2 ^ 53 := by
  have hpos : (0 : ℚ) < step := by exact_mod_cast hstep
  have habove : (2 ^ 53 * (2 * d * step - 1000 * u) : ℚ) ≤ 2 ^ 53 * step + 1000 * u := by
    exact_mod_cast habove
  have hbelow : (2 ^ 53 * (1000 * u - 2 * d * step) : ℚ) ≤ 2 ^ 53 * step + 1000 * u := by
    exact_mod_cast hbelow
  have hquotient : (u : ℚ) / (2 * step) * (2 * step) = u := div_mul_cancel₀ _ (by positivity)
  generalize (u : ℚ) / (2 * step) = x at *
  rw [← hquotient] at habove hbelow
  rw [abs_le]
  constructor
  · nlinarith
  · nlinarith

/-- Whole milliseconds are off by one half, and by what the product by 1000 is rounded. -/
theorem milliseconds_close {u : Nat} (hu : Representable u) (hlimit : u < 10 ^ 9 * one) {d : Int}
    (h : milliseconds (finite false u hu) = .ok d) :
    |(d : ℚ) - 1000 * (u / one)| ≤ 1 / 2 + 1000 * (u / one) / 2 ^ 53 := by
  obtain ⟨habove, hbelow⟩ := milliseconds_units hu hlimit h
  rw [one_eq, Nat.cast_mul, Nat.cast_ofNat]
  exact close_of_units half_pos habove hbelow

end Timecode

end Montage
