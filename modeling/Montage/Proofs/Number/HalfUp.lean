import Mathlib.Algebra.Order.Field.Basic
import Mathlib.Data.Rat.Cast.Order
import Mathlib.Tactic.Linarith
import Montage.Timecode

/-!
# Rounding to the nearest whole number

`Rounding.halfUp` gives a whole number at most one half away, and the larger of two such numbers
(`Ratio.round_spec`); there is only one of these (`Ratio.round_eq_iff`). Ratios that are read from text
have a denominator, so that this holds of every number in a timecode.
-/

namespace Montage

namespace Rounding

variable {n : Int} {d : Nat}

/-- What `halfUp` gives, without fractions. -/
theorem halfUp_spec (hd : 0 < d) :
    (2 * halfUp n d - 1) * d ≤ 2 * n ∧ 2 * n < (2 * halfUp n d + 1) * d := by
  have hpos : (0 : Int) < d := by exact_mod_cast hd
  have hdivision : d * n.fdiv d + n.fmod d = n := Int.mul_fdiv_add_fmod n d
  have hlow : 0 ≤ n.fmod d := Int.fmod_nonneg_of_pos n hpos
  have hhigh : n.fmod d < d := Int.fmod_lt_of_pos n hpos
  simp only [halfUp]
  generalize n.fdiv d = whole at *
  generalize n.fmod d = rest at *
  have hrest : n - whole * d = rest := by linarith [Int.mul_comm whole d]
  rw [hrest]
  split <;> constructor <;> nlinarith

end Rounding

namespace Ratio

/-- The number that a ratio stands for. -/
def value (x : Ratio) : ℚ := x.numerator / x.denominator

theorem round_spec {x : Ratio} (hd : 0 < x.denominator) :
    (x.round : ℚ) - 1 / 2 ≤ x.value ∧ x.value < x.round + 1 / 2 := by
  obtain ⟨hlow, hhigh⟩ := Rounding.halfUp_spec (n := x.numerator) hd
  have hpos : (0 : ℚ) < x.denominator := by exact_mod_cast hd
  have hlow : ((2 * x.round - 1 : Int) * x.denominator : ℚ) ≤ 2 * x.numerator := by exact_mod_cast hlow
  have hhigh : (2 * x.numerator : ℚ) < (2 * x.round + 1 : Int) * x.denominator := by exact_mod_cast hhigh
  push_cast at hlow hhigh
  rw [value, le_div_iff₀ hpos, div_lt_iff₀ hpos]
  constructor <;> linarith

/-- A ratio is rounded to the one whole number that is at most one half below or less than one half above. -/
theorem round_eq_iff {x : Ratio} (hd : 0 < x.denominator) {n : Int} :
    x.round = n ↔ (n : ℚ) - 1 / 2 ≤ x.value ∧ x.value < n + 1 / 2 := by
  obtain ⟨hlow, hhigh⟩ := round_spec hd
  constructor
  · rintro rfl
    exact ⟨hlow, hhigh⟩
  · rintro ⟨hlow', hhigh'⟩
    have hle : (x.round : ℚ) < n + 1 := by linarith
    have hge : (n : ℚ) < x.round + 1 := by linarith
    have hle : x.round < n + 1 := by exact_mod_cast hle
    have hge : n < x.round + 1 := by exact_mod_cast hge
    omega

theorem round_mono {x y : Ratio} (hx : 0 < x.denominator) (hy : 0 < y.denominator)
    (h : x.value ≤ y.value) : x.round ≤ y.round := by
  have hlt : (x.round : ℚ) < y.round + 1 := by
    linarith [(round_spec hx).1, (round_spec hy).2]
  have hlt : x.round < y.round + 1 := by exact_mod_cast hlt
  omega

theorem denominator_ofScientific_pos (x : Scientific) : 0 < (ofScientific x).denominator := by
  simp only [ofScientific]
  by_cases hexponent : 0 ≤ x.exponent
  · rw [if_pos hexponent]
    exact Nat.one_pos
  · rw [if_neg hexponent]
    exact Nat.pow_pos (by decide)

theorem denominator_pos_of_read {s : String} {x : Ratio} (h : read s = .ok x) :
    0 < x.denominator := by
  unfold read at h
  split at h
  · cases h
  · split at h
    · split at h
      · cases h
      · split at h
        · cases h
        · rename_i digits _ _ _ _ _
          by_cases hzero : Scientific.digitsValue digits = 0
          · simp [hzero] at h
          · rw [if_neg hzero] at h
            cases h
            exact Nat.pos_of_ne_zero hzero
    · split at h
      · cases h
      · cases h
        exact denominator_ofScientific_pos _

end Ratio

/-- A time is rounded to a whole number at most one half away from what its text says. -/
theorem Timecode.round_eq_ok {x : Binary64} {n : Int} (h : Timecode.round x = .ok n) :
    ∃ exact, Timecode.ratio? x = some exact ∧
      (n : ℚ) - 1 / 2 ≤ exact.value ∧ exact.value < n + 1 / 2 := by
  unfold Timecode.round at h
  split at h
  · rename_i exact hexact
    cases h
    have hread : Ratio.read x.repr = .ok exact := by
      cases hread : Ratio.read x.repr <;> simp_all [Timecode.ratio?, Except.toOption]
    exact ⟨exact, hexact, Ratio.round_spec (Ratio.denominator_pos_of_read hread)⟩
  · cases h

end Montage
