import Mathlib.Algebra.Order.Field.Power
import Mathlib.Data.Rat.Cast.Order
import Mathlib.Tactic.FieldSimp
import Montage.Number.Shortest
import Montage.Proofs.Number.Quotient

/-!
# The shortest digits of a binary number

Seventeen digits are enough for a binary number to be told from all others (`exists_onGrid?`), so that
the search for the fewest digits ends with some that read back (`shortest_spec`). What these digits
stand for is on the same side of every number of the format as the number itself
(`le_of_le_shortestValue`, `le_of_shortestValue_le`).
-/

namespace Montage.Binary64

variable {units n r : Nat} {place : Int}

/-! ### Grids

The magnitude `digits · 10 ^ place` is `digits * gridDenominator place` over `gridScale place` units. -/

def gridScale (place : Int) : Nat := if 0 ≤ place then 1 else Nat.pow 10 (-place).toNat

def gridDenominator (place : Int) : Nat := if 0 ≤ place then one * Nat.pow 10 place.toNat else one

theorem one_pos : 0 < one := Nat.pow_pos Nat.two_pos

theorem gridScale_pos (place : Int) : 0 < gridScale place := by
  unfold gridScale
  split
  · exact Nat.one_pos
  · exact Nat.pow_pos (by decide)

theorem gridDenominator_pos (place : Int) : 0 < gridDenominator place := by
  unfold gridDenominator
  split
  · exact Nat.mul_pos one_pos (Nat.pow_pos (by decide))
  · exact one_pos

/-- The step of a grid, in units. -/
theorem gridDenominator_eq (place : Int) :
    (gridDenominator place : ℚ) = one * 10 ^ place * gridScale place := by
  unfold gridDenominator gridScale
  by_cases hplace : 0 ≤ place
  · obtain ⟨k, rfl⟩ := Int.eq_ofNat_of_zero_le hplace
    rw [if_pos hplace, if_pos hplace, Int.toNat_natCast, zpow_natCast]
    generalize one = unit
    simp
  · obtain ⟨k, hk⟩ : ∃ k : Nat, place = -k := ⟨(-place).toNat, by omega⟩
    have hten : (10 : ℚ) ^ k ≠ 0 := pow_ne_zero k (by norm_num)
    rw [if_neg hplace, if_neg hplace, hk, neg_neg, Int.toNat_natCast, zpow_neg, zpow_natCast]
    generalize one = unit
    simp [hten]

theorem halfEven_cases (n d : Nat) :
    Rounding.halfEven n d = n / d ∨ Rounding.halfEven n d = n / d + 1 := by
  simp only [Rounding.halfEven]
  split
  · exact .inl rfl
  · split
    · exact .inr rfl
    · split
      · exact .inl rfl
      · exact .inr rfl

theorem onGrid?_eq (units : Nat) (place : Int) :
    onGrid? units place =
      let below := units * gridScale place / gridDenominator place
      let nearest := Rounding.halfEven (units * gridScale place) (gridDenominator place)
      let other := if nearest = below then below + 1 else below
      if unitsOfDecimal nearest place = some units then some nearest
      else if unitsOfDecimal other place = some units then some other
      else none := by
  have hnumerator : (if 0 ≤ place then units else units * Nat.pow 10 (-place).toNat) =
      units * gridScale place := by
    unfold gridScale
    split
    · exact (Nat.mul_one units).symm
    · rfl
  rw [onGrid?, hnumerator]
  rfl

/-- Digits on a grid read back, and are those next to the magnitude. -/
theorem onGrid?_eq_some (h : onGrid? units place = some n) :
    unitsOfDecimal n place = some units ∧
      n ≤ units * gridScale place / gridDenominator place + 1 := by
  have hnearest := halfEven_cases (units * gridScale place) (gridDenominator place)
  rw [onGrid?_eq] at h
  dsimp only at h
  generalize Rounding.halfEven _ _ = nearest at h hnearest
  generalize units * gridScale place / gridDenominator place = below at h hnearest ⊢
  by_cases hread : unitsOfDecimal nearest place = some units
  · rw [if_pos hread] at h
    obtain rfl := Option.some.inj h
    exact ⟨hread, by omega⟩
  · rw [if_neg hread] at h
    obtain ⟨hother, hvalue⟩ := Option.ite_none_right_eq_some.1 h
    obtain rfl := Option.some.inj hvalue
    exact ⟨hother, by split <;> omega⟩

/-! ### Reading digits back -/

theorem toBinary64_eq (negative : Bool) (n : Nat) (place : Int) (hpos : n ≠ 0)
    (hlow : -400 ≤ ((Text.decimal n).length : Int) + place)
    (hhigh : ((Text.decimal n).length : Int) + place ≤ 400) :
    Scientific.toBinary64 ⟨negative, n, place⟩ =
      .ofQuotient negative (n * gridDenominator place) (gridScale place) := by
  simp only [Scientific.toBinary64]
  rw [if_neg (by simp [hpos]; omega), if_neg (by omega), gridDenominator, gridScale]
  split
  · rw [Nat.mul_assoc, Nat.mul_comm (Nat.pow 10 _) one]
  · rfl

theorem unitsOfDecimal_eq (hpos : n ≠ 0) (hlow : -400 ≤ ((Text.decimal n).length : Int) + place)
    (hhigh : ((Text.decimal n).length : Int) + place ≤ 400) (hunits : Representable units)
    (hread : nearestQuotient (n * gridDenominator place) (gridScale place) = units) :
    unitsOfDecimal n place = some units := by
  have hvalue : Scientific.toBinary64 ⟨false, n, place⟩ = finite false units hunits := by
    rw [toBinary64_eq false n place hpos hlow hhigh, ofQuotient_eq, hread, ofUnits_of_representable false hunits]
  rw [unitsOfDecimal, hvalue]

/-- Digits that read back as a magnitude are rounded to it. -/
theorem nearestQuotient_of_unitsOfDecimal (h : unitsOfDecimal n place = some units)
    (hpos : 0 < units) :
    n ≠ 0 ∧ nearestQuotient (n * gridDenominator place) (gridScale place) = units := by
  have hzero : finite false 0 representable_zero = Scientific.toBinary64 ⟨false, n, place⟩ → False := by
    intro heq
    rw [unitsOfDecimal, ← heq] at h
    exact Nat.ne_of_gt hpos (Option.some.inj h).symm
  have hlimit : infinite false = Scientific.toBinary64 ⟨false, n, place⟩ → False := by
    intro heq
    rw [unitsOfDecimal, ← heq] at h
    cases h
  by_cases hsmall : n = 0 ∨ ((Text.decimal n).length : Int) + place < -400
  · refine (hzero ?_).elim
    simp [Scientific.toBinary64, hsmall]
  · by_cases hlarge : 400 < ((Text.decimal n).length : Int) + place
    · refine (hlimit ?_).elim
      simp [Scientific.toBinary64, hsmall, hlarge]
    · have hvalue := toBinary64_eq false n place (by tauto) (by omega) (by omega)
      refine ⟨by tauto, ?_⟩
      rw [unitsOfDecimal, hvalue, ofQuotient_eq, ofUnits] at h
      split at h
      · rename_i heq
        split at heq
        · cases heq
          exact Option.some.inj h
        · cases heq
      · cases h

/-! ### The place of the first digit -/

theorem length_decimal_pos (n : Nat) : 0 < (Text.decimal n).length := Nat.length_toDigits_pos

theorem length_decimal_le {k : Nat} (hk : 0 < k) : (Text.decimal n).length ≤ k ↔ n < 10 ^ k :=
  Nat.length_toDigits_le_iff (by decide) hk

theorem pow_length_decimal_le (hpos : 0 < n) : 10 ^ ((Text.decimal n).length - 1) ≤ n := by
  by_cases hone : (Text.decimal n).length = 1
  · rw [hone]
    exact hpos
  · have hlength := length_decimal_pos n
    by_contra hlt
    have := (length_decimal_le (n := n) (k := (Text.decimal n).length - 1) (by omega)).2 (by omega)
    omega

theorem lt_pow_length_decimal (n : Nat) : n < 10 ^ (Text.decimal n).length :=
  (length_decimal_le (length_decimal_pos n)).1 (Nat.le_refl _)

theorem lt_of_pow_mul_lt {m k d : Nat} (h : 10 ^ m * d < 10 ^ k * d) : m < k :=
  (Nat.pow_lt_pow_iff_right (by decide)).1 (Nat.lt_of_mul_lt_mul_right h)

/-- The first digit of a quotient in whole numbers is that of the quotient. -/
theorem pow_le_div {a b m : Nat} (hb : 0 < b) (hpos : 0 < a / b)
    (hm : m + 1 = (Text.decimal (a / b)).length) : 10 ^ m * b ≤ a ∧ a < 10 ^ (m + 1) * b := by
  have hlow := pow_length_decimal_le hpos
  rw [← hm, Nat.add_sub_cancel] at hlow
  have hhigh := lt_pow_length_decimal (a / b)
  rw [← hm] at hhigh
  exact ⟨(Nat.le_div_iff_mul_le hb).1 hlow, (Nat.div_lt_iff_lt_mul hb).1 hhigh⟩

/-- Below one, the first digit is that of a large multiple. -/
theorem leadingPlace_of_lt_one (hpos : 0 < units) (hlt : units < one) :
    ∃ m : Nat, leadingPlace units = m - 330 ∧ m < 330 ∧ 10 ^ m * one ≤ units * 10 ^ 330 ∧
      units * 10 ^ 330 < 10 ^ (m + 1) * one := by
  have hten : 0 < 10 ^ 330 := Nat.pow_pos (by decide)
  have hfits : one ≤ 10 ^ 330 := by decide +kernel
  have hquotient : 0 < units * 10 ^ 330 / one :=
    Nat.div_pos (hfits.trans (Nat.le_mul_of_pos_left _ hpos)) one_pos
  obtain ⟨m, hm⟩ : ∃ m, m + 1 = (Text.decimal (units * 10 ^ 330 / one)).length :=
    ⟨_, Nat.sub_add_cancel (length_decimal_pos _)⟩
  obtain ⟨hlow, hhigh⟩ := pow_le_div one_pos hquotient hm
  refine ⟨m, ?_, ?_, hlow, hhigh⟩
  · rw [leadingPlace, if_neg (by omega)]
    change ((Text.decimal (units * 10 ^ 330 / one)).length : Int) - 331 = _
    omega
  · refine lt_of_pow_mul_lt (d := one) ?_
    calc 10 ^ m * one
      _ ≤ units * 10 ^ 330 := hlow
      _ < one * 10 ^ 330 := Nat.mul_lt_mul_of_pos_right hlt hten
      _ = 10 ^ 330 * one := Nat.mul_comm _ _

theorem leadingPlace_of_one_le (hunits : units < unitLimit) (hle : one ≤ units) :
    ∃ m : Nat, leadingPlace units = m ∧ m < 309 ∧ 10 ^ m * one ≤ units ∧
      units < 10 ^ (m + 1) * one := by
  obtain ⟨m, hm⟩ : ∃ m, m + 1 = (Text.decimal (units / one)).length :=
    ⟨_, Nat.sub_add_cancel (length_decimal_pos _)⟩
  obtain ⟨hlow, hhigh⟩ := pow_le_div one_pos (Nat.div_pos hle one_pos) hm
  refine ⟨m, ?_, ?_, hlow, hhigh⟩
  · rw [leadingPlace, if_pos hle]
    omega
  · have hlimit : unitLimit ≤ 10 ^ 309 * one := by decide +kernel
    exact lt_of_pow_mul_lt (Nat.lt_of_le_of_lt hlow (Nat.lt_of_lt_of_le hunits hlimit))

theorem leadingPlace_spec (hunits : units < unitLimit) (hpos : 0 < units) :
    -330 ≤ leadingPlace units ∧ leadingPlace units < 309 ∧
      one * (10 : ℚ) ^ leadingPlace units ≤ units ∧
      (units : ℚ) < one * 10 ^ (leadingPlace units + 1) := by
  rcases Nat.lt_or_ge units one with hlt | hle
  · obtain ⟨m, hplace, hm, hlow, hhigh⟩ := leadingPlace_of_lt_one hpos hlt
    have hten : (0 : ℚ) < 10 ^ 330 := by positivity
    have hsplit : (10 : ℚ) ^ ((m : Int) - 330) = 10 ^ m / 10 ^ 330 := by
      rw [zpow_sub₀ (by norm_num), zpow_natCast]
      rfl
    have hlow : (10 ^ m * one : ℚ) ≤ units * 10 ^ 330 := by exact_mod_cast hlow
    have hhigh : (units * 10 ^ 330 : ℚ) < 10 ^ (m + 1) * one := by exact_mod_cast hhigh
    rw [hplace]
    refine ⟨by omega, by omega, ?_, ?_⟩
    · rw [hsplit, mul_div_assoc', div_le_iff₀ hten]
      linarith
    · rw [zpow_add₀ (by norm_num), hsplit, zpow_one, div_mul_eq_mul_div, mul_div_assoc',
        lt_div_iff₀ hten]
      rw [pow_succ (10 : ℚ) m] at hhigh
      linarith
  · obtain ⟨m, hplace, hm, hlow, hhigh⟩ := leadingPlace_of_one_le hunits hle
    have hlow : (10 ^ m * one : ℚ) ≤ units := by exact_mod_cast hlow
    have hhigh : (units : ℚ) < 10 ^ (m + 1) * one := by exact_mod_cast hhigh
    rw [hplace]
    refine ⟨by omega, by omega, ?_, ?_⟩
    · rw [zpow_natCast, mul_comm]
      exact hlow
    · have hsplit : (10 : ℚ) ^ ((m : Int) + 1) = 10 ^ (m + 1) := by exact_mod_cast zpow_natCast (10 : ℚ) (m + 1)
      rw [hsplit]
      linarith

theorem pow_mul_gridDenominator (m : Nat) (place : Int) :
    ((10 ^ m * gridDenominator place : Nat) : ℚ) = one * 10 ^ (place + m) * gridScale place := by
  have hsplit : (10 : ℚ) ^ (place + m) = 10 ^ place * 10 ^ m := by
    rw [zpow_add₀ (by norm_num), zpow_natCast]
  push_cast
  rw [gridDenominator_eq, hsplit]
  ring

/-- On the grid of its digit number `k`, from zero on, a magnitude has `k + 1` digits before the
point. -/
theorem grid_bounds (hunits : units < unitLimit) (hpos : 0 < units) (k : Nat) :
    10 ^ k * gridDenominator (leadingPlace units - k) ≤ units * gridScale (leadingPlace units - k) ∧
      units * gridScale (leadingPlace units - k) <
        10 ^ (k + 1) * gridDenominator (leadingPlace units - k) := by
  obtain ⟨-, -, hlow, hhigh⟩ := leadingPlace_spec hunits hpos
  have hscale : (0 : ℚ) < gridScale (leadingPlace units - k) := by
    exact_mod_cast gridScale_pos _
  have hplace : leadingPlace units - k + (k + 1 : Nat) = leadingPlace units + 1 := by omega
  constructor
  · rw [← Nat.cast_le (α := ℚ), pow_mul_gridDenominator, sub_add_cancel, Nat.cast_mul]
    exact mul_le_mul_of_nonneg_right hlow hscale.le
  · rw [← Nat.cast_lt (α := ℚ), pow_mul_gridDenominator, hplace, Nat.cast_mul]
    exact mul_lt_mul_of_pos_right hhigh hscale

/-! ### The search -/

/-- Seventeen digits are enough. -/
theorem exists_onGrid? (hunits : Representable units) (hpos : 0 < units) :
    ∃ n, onGrid? units (leadingPlace units - 16) = some n := by
  obtain ⟨hfirst, hlast, -, -⟩ := leadingPlace_spec hunits.1 hpos
  obtain ⟨hlow, hhigh⟩ := grid_bounds hunits.1 hpos 16
  rw [Nat.cast_ofNat] at hlow hhigh
  have hdenominator := gridDenominator_pos (leadingPlace units - 16)
  obtain ⟨habove, hbelow⟩ :=
    Rounding.halfEven_close (n := units * gridScale (leadingPlace units - 16)) hdenominator
  have hfew := Rounding.halfEven_le hdenominator (Nat.le_of_lt hhigh)
  have hmany := Rounding.le_halfEven hdenominator hlow
  rw [onGrid?_eq]
  dsimp only
  generalize Rounding.halfEven _ _ = nearest at *
  have hlength : (Text.decimal nearest).length ≤ 18 := (length_decimal_le (by decide)).2 (by omega)
  have hread : unitsOfDecimal nearest (leadingPlace units - 16) = some units := by
    refine unitsOfDecimal_eq (by omega) (by omega) (by omega) hunits ?_
    exact nearestQuotient_eq_of_close hunits (gridScale_pos _) (by omega) (by omega)
  exact ⟨nearest, if_pos hread⟩

theorem searchGrids_spec {leading : Int} (digits more : Nat)
    (hlast : ∃ n, onGrid? units (leading - (digits + more : Nat)) = some n) :
    ∃ k ≤ digits + more, ∃ n, onGrid? units (leading - k) = some n ∧
      searchGrids units leading digits more = (n, leading - k) := by
  induction more generalizing digits with
  | zero =>
    obtain ⟨n, hn⟩ := hlast
    exact ⟨digits, Nat.le_refl _, n, hn, by rw [searchGrids]; simp_all⟩
  | succ more ih =>
    rw [searchGrids]
    cases hgrid : onGrid? units (leading - digits) with
    | some n => exact ⟨digits, by omega, n, hgrid, rfl⟩
    | none =>
      rw [← Nat.succ_add_eq_add_succ] at hlast
      obtain ⟨k, hk, n, hn, hsearch⟩ := ih (digits + 1) hlast
      exact ⟨k, by omega, n, hn, hsearch⟩

/-- The digits that the search finds: at most seventeen, and they read back. -/
structure IsShort (units n : Nat) (place : Int) : Prop where
  reads_back : unitsOfDecimal n place = some units
  le : n ≤ 10 ^ 17
  low : -346 ≤ place
  high : place < 309

theorem shortest_spec (hunits : Representable units) (hpos : 0 < units) :
    IsShort units (shortest units).1 (shortest units).2 := by
  obtain ⟨hfirst, hlast, -, -⟩ := leadingPlace_spec hunits.1 hpos
  obtain ⟨k, hk, n, hn, hsearch⟩ := searchGrids_spec 0 16 (exists_onGrid? hunits hpos)
  obtain ⟨hread, hnext⟩ := onGrid?_eq_some hn
  obtain ⟨-, hhigh⟩ := grid_bounds hunits.1 hpos k
  have hquotient := (Nat.div_lt_iff_lt_mul (gridDenominator_pos _)).2 hhigh
  have hdigits : 10 ^ (k + 1) ≤ 10 ^ 17 := Nat.pow_le_pow_right (by decide) (by omega)
  rw [shortest, hsearch]
  exact ⟨hread, by omega, by dsimp only; omega, by dsimp only; omega⟩

/-! ### What the digits stand for -/

/-- The number that the shortest digits of a magnitude stand for. -/
def shortestValue (units : Nat) : ℚ :=
  if units = 0 then 0 else (shortest units).1 * 10 ^ (shortest units).2

theorem shortestValue_mul (hpos : 0 < units) :
    shortestValue units * one * gridScale (shortest units).2 =
      (shortest units).1 * gridDenominator (shortest units).2 := by
  rw [shortestValue, if_neg (by omega), gridDenominator_eq]
  ring

theorem le_of_le_shortestValue (hunits : Representable units) (hr : Representable r)
    (h : (r : ℚ) ≤ shortestValue units * one) : r ≤ units := by
  rcases Nat.eq_zero_or_pos units with rfl | hpos
  · rw [shortestValue, if_pos rfl, zero_mul] at h
    exact_mod_cast h
  obtain ⟨-, hread⟩ := nearestQuotient_of_unitsOfDecimal (shortest_spec hunits hpos).reads_back hpos
  rw [← hread]
  refine le_nearestQuotient (gridScale_pos _) hr ?_
  have hreal : (r * gridScale (shortest units).2 : ℚ) ≤
      (shortest units).1 * gridDenominator (shortest units).2 := by
    rw [← shortestValue_mul hpos]
    exact mul_le_mul_of_nonneg_right h (Nat.cast_nonneg _)
  exact_mod_cast hreal

theorem le_of_shortestValue_le (hunits : Representable units) (hr : Representable r)
    (h : shortestValue units * one ≤ r) : units ≤ r := by
  rcases Nat.eq_zero_or_pos units with rfl | hpos
  · exact Nat.zero_le r
  obtain ⟨-, hread⟩ := nearestQuotient_of_unitsOfDecimal (shortest_spec hunits hpos).reads_back hpos
  rw [← hread]
  refine nearestQuotient_le (gridScale_pos _) hr ?_
  have hreal : ((shortest units).1 * gridDenominator (shortest units).2 : ℚ) ≤
      r * gridScale (shortest units).2 := by
    rw [← shortestValue_mul hpos]
    exact mul_le_mul_of_nonneg_right h (Nat.cast_nonneg _)
  exact_mod_cast hreal

end Montage.Binary64
