import Mathlib.Data.List.Induction
import Montage.Proofs.Number.Literal
import Montage.Timecode

/-!
# Numbers as points in time

The text of a binary number is a decimal literal that no context is too small for, so that every number is a
point in time (`Timecode.isOk_seconds_float`).
-/

namespace Montage

namespace Scientific

variable {cs : List Char} {x : Scientific}

theorem digitsValue_lt {digits : List Char} (h : IsDigits digits) :
    digitsValue digits < 10 ^ digits.length := by
  induction digits using List.reverseRecOn with
  | nil => decide
  | append_singleton digits c ih =>
    have hc : 48 ≤ c.toNat ∧ c.toNat ≤ 57 := Char.isDigit_iff_toNat.1 (h c (by simp))
    have hrest := ih fun d hd => h d (List.mem_append_left _ hd)
    have hlast : digitsValue [c] = c.toNat - 0x30 := by simp [digitsValue]
    rw [digitsValue_append, hlast, List.length_append, List.length_singleton, Nat.pow_succ]
    omega

/-- A literal has at most as many digits as characters. -/
theorem coefficient_lt_of_read? (h : read? cs = some x) : x.coefficient < 10 ^ cs.length := by
  have hsign : (takeSign cs).2.length ≤ cs.length := by
    unfold takeSign
    split <;> simp
  have htake (digits : List Char) : IsDigits (digits.takeWhile Char.isDigit) :=
    fun c hc => List.mem_takeWhile_imp hc
  have hvalue {whole fraction : List Char} (hwhole : IsDigits whole) (hfraction : IsDigits fraction)
      (hlength : whole.length + fraction.length ≤ cs.length) :
      digitsValue (whole ++ fraction) < 10 ^ cs.length := by
    refine Nat.lt_of_lt_of_le (digitsValue_lt (hwhole.append hfraction)) ?_
    rw [List.length_append]
    exact Nat.pow_le_pow_right (by decide) hlength
  -- A sign, a point and an exponent only leave fewer characters for the digits.
  unfold read? at h
  generalize takeSign cs = signed at h hsign
  obtain ⟨negative, body⟩ := signed
  dsimp only at h hsign
  have hbody : (body.takeWhile Char.isDigit).length + (body.dropWhile Char.isDigit).length = body.length := by
    rw [← List.length_append, List.takeWhile_append_dropWhile]
  generalize body.dropWhile Char.isDigit = rest at h hbody
  split at h
  · rename_i fraction
    dsimp only at h
    split at h
    · cases h
    · obtain ⟨e, -, rfl⟩ := Option.map_eq_some_iff.1 h
      have hprefix := (List.takeWhile_prefix Char.isDigit (l := fraction)).length_le
      rw [List.length_cons] at hbody
      exact hvalue (htake body) (htake fraction) (by omega)
  · dsimp only at h
    split at h
    · cases h
    · obtain ⟨e, -, rfl⟩ := Option.map_eq_some_iff.1 h
      exact hvalue (htake body) (fun c hc => (List.not_mem_nil hc).elim) (by rw [List.length_nil]; omega)

/-- Equal numbers of moderate size have exponents of moderate size. -/
theorem exponent_bounds {n high : Nat} {place : Int} {negative : Bool} (hpos : 0 < n) (hn : n ≤ 10 ^ 17)
    (hcoefficient : x.coefficient < 10 ^ high)
    (h : x.value = (if negative then -1 else 1) * (n * 10 ^ place)) :
    place - high ≤ x.exponent ∧ x.exponent ≤ place + 17 := by
  have hten : (1 : ℚ) < 10 := by norm_num
  have hvalue : (x.coefficient : ℚ) * 10 ^ x.exponent = n * 10 ^ place := by
    have hsign (b : Bool) {y : ℚ} (hy : 0 ≤ y) : |(if b then -1 else 1) * y| = y := by
      cases b <;> simp [abs_of_nonneg hy]
    have habs := congrArg abs h
    rwa [Scientific.value, mul_assoc, hsign _ (by positivity), hsign _ (by positivity)] at habs
  have hcoefficientPos : 0 < x.coefficient := by
    rw [Nat.pos_iff_ne_zero]
    intro hzero
    rw [hzero, Nat.cast_zero, zero_mul] at hvalue
    have : (0 : ℚ) < n * 10 ^ place := by positivity
    exact absurd hvalue this.ne
  -- Each exponent is bounded by the other, with what the two coefficients can make up for.
  constructor
  · have hlt : (10 : ℚ) ^ place < 10 ^ (high + x.exponent) := by
      calc (10 : ℚ) ^ place ≤ n * 10 ^ place :=
            le_mul_of_one_le_left (by positivity) (by exact_mod_cast hpos)
        _ = x.coefficient * 10 ^ x.exponent := hvalue.symm
        _ < 10 ^ high * 10 ^ x.exponent :=
            mul_lt_mul_of_pos_right (by exact_mod_cast hcoefficient) (by positivity)
        _ = 10 ^ (high + x.exponent) := by rw [zpow_add₀ (by norm_num), zpow_natCast]
    have := (zpow_lt_zpow_iff_right₀ hten).1 hlt
    omega
  · have hle : (10 : ℚ) ^ x.exponent ≤ 10 ^ (place + 17) := by
      calc (10 : ℚ) ^ x.exponent ≤ x.coefficient * 10 ^ x.exponent :=
            le_mul_of_one_le_left (by positivity) (by exact_mod_cast hcoefficientPos)
        _ = n * 10 ^ place := hvalue
        _ ≤ 10 ^ 17 * 10 ^ place := mul_le_mul_of_nonneg_right (by exact_mod_cast hn) (by positivity)
        _ = 10 ^ (place + 17) := by
            rw [add_comm, zpow_add₀ (by norm_num)]
            norm_cast
    exact (zpow_le_zpow_iff_right₀ hten).1 hle

end Scientific

namespace Decimal

variable {cs : List Char} {x : Scientific}

/-- A literal whose digits and exponent are moderate is taken as it is. -/
theorem ofScientific_eq (high : Nat) (hcoefficient : x.coefficient < 10 ^ high) (hhigh : high < 10 ^ 17)
    (hbelow : -10 ^ 17 ≤ x.exponent) (habove : x.exponent ≤ 10 ^ 17) :
    ofScientific x = .ok (finite x.negative x.coefficient x.exponent) := by
  have hdigits : digitCount x.coefficient ≤ high + 1 := by
    rcases Nat.eq_zero_or_pos high with rfl | hpos
    · rw [Nat.pow_zero, Nat.lt_one_iff] at hcoefficient
      rw [hcoefficient]
      decide
    · exact Nat.le_succ_of_le ((Binary64.length_decimal_le hpos).2 hcoefficient)
  have hmax : Context.widest.maxExponent = 999999999999999999 := rfl
  have hlast : Context.widest.lastExponent = -1999999999999999997 := rfl
  unfold ofScientific
  dsimp only
  rw [hmax, hlast]
  split
  · rename_i hzero
    rw [if_neg (by simp; omega), hzero]
  · rw [if_neg (by simp; omega)]

theorem read_numeral (hcs : IsNumeral cs) (hread : Scientific.read? cs = some x) :
    read cs = ofScientific x := by
  have hfilter : cs.filter (· ≠ '_') = cs := by
    refine List.filter_eq_self.2 fun c hc => decide_eq_true ?_
    rintro rfl
    exact absurd (hcs _ hc) (by decide)
  rw [read, Text.trimBlank, Ratio.plain_of_isNumeral hcs, hfilter, hread]

end Decimal

namespace Timecode

open Binary64

/-- The literal of a finite number. -/
theorem ofBinary64_finite (negative : Bool) {units : Nat} (hunits : Representable units) (hpos : 0 < units) :
    ∃ x : Scientific, ofBinary64 (finite negative units hunits) =
      .ok (.finite x.negative x.coefficient x.exponent) := by
  have hshort := shortest_spec hunits hpos
  have hn := Nat.pos_of_ne_zero (nearestQuotient_of_unitsOfDecimal hshort.reads_back hpos).1
  rw [ofBinary64, repr_finite negative hunits hpos, String.toList_ofList]
  generalize (shortest units).1 = n at *
  generalize (shortest units).2 = place at *
  obtain ⟨x, hx, hvalue⟩ := read?_written negative hn place
  have hlength := length_text_le negative hshort hn
  have hcoefficient := Scientific.coefficient_lt_of_read? hx
  obtain ⟨hbelow, habove⟩ := Scientific.exponent_bounds hn hshort.le hcoefficient hvalue
  have hlow := hshort.low
  have hhigh := hshort.high
  have hnumeral := (isNumeral_signText negative).append (isNumeral_written hn place)
  refine ⟨x, ?_⟩
  rw [Decimal.read_numeral hnumeral hx]
  exact Decimal.ofScientific_eq _ hcoefficient (by omega) (by omega) (by omega)

theorem isOk_seconds_float (x : Binary64) : (seconds (.float x)).isOk = true := by
  have hspecial : (seconds (.float .nan)).isOk = true ∧
      (∀ negative, (seconds (.float (.infinite negative))).isOk = true) ∧
      ∀ negative, (seconds (.float (.finite negative 0 representable_zero))).isOk = true := by
    decide +kernel
  cases x with
  | nan => exact hspecial.1
  | infinite negative => exact hspecial.2.1 negative
  | finite negative units hunits =>
    rcases Nat.eq_zero_or_pos units with rfl | hpos
    · exact hspecial.2.2 negative
    · obtain ⟨x, hx⟩ := ofBinary64_finite negative hunits hpos
      rw [seconds, read, hx]
      rfl

end Timecode

end Montage
