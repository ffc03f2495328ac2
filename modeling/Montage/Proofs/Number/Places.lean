import Montage.Proofs.Number.Stamp

/-!
# Numbers with a fixed number of places

A finite number that is written with some decimal places reads back as a whole number of units of the last
place (`Binary64.read_fixed`), and larger numbers have no smaller texts (`Binary64.placed_mono`). So it is
with the times in a graph, where zero has no sign (`Timecode.read_graphText`).
-/

namespace Montage

/-- Whether two texts are numbers of which the first is at most the second. -/
def IsAtMost (s s' : String) : Prop :=
  ∃ r r', Ratio.read s = .ok r ∧ Ratio.read s' = .ok r' ∧ r.value ≤ r'.value

namespace Binary64

variable {places units : Nat} {x y : Binary64}

/-- A finite number in units of its last decimal place, a tie to the even one. -/
def placed (places : Nat) : Binary64 → Int
  | finite true units _ => -Rounding.halfEven (units * Nat.pow 10 places) one
  | finite false units _ => Rounding.halfEven (units * Nat.pow 10 places) one
  | _ => 0

theorem placed_mono (hx : x.isFinite = true) (hy : y.isFinite = true) (h : x.le y = true) :
    placed places x ≤ placed places y := by
  have hround {u v : Nat} (huv : u ≤ v) : Rounding.halfEven (u * Nat.pow 10 places) one ≤
      Rounding.halfEven (v * Nat.pow 10 places) one :=
    Rounding.halfEven_mono one_pos one_pos (Nat.mul_le_mul_right _ (Nat.mul_le_mul_right _ huv))
  cases x with
  | finite s u hu =>
    cases y with
    | finite r v hv =>
      cases s <;> cases r <;> have hunits := (le_iff_units rfl rfl).1 h
      · exact Int.ofNat_le.2 (hround (Int.ofNat_le.1 hunits))
      · -- A number without a sign is at most one with a sign only if both are zero.
        obtain ⟨rfl, rfl⟩ : u = 0 ∧ v = 0 := by omega
        have hzero : Rounding.halfEven (0 * Nat.pow 10 places) one = 0 :=
          Nat.le_zero.1 (Rounding.halfEven_le one_pos (by simp))
        simp only [placed, hzero]
        exact Int.le_refl 0
      · exact Int.neg_natCast_le_natCast _ _
      · exact Int.neg_le_neg (Int.ofNat_le.2 (hround (by omega)))
    | _ => cases hy
  | _ => cases hx

/-! ### The text -/

theorem length_decimalPadded_le {width k n : Nat} (hwidth : width ≤ k) (h : n < 10 ^ k) (hk : 0 < k) :
    (Text.decimalPadded width n).length ≤ k := by
  rw [Timecode.length_decimalPadded]
  exact Nat.max_le.2 ⟨hwidth, (length_decimal_le hk).2 h⟩

/-- Numbers of the format have few digits before the point. -/
theorem halfEven_lt_pow (hunits : Representable units) :
    Rounding.halfEven (units * Nat.pow 10 places) one < 10 ^ (places + 310) := by
  have hlimit : unitLimit ≤ 10 ^ 309 * one := by decide +kernel
  have hle : Rounding.halfEven (units * Nat.pow 10 places) one ≤ 10 ^ (places + 309) := by
    refine Rounding.halfEven_le one_pos ?_
    calc units * 10 ^ places
      _ ≤ 10 ^ 309 * one * 10 ^ places := Nat.mul_le_mul_right _ (hunits.1.le.trans hlimit)
      _ = 10 ^ (places + 309) * one := by rw [Nat.pow_add, Nat.mul_right_comm, Nat.mul_comm (10 ^ places)]
  exact Nat.lt_of_le_of_lt hle (Nat.pow_lt_pow_right (by decide) (by omega))

theorem fixed_finite (hplaces : places ≠ 0) (negative : Bool) (hunits : Representable units) :
    let digits := Text.decimalPadded (places + 1) (Rounding.halfEven (units * Nat.pow 10 places) one)
    (finite negative units hunits).fixed places = .ofList (signText negative ++
      (digits.take (digits.length - places) ++ '.' :: digits.drop (digits.length - places))) := by
  simp only [fixed, if_neg hplaces, List.append_assoc]

/-- A number with some places is read back as it was rounded. -/
theorem read_fixed (hplaces : places ≠ 0) (hlength : places ≤ 3000) (hx : x.isFinite = true) :
    ∃ r, Ratio.read (x.fixed places) = .ok r ∧ r.value = placed places x / 10 ^ places := by
  cases x with
  | finite negative units hunits =>
    have hdigits := Timecode.isDigit_decimalPadded (places + 1)
      (Rounding.halfEven (units * Nat.pow 10 places) one)
    have hvalue := Scientific.digitsValue_decimalPadded (places + 1)
      (Rounding.halfEven (units * Nat.pow 10 places) one)
    have hwidth : places + 1 ≤ (Text.decimalPadded (places + 1)
        (Rounding.halfEven (units * Nat.pow 10 places) one)).length := by
      rw [Timecode.length_decimalPadded]
      exact Nat.le_max_left _ _
    have hshort := length_decimalPadded_le (Nat.add_le_add_left (by decide : 1 ≤ 310) places)
      (halfEven_lt_pow hunits) (by omega)
    rw [fixed_finite hplaces]
    generalize Text.decimalPadded (places + 1)
      (Rounding.halfEven (units * Nat.pow 10 places) one) = digits at *
    have hwhole : IsDigits (digits.take (digits.length - places)) :=
      fun c hc => hdigits c (List.mem_of_mem_take hc)
    have hfraction : IsDigits (digits.drop (digits.length - places)) :=
      fun c hc => hdigits c (List.mem_of_mem_drop hc)
    have hne : digits.take (digits.length - places) ≠ [] := by
      rw [← List.length_pos_iff, List.length_take]
      omega
    -- The digits before and behind the point are, in a row, those of the rounded number.
    have hread := Scientific.read?_point negative _ _ [] hwhole hne hfraction rfl
    rw [List.append_nil, List.take_append_drop, hvalue, List.length_drop] at hread
    refine ⟨_, Ratio.read_numeral ?_ ?_ hread, ?_⟩
    · have hpoint : IsNumeral ['.'] := List.all_iff_forall_prop.1 (by decide)
      exact (isNumeral_signText negative).append
        (hwhole.isNumeral.append (hpoint.append hfraction.isNumeral))
    · have hsign : (signText negative).length ≤ 1 := by cases negative <;> decide
      simp only [List.length_append, List.length_cons, List.length_take, List.length_drop]
      omega
    · have hexponent : (0 : Int) - (digits.length - (digits.length - places) : Nat) = -places := by
        omega
      rw [Ratio.value_ofScientific, hexponent]
      simp only [Scientific.value, zpow_neg, zpow_natCast]
      cases negative with
      | true => rw [if_pos rfl, neg_one_mul, placed, Int.cast_neg, Int.cast_natCast, div_eq_mul_inv]
      | false => rw [if_neg Bool.false_ne_true, one_mul, placed, Int.cast_natCast, div_eq_mul_inv]
  | _ => cases hx

end Binary64

namespace Timecode

open Binary64

variable {x y : Binary64}

theorem read_graphText (hx : x.isFinite = true) :
    ∃ r, Ratio.read (graphText x) = .ok r ∧ r.value = placed 3 x / 10 ^ 3 := by
  obtain ⟨r, hread, hvalue⟩ := read_fixed (by decide : 3 ≠ 0) (by decide) hx
  unfold graphText
  dsimp only
  split
  · rename_i htext
    rw [htext] at hread
    have hzero : Ratio.read "-0.000" = .ok ⟨0, 1000⟩ := by decide
    have hplain : Ratio.read "0.000" = .ok ⟨0, 1000⟩ := by decide
    rw [hzero] at hread
    exact ⟨r, hplain.trans hread, hvalue⟩
  · exact ⟨r, hread, hvalue⟩

/-- The text of a later time says no less. -/
theorem graphText_isAtMost (hx : x.isFinite = true) (hy : y.isFinite = true) (h : x.le y = true) :
    IsAtMost (graphText x) (graphText y) := by
  obtain ⟨r, hr, hvalue⟩ := read_graphText hx
  obtain ⟨r', hr', hvalue'⟩ := read_graphText hy
  refine ⟨r, r', hr, hr', ?_⟩
  rw [hvalue, hvalue']
  have hplaced : (placed 3 x : ℚ) ≤ placed 3 y := Int.cast_le.2 (placed_mono hx hy h)
  gcongr

end Timecode

end Montage
