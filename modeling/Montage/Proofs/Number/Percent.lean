import Montage.Measure
import Montage.Proofs.Graph.Compilable
import Montage.Proofs.Number.Stamp

/-!
# Percentages of a duration

Whole numbers keep their order in the binary format, and so do their products and quotients with what is
above zero (`Binary64.IsScaling.le`). Hence more work done is no smaller percentage of the whole, and every
percentage is between 0 and 100 (`Measure.progressOf_mono`, `Measure.progressOf_mem`).
-/

namespace Montage

namespace Binary64

variable {s r : Bool} {a b k d n m : Nat} {x y : Binary64} {f : Binary64 → Binary64}

theorem representable_nearestQuotient (hd : 0 < d) (hlimit : nearestQuotient n d < unitLimit) :
    Representable (nearestQuotient n d) := by
  have hquotient := lt_two_pow_exponent (n / d)
  have hbits : Rounding.halfEven n (d * Nat.pow 2 (exponent (n / d))) ≤ 2 ^ 53 := by
    refine Rounding.halfEven_le (step_pos hd _) ?_
    rw [Nat.mul_left_comm, Nat.mul_comm d]
    exact ((Nat.div_lt_iff_lt_mul hd).1 hquotient).le
  rcases Nat.eq_or_lt_of_le hbits with hpower | hbelow
  · have hone : nearestQuotient n d = 1 * Nat.pow 2 (53 + exponent (n / d)) := by
      rw [nearestQuotient, hpower, Nat.one_mul]
      exact (Nat.pow_add 2 53 _).symm
    rw [hone] at hlimit ⊢
    exact representable_mul_two_pow (by decide) hlimit
  · exact representable_mul_two_pow hbelow hlimit

/-- A larger quotient does not become a smaller number. -/
theorem ofQuotient_le_ofQuotient {n' d' : Nat} (hd : 0 < d) (hd' : 0 < d') (h : n * d' ≤ n' * d) :
    (ofQuotient false n d).le (ofQuotient false n' d') = true := by
  have hnearest := nearestQuotient_mono hd hd' h
  rw [ofQuotient_eq, ofQuotient_eq]
  by_cases hlimit : nearestQuotient n' d' < unitLimit
  · rw [ofUnits_of_representable false (representable_nearestQuotient hd' hlimit),
      ofUnits_of_representable false
        (representable_nearestQuotient hd (Nat.lt_of_le_of_lt hnearest hlimit))]
    exact (le_iff_units rfl rfl).2 (Int.ofNat_le.2 hnearest)
  · have hlarge : ofUnits false (nearestQuotient n' d') = infinite false := dif_neg fun hv => hlimit hv.1
    rw [hlarge]
    exact ofQuotient_le_infinite false n d

/-- A whole number by its sign and magnitude. -/
def signed (s : Bool) (a : Nat) : Int := if s then -a else a

theorem ofQuotient_zero_left (s : Bool) (hd : 0 < d) :
    ofQuotient s 0 d = finite s 0 representable_zero := by
  have hzero : nearestQuotient 0 d = 0 :=
    Nat.le_zero.1 (nearestQuotient_le hd representable_zero (Nat.zero_le _))
  rw [ofQuotient_eq, hzero]
  exact ofUnits_of_representable s representable_zero

theorem zero_le_ofQuotient (n : Nat) (hd : 0 < d) : zero.le (ofQuotient false n d) = true := by
  have hle := ofQuotient_le_ofQuotient hd hd (Nat.mul_le_mul_right d (Nat.zero_le n))
  rwa [ofQuotient_zero_left false hd] at hle

theorem ofQuotient_le_of_signed (hd : 0 < d) (h : signed s a ≤ signed r b) :
    (ofQuotient s (a * k) d).le (ofQuotient r (b * k) d) = true := by
  have hscaled {u v : Nat} (huv : u ≤ v) :
      (ofQuotient false (u * k) d).le (ofQuotient false (v * k) d) = true :=
    ofQuotient_le_ofQuotient hd hd (Nat.mul_le_mul_right d (Nat.mul_le_mul_right k huv))
  cases s <;> cases r <;> simp only [signed, if_true, if_false, Bool.false_eq_true] at h
  · exact hscaled (by omega)
  · obtain ⟨rfl, rfl⟩ : a = 0 ∧ b = 0 := by omega
    rw [Nat.zero_mul, ofQuotient_zero_left false hd, ofQuotient_zero_left true hd]
    exact (le_iff_units rfl rfl).2 (Int.le_refl 0)
  · exact le_trans (ofQuotient_true_le_zero _ _) (zero_le_ofQuotient _ hd)
  · rw [ofQuotient_true, ofQuotient_true, neg_le_neg]
    exact hscaled (by omega)

theorem ofInt_mono {i j : Int} (h : i ≤ j) : (ofInt i).le (ofInt j) = true := by
  have hsigned (i : Int) : signed (decide (i < 0)) i.natAbs = i := by
    simp only [signed, decide_eq_true_eq]
    split <;> omega
  rw [ofInt, ofInt, ofRatio, ofRatio]
  refine ofQuotient_le_of_signed Nat.one_pos ?_
  rwa [hsigned, hsigned]

/-! ### Products and quotients -/

theorem eq_finite_of_units {m : Int} (hx : x.toUnits? = some m) :
    ∃ s a, ∃ ha : Representable a, x = finite s a ha ∧ m = signed s a := by
  cases x with
  | finite s a ha => cases s <;> exact ⟨_, a, ha, rfl, (Option.some.inj hx).symm⟩
  | _ => cases hx

/-- To take numbers times a quotient, each rounded once. -/
structure IsScaling (k d : Nat) (f : Binary64 → Binary64) : Prop where
  pos : 0 < d
  finite : ∀ s a h, f (.finite s a h) = ofQuotient s (a * k) d
  infinite : ∀ s, f (.infinite s) = .infinite s

namespace IsScaling

variable (hf : IsScaling k d f)

include hf

theorem isNaN (hx : x.isNaN = false) : (f x).isNaN = false := by
  cases x with
  | nan => cases hx
  | infinite s => rw [hf.infinite]; rfl
  | finite s a h => rw [hf.finite]; exact isNaN_ofQuotient _ _ _

theorem le (h : x.le y = true) : (f x).le (f y) = true := by
  rcases le_cases h with ⟨m, n, hm, hn, hmn⟩ | ⟨rfl, hy⟩ | ⟨rfl, hx⟩
  · obtain ⟨s, a, ha, rfl, rfl⟩ := eq_finite_of_units hm
    obtain ⟨r, b, hb, rfl, rfl⟩ := eq_finite_of_units hn
    rw [hf.finite, hf.finite]
    exact ofQuotient_le_of_signed hf.pos hmn
  · rw [hf.infinite]
    exact infinite_true_le (hf.isNaN hy)
  · rw [hf.infinite]
    exact le_infinite (hf.isNaN hx)

end IsScaling

theorem isScaling_mul (hk : Representable k) (hpos : 0 < k) :
    IsScaling k one (· * finite false k hk) where
  pos := one_pos
  finite s a h := by
    have hmul : Binary64.finite s a h * Binary64.finite false k hk =
        ofQuotient (s != false) (a * k) one := by
      change mul _ _ = _
      rw [mul]
    rw [hmul, Bool.bne_false]
  infinite s := by
    change (if k = 0 then nan else .infinite (s != false)) = _
    rw [if_neg (by omega), Bool.bne_false]

theorem isScaling_div (hd : Representable d) (hpos : 0 < d) :
    IsScaling one d (· / finite false d hd) where
  pos := hpos
  finite s a h := by
    change (if d = 0 then _ else ofQuotient (s != false) (a * one) d) = _
    rw [if_neg (by omega), Bool.bne_false]
  infinite s := congrArg Binary64.infinite (Bool.bne_false s)

end Binary64

namespace Measure

open Binary64

variable {x y : Binary64}

theorem ofInt_hundred : ∃ h, ofInt 100 = finite false (100 * one) h :=
  ⟨by decide +kernel, by decide +kernel⟩

theorem isScaling_hundred : IsScaling (100 * one) one (· * ofInt 100) := by
  obtain ⟨h, heq⟩ := ofInt_hundred
  rw [heq]
  exact isScaling_mul h (by decide +kernel)

/-- A percentage is 0, or 100, or rounded from a number in between. -/
inductive IsPercentage (percent : Binary64) : Int → Prop
  | none (h : percent.isNaN = true ∨ percent.le zero = true) : IsPercentage percent 0
  | all (h : (ofInt 100).le percent = true) : IsPercentage percent 100
  | some {w : Nat} (hw : Representable w) (hlimit : w ≤ 100 * one) (hpercent : percent = finite false w hw)
      {n : Int} (hround : Timecode.round (finite false w hw) = .ok n) : IsPercentage percent n

theorem isPercentage_progressOf (x : Binary64) : IsPercentage (x * ofInt 100) (progressOf x) := by
  obtain ⟨h, hundred⟩ := ofInt_hundred
  unfold progressOf
  dsimp only
  split
  · rename_i hnone
    rcases Bool.or_eq_true_iff.1 hnone with hx | hle
    · obtain rfl : x = nan := by cases x <;> first | rfl | cases hx
      exact .none (.inl rfl)
    · exact .none (.inr hle)
  · rename_i hsome
    rw [Bool.or_eq_true_iff, not_or, Bool.not_eq_true, Bool.not_eq_true] at hsome
    have hpercent := isScaling_hundred.isNaN hsome.1
    split
    · rename_i hall
      exact .all hall
    · rename_i hbelow
      rw [hundred] at hbelow hpercent hsome ⊢
      generalize x * finite false (100 * one) h = percent at *
      -- Only a finite number from zero to a hundred is left over by the comparisons.
      cases percent with
      | nan => cases hpercent
      | infinite s =>
        cases s with
        | false => exact absurd rfl hbelow
        | true => cases hsome.2
      | finite s w hw =>
        cases s with
        | true =>
          have hle := (le_iff_units (x := finite true w hw) (y := zero) rfl rfl).2 (by omega)
          rw [hle] at hsome
          cases hsome.2
        | false =>
          have hlimit := mt (le_iff_units (x := finite false (100 * one) h) (y := finite false w hw)
            rfl rfl).2 hbelow
          obtain ⟨n, hn⟩ : ∃ n, Timecode.round (finite false w hw) = .ok n := by
            rw [← Outcome.isOk_iff, Timecode.isOk_round]
            rfl
          rw [hn]
          exact .some hw (by omega) rfl hn

theorem round_zero : Timecode.round (finite false 0 representable_zero) = .ok 0 := by decide +kernel

theorem round_hundred (h : Representable (100 * one)) :
    Timecode.round (finite false (100 * one) h) = .ok 100 := by
  decide +kernel +revert

namespace IsPercentage

variable {p q : Binary64} {m n : Int}

theorem mem (h : IsPercentage p n) : 0 ≤ n ∧ n ≤ 100 := by
  obtain ⟨hrep, -⟩ := ofInt_hundred
  cases h with
  | none => decide
  | all => decide
  | some hw hlimit _ hround =>
    exact ⟨Timecode.round_mono_finite (Nat.zero_le _) round_zero hround,
      Timecode.round_mono_finite hlimit hround (round_hundred hrep)⟩

theorem nonpos (h : IsPercentage p n) (hp : p.le zero = true) : n ≤ 0 := by
  cases h with
  | none => exact Int.le_refl 0
  | all hfull =>
    have hnot : (ofInt 100).le zero = false := by decide +kernel
    rw [le_trans hfull hp] at hnot
    cases hnot
  | some hw _ heq hround =>
    rw [heq] at hp
    exact Timecode.round_mono_finite (Int.ofNat_le.1 ((le_iff_units rfl rfl).1 hp)) hround round_zero

theorem full (h : IsPercentage p n) (hp : (ofInt 100).le p = true) : 100 ≤ n := by
  cases h with
  | none hnone =>
    have hnot : (ofInt 100).le zero = false := by decide +kernel
    rw [le_trans hp (hnone.resolve_left (by simp [(isNaN_of_le hp).2]))] at hnot
    cases hnot
  | all => exact Int.le_refl 100
  | some hw _ heq hround =>
    obtain ⟨hrep, hundred⟩ := ofInt_hundred
    rw [heq, hundred] at hp
    exact Timecode.round_mono_finite (Int.ofNat_le.1 ((le_iff_units rfl rfl).1 hp))
      (round_hundred hrep) hround

theorem mono (hp : IsPercentage p m) (hq : IsPercentage q n) (h : p.le q = true) : m ≤ n := by
  cases hp with
  | none => exact hq.mem.1
  | all hfull => exact hq.full (le_trans hfull h)
  | some hw hlimit heq hround =>
    cases hq with
    | none hnone =>
      have hpercent : IsPercentage p m := .some hw hlimit heq hround
      exact hpercent.nonpos (le_trans h (hnone.resolve_left (by simp [(isNaN_of_le h).2])))
    | all => exact (IsPercentage.some hw hlimit heq hround).mem.2
    | some hw' hlimit' heq' hround' =>
      rw [heq, heq'] at h
      exact Timecode.round_mono_finite (Int.ofNat_le.1 ((le_iff_units rfl rfl).1 h)) hround hround'

end IsPercentage

/-- A percentage is between 0 and 100, whatever it is of. -/
theorem progressOf_mem (x : Binary64) : 0 ≤ progressOf x ∧ progressOf x ≤ 100 :=
  (isPercentage_progressOf x).mem

/-- More of the work is no smaller percentage. -/
theorem progressOf_mono (h : x.le y = true) : progressOf x ≤ progressOf y :=
  (isPercentage_progressOf x).mono (isPercentage_progressOf y) (isScaling_hundred.le h)

end Measure

end Montage
