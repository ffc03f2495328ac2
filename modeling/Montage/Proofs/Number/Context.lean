import Mathlib.Algebra.Order.Field.Power
import Mathlib.Tactic.LinearCombination
import Mathlib.Tactic.Positivity
import Montage.Number.Decimal
import Montage.Proofs.Number.Shortest

/-!
# Sums and products of decimal numbers

A product or a sum of decimal numbers is the exact one, rounded to the digits of the context
(`mul_rounds`, `add_rounds`): it is exact when the context holds the exact result, and otherwise off by at
most one unit in the last of its digits, relative to the size of the result. Only a result that is too
large is an error.

A term far below the other one is replaced by a single digit before rounding. The context then does not
hold the exact sum (`IsFar.not_fits`), so nothing is lost that it could hold.

Along a computation the errors add up (`IsNear.add`). Where a term is not finite, no value is rounded, and
the kind of the result is that of the sum of kinds (`kind_add`).
-/

namespace Montage.Decimal

open Rounding

/-! ### Values -/

/-- The factor of a sign. -/
def signFactor (negative : Bool) : ℚ := if negative then -1 else 1

/-- The number with this sign, coefficient and exponent. -/
def value (negative : Bool) (n : Nat) (e : Int) : ℚ := signFactor negative * n * 10 ^ e

/-- The value of a finite number. -/
def toRat? : Decimal → Option ℚ
  | finite s n e => some (value s n e)
  | _ => none

/-- Whether a context has enough digits for a number, and a range of exponents that it is in. -/
def Context.Fits (ctx : Context) (v : ℚ) : Prop :=
  |v| < 10 ^ (ctx.maxExponent + 1) ∧
    ∃ (n : Nat) (k : Int), n < 10 ^ ctx.precision ∧ ctx.lastExponent ≤ k ∧ |v| = n * 10 ^ k

/-- How far the numbers that a context holds can be apart, next to a number. -/
def Context.step (ctx : Context) (v : ℚ) : ℚ :=
  |v| * 10 ^ (1 - ctx.precision : Int) + 10 ^ ctx.lastExponent

/-- The outcome of an operation with an exact result: a number off by at most so many steps, and exact
when the context holds the result; or an overflow, when it does not. -/
inductive Rounds (ctx : Context) (steps v : ℚ) : Except Error Decimal → Prop where
  | overflow (hfits : ¬ ctx.Fits v) : Rounds ctx steps v (.error .overflow)
  | near {x : Decimal} {w : ℚ} (hx : x.toRat? = some w) (hclose : |w - v| ≤ steps * ctx.step v)
      (hexact : ctx.Fits v → w = v) : Rounds ctx steps v (.ok x)

variable {ctx : Context} {s t : Bool} {a b n : Nat} {d e : Int} {v w steps : ℚ}
  {outcome : Except Error Decimal}

theorem ten_zpow_pos (k : Int) : (0 : ℚ) < 10 ^ k := zpow_pos (by norm_num) k

theorem abs_signFactor (s : Bool) : |signFactor s| = 1 := by cases s <;> norm_num [signFactor]

theorem abs_value (s : Bool) (n : Nat) (e : Int) : |value s n e| = n * 10 ^ e := by
  rw [value, abs_mul, abs_mul, abs_signFactor, one_mul, Nat.abs_cast, abs_of_pos (ten_zpow_pos e)]

theorem value_zero (s : Bool) (e : Int) : value s 0 e = 0 := by simp [value]

theorem step_nonneg (ctx : Context) (v : ℚ) : 0 ≤ ctx.step v :=
  add_nonneg (mul_nonneg (abs_nonneg v) (ten_zpow_pos _).le) (ten_zpow_pos _).le

theorem step_mono (h : |v| ≤ |w|) : ctx.step v ≤ ctx.step w :=
  add_le_add_left (mul_le_mul_of_nonneg_right h (ten_zpow_pos _).le) _

/-- Numbers that are close have steps that are closer. -/
theorem step_le_add {rest : ℚ} (h : |w - v| ≤ rest) :
    ctx.step w ≤ ctx.step v + rest * 10 ^ (1 - ctx.precision : Int) := by
  have hsize : |w| ≤ |v| + rest := by linarith [abs_sub_abs_le_abs_sub w v]
  calc ctx.step w ≤ (|v| + rest) * 10 ^ (1 - ctx.precision : Int) + 10 ^ ctx.lastExponent :=
        add_le_add_left (mul_le_mul_of_nonneg_right hsize (ten_zpow_pos _).le) _
    _ = ctx.step v + rest * 10 ^ (1 - ctx.precision : Int) := by
        rw [Context.step]
        ring

/-- A coefficient of so many digits is below the power of ten with one more. -/
theorem lt_zpow_add {p : Nat} (hn : n < 10 ^ p) (e : Int) : (n : ℚ) * 10 ^ e < 10 ^ (p + e) := by
  rw [zpow_add₀ (by norm_num), zpow_natCast]
  exact mul_lt_mul_of_pos_right (by exact_mod_cast hn) (ten_zpow_pos e)

/-- The digits of a coefficient bound its value. -/
theorem value_bounds (hn : 0 < n) (e : Int) :
    (10 : ℚ) ^ (digitCount n + e - 1) ≤ n * 10 ^ e ∧ (n : ℚ) * 10 ^ e < 10 ^ (digitCount n + e) := by
  refine ⟨?_, lt_zpow_add (Binary64.lt_pow_length_decimal n) e⟩
  have hcount := Binary64.length_decimal_pos n
  have hlow : 10 ^ (digitCount n - 1) ≤ n := Binary64.pow_length_decimal_le hn
  have hsplit : (10 : ℚ) ^ (digitCount n + e - 1) = 10 ^ (digitCount n - 1) * 10 ^ e := by
    rw [← zpow_natCast, ← zpow_add₀ (by norm_num)]
    congr 1
    unfold digitCount
    omega
  rw [hsplit]
  exact mul_le_mul_of_nonneg_right (by exact_mod_cast hlow) (ten_zpow_pos e).le

theorem lt_of_zpow_lt {j k : Int} (h : (10 : ℚ) ^ j < 10 ^ k) : j < k :=
  (zpow_lt_zpow_iff_right₀ (by norm_num)).1 h

/-! ### Rounding to a context -/

theorem dropDigits_close {k : Nat} (n : Nat) :
    2 * (dropDigits k n * 10 ^ k - n) ≤ 10 ^ k ∧ 2 * (n - dropDigits k n * 10 ^ k) ≤ 10 ^ k := by
  unfold dropDigits
  split
  · rename_i hfar
    have hsmall : n < 10 ^ digitCount n := Binary64.lt_pow_length_decimal n
    have hpower : 10 ^ (digitCount n + 1) ≤ 10 ^ k := Nat.pow_le_pow_right (by decide) hfar.le
    rw [Nat.pow_succ] at hpower
    omega
  · exact halfEven_close (Nat.pow_pos (by decide))

theorem dropDigits_le {k m : Nat} (h : n ≤ m * 10 ^ k) : dropDigits k n ≤ m := by
  unfold dropDigits
  split
  · exact Nat.zero_le m
  · exact halfEven_le (Nat.pow_pos (by decide)) h

/-- How many digits of a coefficient a context has no place for. -/
def Context.lost (ctx : Context) (n : Nat) (e : Int) : Nat :=
  max (digitCount n - ctx.precision) (ctx.lastExponent - e).toNat

/-- A coefficient without so many of its digits; one that loses none is not rounded. -/
def kept (k n : Nat) : Nat := if k = 0 then n else dropDigits k n

theorem kept_zero (n : Nat) : kept 0 n = n := if_pos rfl

theorem kept_close (k n : Nat) :
    2 * (kept k n * 10 ^ k - n) ≤ 10 ^ k ∧ 2 * (n - kept k n * 10 ^ k) ≤ 10 ^ k := by
  unfold kept
  split
  · rename_i hzero
    simp [hzero]
  · exact dropDigits_close n

theorem kept_le {k m : Nat} (h : n ≤ m * 10 ^ k) : kept k n ≤ m := by
  unfold kept
  split
  · rename_i hzero
    rwa [hzero, Nat.pow_zero, Nat.mul_one] at h
  · exact dropDigits_le h

theorem abs_kept_sub_le (k n : Nat) : |(kept k n : ℚ) * 10 ^ k - n| ≤ 1 / 2 * 10 ^ k := by
  obtain ⟨habove, hbelow⟩ := kept_close k n
  have habove' : 2 * (kept k n * 10 ^ k) ≤ 10 ^ k + 2 * n := by omega
  have hbelow' : 2 * n ≤ 10 ^ k + 2 * (kept k n * 10 ^ k) := by omega
  have habove : 2 * ((kept k n : ℚ) * 10 ^ k) ≤ 10 ^ k + 2 * n := by exact_mod_cast habove'
  have hbelow : 2 * (n : ℚ) ≤ 10 ^ k + 2 * (kept k n * 10 ^ k) := by exact_mod_cast hbelow'
  rw [abs_le]
  constructor <;> linarith

/-- Digits that are all zero are dropped without a loss. -/
theorem kept_mul_pow_of_dvd {k : Nat} (h : 10 ^ k ∣ n) : kept k n * 10 ^ k = n := by
  obtain ⟨c, rfl⟩ := h
  obtain ⟨habove, hbelow⟩ := kept_close k (10 ^ k * c)
  rw [Nat.mul_comm _ c] at habove hbelow ⊢
  generalize kept k (c * 10 ^ k) = r at habove hbelow ⊢
  have hpos : 0 < 10 ^ k := Nat.pow_pos (by decide)
  rcases Nat.lt_trichotomy r c with hlt | heq | hlt
  · have hstep : (r + 1) * 10 ^ k ≤ c * 10 ^ k := Nat.mul_le_mul_right _ hlt
    rw [Nat.add_mul] at hstep
    omega
  · rw [heq]
  · have hstep : (c + 1) * 10 ^ k ≤ r * 10 ^ k := Nat.mul_le_mul_right _ hlt
    rw [Nat.add_mul] at hstep
    omega

/-- Rounding may carry, to one more digit than the context has, but no further. -/
theorem kept_lost_le (ctx : Context) (n : Nat) (e : Int) :
    kept (ctx.lost n e) n ≤ 10 ^ ctx.precision := by
  have hdigits : n < 10 ^ digitCount n := Binary64.lt_pow_length_decimal n
  refine kept_le (hdigits.le.trans ?_)
  rw [← Nat.pow_add]
  refine Nat.pow_le_pow_right (by decide) ?_
  unfold Context.lost
  omega

theorem eq_pow_of_carried {r : Nat} (hprecision : 0 < ctx.precision) (hr : r ≤ 10 ^ ctx.precision)
    (hcarry : ctx.precision < digitCount r) : r = 10 ^ ctx.precision := by
  have hle : digitCount r ≤ ctx.precision ↔ r < 10 ^ ctx.precision :=
    Binary64.length_decimal_le hprecision
  omega

/-- What is left of the coefficient is written with the digits of the context. -/
theorem exists_finalize_eq (hn : 0 < n) (hprecision : 0 < ctx.precision) (s : Bool) (e : Int) :
    ∃ (n' : Nat) (e' : Int),
      (n' : ℚ) * 10 ^ e' = kept (ctx.lost n e) n * 10 ^ ctx.lost n e * 10 ^ e ∧
      finalize ctx s n e =
        if ctx.maxExponent < digitCount n' + e' - 1 then .error .overflow else .ok (finite s n' e') := by
  have hsize := kept_lost_le ctx n e
  generalize hr : kept (ctx.lost n e) n = r at hsize ⊢
  have hfinalize : finalize ctx s n e =
      let n' := if ctx.precision < digitCount r then r / 10 else r
      let e' := e + ctx.lost n e + if ctx.precision < digitCount r then 1 else 0
      if ctx.maxExponent < digitCount n' + e' - 1 then .error .overflow else .ok (finite s n' e') := by
    rw [finalize, if_neg hn.ne', ← hr]
    rfl
  by_cases hcarry : ctx.precision < digitCount r
  · rw [if_pos hcarry, if_pos hcarry] at hfinalize
    refine ⟨r / 10, e + ctx.lost n e + 1, ?_, hfinalize⟩
    obtain ⟨p, hp⟩ : ∃ p, ctx.precision = p + 1 := ⟨ctx.precision - 1, by omega⟩
    have hten : r = 10 ^ p * 10 := by
      rw [eq_pow_of_carried hprecision hsize hcarry, hp, Nat.pow_succ]
    rw [hten, Nat.mul_div_cancel _ (by decide), zpow_add₀ (by norm_num), zpow_add₀ (by norm_num),
      zpow_natCast]
    push_cast
    ring
  · rw [if_neg hcarry, if_neg hcarry] at hfinalize
    refine ⟨r, e + ctx.lost n e + 0, ?_, hfinalize⟩
    rw [add_zero, zpow_add₀ (by norm_num), zpow_natCast]
    ring

/-- A number that the context holds has zeros where digits are lost. -/
theorem dvd_of_fits (hn : 0 < n) (hfits : ctx.Fits (value s n e)) : 10 ^ ctx.lost n e ∣ n := by
  by_cases hk0 : ctx.lost n e = 0
  · rw [hk0, Nat.pow_zero]
    exact one_dvd n
  obtain ⟨-, m, j, hm, hj, hvalue⟩ := hfits
  rw [abs_value] at hvalue
  have hplace : e + ctx.lost n e ≤ j := by
    by_cases hlast : (ctx.lastExponent - e).toNat = ctx.lost n e
    · omega
    · -- The number has more digits than the context, and all of them are needed above its last place.
      have hlt := lt_of_zpow_lt ((value_bounds hn e).1.trans_lt (hvalue ▸ lt_zpow_add hm j))
      unfold Context.lost at hlast ⊢
      omega
  have hsplit : (10 : ℚ) ^ j = 10 ^ ctx.lost n e * 10 ^ (j - e - ctx.lost n e).toNat * 10 ^ e := by
    rw [← zpow_natCast, ← zpow_natCast, ← zpow_add₀ (by norm_num), ← zpow_add₀ (by norm_num)]
    congr 1
    omega
  refine ⟨m * 10 ^ (j - e - ctx.lost n e).toNat, ?_⟩
  have hcast : (n : ℚ) = 10 ^ ctx.lost n e * (m * 10 ^ (j - e - ctx.lost n e).toNat) := by
    refine mul_right_cancel₀ (ten_zpow_pos e).ne' ?_
    rw [hvalue, hsplit]
    ring
  exact_mod_cast hcast

/-- One unit of the place where a coefficient is rounded is at most a step. -/
theorem unit_le_step (hn : 0 < n) (hk0 : ctx.lost n e ≠ 0) :
    (10 : ℚ) ^ ctx.lost n e * 10 ^ e ≤ ctx.step (value s n e) := by
  rw [← zpow_natCast, ← zpow_add₀ (by norm_num), Context.step, abs_value]
  by_cases hlast : (ctx.lastExponent - e).toNat = ctx.lost n e
  · have hplace : (ctx.lost n e : Int) + e = ctx.lastExponent := by omega
    rw [hplace]
    have hvalue : (0 : ℚ) ≤ n * 10 ^ e := mul_nonneg (Nat.cast_nonneg n) (ten_zpow_pos e).le
    exact le_add_of_nonneg_left (mul_nonneg hvalue (ten_zpow_pos _).le)
  · have hplace : (ctx.lost n e : Int) + e = (digitCount n + e - 1) + (1 - ctx.precision) := by
      unfold Context.lost at hk0 hlast ⊢
      omega
    rw [hplace, zpow_add₀ (by norm_num)]
    refine le_add_of_le_of_nonneg ?_ (ten_zpow_pos _).le
    exact mul_le_mul_of_nonneg_right (value_bounds hn e).1 (ten_zpow_pos _).le

theorem kept_lost_close (hn : 0 < n) (s : Bool) (e : Int) :
    |(kept (ctx.lost n e) n : ℚ) * 10 ^ ctx.lost n e - n| * 10 ^ e ≤ 1 / 2 * ctx.step (value s n e) := by
  by_cases hk0 : ctx.lost n e = 0
  · rw [hk0, kept_zero, pow_zero, mul_one, sub_self, abs_zero, zero_mul]
    exact mul_nonneg (by norm_num) (step_nonneg ctx _)
  · calc |(kept (ctx.lost n e) n : ℚ) * 10 ^ ctx.lost n e - n| * 10 ^ e
        ≤ 1 / 2 * 10 ^ ctx.lost n e * 10 ^ e :=
          mul_le_mul_of_nonneg_right (abs_kept_sub_le _ n) (ten_zpow_pos e).le
      _ = 1 / 2 * (10 ^ ctx.lost n e * 10 ^ e) := mul_assoc _ _ _
      _ ≤ 1 / 2 * ctx.step (value s n e) :=
        mul_le_mul_of_nonneg_left (unit_le_step hn hk0) (by norm_num)

theorem finalize_rounds (hprecision : 0 < ctx.precision) (s : Bool) (n : Nat) (e : Int) :
    Rounds ctx (1 / 2) (value s n e) (finalize ctx s n e) := by
  rcases Nat.eq_zero_or_pos n with rfl | hn
  · rw [finalize, if_pos rfl, value_zero]
    refine .near (congrArg some (value_zero s _)) ?_ fun _ => rfl
    rw [sub_self, abs_zero]
    exact mul_nonneg (by norm_num) (step_nonneg ctx 0)
  obtain ⟨n', e', hvalue, hfinalize⟩ := exists_finalize_eq hn hprecision s e
  have hexact : ctx.Fits (value s n e) → (n' : ℚ) * 10 ^ e' = n * 10 ^ e := by
    intro hfits
    have hsame : (kept (ctx.lost n e) n : ℚ) * 10 ^ ctx.lost n e = n := by
      exact_mod_cast kept_mul_pow_of_dvd (dvd_of_fits hn hfits)
    rw [hvalue, hsame]
  rw [hfinalize]
  split
  · rename_i hlarge
    refine .overflow fun hfits => ?_
    have hsize := hfits.1
    rw [abs_value, ← hexact hfits] at hsize
    have hpos : 0 < n' := by
      have hsome : (0 : ℚ) < n' * 10 ^ e' := by
        rw [hexact hfits]
        exact mul_pos (by exact_mod_cast hn) (ten_zpow_pos e)
      exact_mod_cast pos_of_mul_pos_left hsome (ten_zpow_pos e').le
    have hlt := lt_of_zpow_lt ((value_bounds hpos e').1.trans_lt hsize)
    omega
  · refine .near rfl ?_ fun hfits => ?_
    · have hdifference : value s n' e' - value s n e =
          signFactor s * (kept (ctx.lost n e) n * 10 ^ ctx.lost n e - n) * 10 ^ e := by
        rw [value, value, mul_assoc, hvalue]
        ring
      rw [hdifference, abs_mul, abs_mul, abs_signFactor, one_mul, abs_of_pos (ten_zpow_pos e)]
      exact kept_lost_close hn s e
    · rw [value, value, mul_assoc, hexact hfits, mul_assoc]

theorem Rounds.mono {steps' : ℚ} (h : Rounds ctx steps v outcome) (hle : steps ≤ steps') :
    Rounds ctx steps' v outcome := by
  cases h with
  | overflow hfits => exact .overflow hfits
  | near hx hclose hexact =>
    exact .near hx (hclose.trans (mul_le_mul_of_nonneg_right hle (step_nonneg ctx v))) hexact

/-! ### Products -/

theorem value_mul (s t : Bool) (a b : Nat) (d e : Int) :
    value s a d * value t b e = value (s != t) (a * b) (d + e) := by
  have hsign : signFactor (s != t) = signFactor s * signFactor t := by
    cases s <;> cases t <;> norm_num [signFactor]
  rw [value, value, value, hsign, zpow_add₀ (by norm_num)]
  push_cast
  ring

theorem exists_finite_of_toRat? {x : Decimal} (h : x.toRat? = some v) :
    ∃ s n e, x = finite s n e ∧ v = value s n e := by
  cases x with
  | finite s n e => exact ⟨s, n, e, rfl, (Option.some.inj h).symm⟩
  | _ => cases h

/-- A product is the exact one, rounded. -/
theorem mul_rounds (hprecision : 0 < ctx.precision) {x y : Decimal} (hx : x.toRat? = some v)
    (hy : y.toRat? = some w) : Rounds ctx (1 / 2) (v * w) (mul ctx x y) := by
  obtain ⟨s, a, d, rfl, rfl⟩ := exists_finite_of_toRat? hx
  obtain ⟨t, b, e, rfl, rfl⟩ := exists_finite_of_toRat? hy
  rw [value_mul]
  exact finalize_rounds hprecision _ _ _

/-! ### Sums -/

theorem addAligned_rounds (hprecision : 0 < ctx.precision) (s : Bool) (a : Nat) (t : Bool) (b : Nat)
    (e : Int) : Rounds ctx (1 / 2) (value s a e + value t b e) (addAligned ctx s a t b e) := by
  rw [addAligned]
  by_cases hsign : s = t
  · have hsum : value s a e + value t b e = value s (a + b) e := by
      rw [value, value, value, hsign]
      push_cast
      ring
    rw [if_pos hsign, hsum]
    exact finalize_rounds hprecision _ _ _
  · have hopposite : signFactor t = -signFactor s := by
      cases s <;> cases t <;> simp_all [signFactor]
    rw [if_neg hsign]
    rcases Nat.lt_trichotomy a b with hlt | rfl | hlt
    · have hsum : value s a e + value t b e = value t (b - a) e := by
        rw [value, value, value, hopposite, Nat.cast_sub hlt.le]
        ring
      rw [if_neg hlt.ne, if_pos hlt, hsum]
      exact finalize_rounds hprecision _ _ _
    · have hsum : value s a e + value t a e = value false 0 e := by
        rw [value, value, value_zero, hopposite]
        ring
      rw [if_pos rfl, hsum]
      exact finalize_rounds hprecision _ _ _
    · have hsum : value s a e + value t b e = value s (a - b) e := by
        rw [value, value, value, hopposite, Nat.cast_sub hlt.le]
        ring
      rw [if_neg hlt.ne', if_neg (by omega), hsum]
      exact finalize_rounds hprecision _ _ _

/-- A larger coefficient at a smaller exponent. -/
theorem value_shift (s : Bool) (a : Nat) (hle : e ≤ d) :
    value s (a * 10 ^ (d - e).toNat) e = value s a d := by
  have hsplit : (10 : ℚ) ^ d = 10 ^ (d - e).toNat * 10 ^ e := by
    rw [← zpow_natCast, ← zpow_add₀ (by norm_num)]
    congr 1
    omega
  rw [value, value, hsplit]
  push_cast
  ring

theorem exists_int_mul (s : Bool) (n : Nat) (hle : e ≤ d) : ∃ z : ℤ, value s n d = z * 10 ^ e := by
  refine ⟨if s then -(n * 10 ^ (d - e).toNat : ℕ) else (n * 10 ^ (d - e).toNat : ℕ), ?_⟩
  rw [← value_shift s n hle, value, signFactor]
  cases s <;> simp

theorem exists_value_eq (h : |v| = n * 10 ^ e) : ∃ s, v = value s n e := by
  rcases abs_choice v with hpos | hneg
  · exact ⟨false, by rw [← hpos, h, value, signFactor, if_neg (by decide), one_mul]⟩
  · refine ⟨true, ?_⟩
    rw [value, signFactor, if_pos rfl, mul_assoc, ← h, hneg]
    ring

/-- A term that is below every place that the context keeps of the sum with another one, both of them
not zero. -/
structure IsFar (ctx : Context) (a : Nat) (d : Int) (b : Nat) (e f : Int) : Prop where
  pos : 0 < a
  pos' : 0 < b
  below : digitCount b + e ≤ f
  above : f + ctx.precision + 2 ≤ d + digitCount a
  place_lt : f < d

namespace IsFar

variable {f : Int} (h : IsFar ctx a d b e f)

include h

theorem abs_lt (t : Bool) : |value t b e| < 10 ^ f := by
  rw [abs_value]
  exact (value_bounds h.pos' e).2.trans_le ((zpow_le_zpow_iff_right₀ (by norm_num)).2 h.below)

/-- The sum has digits above those that the context keeps. -/
theorem le_abs_add (s t : Bool) : (10 : ℚ) ^ (f + ctx.precision) ≤ |value s a d + value t b e| := by
  have hlarge : (10 : ℚ) ^ (f + ctx.precision + 1) ≤ |value s a d| := by
    rw [abs_value]
    refine le_trans ?_ (value_bounds h.pos d).1
    have habove := h.above
    exact (zpow_le_zpow_iff_right₀ (by norm_num)).2 (by omega)
  have hsmall : |value t b e| ≤ 10 ^ (f + ctx.precision) := by
    refine (h.abs_lt t).le.trans ?_
    exact (zpow_le_zpow_iff_right₀ (by norm_num)).2 (by omega)
  have hsum : |value s a d| - |value t b e| ≤ |value s a d + value t b e| := by
    have htriangle := abs_sub_abs_le_abs_sub (value s a d) (-value t b e)
    rwa [abs_neg, sub_neg_eq_add] at htriangle
  rw [zpow_add₀ (by norm_num) (f + ctx.precision) 1] at hlarge
  linarith [ten_zpow_pos (f + ctx.precision)]

theorem not_fits (s t : Bool) : ¬ ctx.Fits (value s a d + value t b e) := by
  rintro ⟨-, m, k, hm, -, hvalue⟩
  have hplace : f < k := by
    have hlt := lt_of_zpow_lt ((h.le_abs_add s t).trans_lt (hvalue ▸ lt_zpow_add hm k))
    omega
  obtain ⟨r, hr⟩ := exists_value_eq hvalue
  -- The sum and the larger term are multiples of a power of ten that the smaller term is below.
  obtain ⟨whole, hwhole⟩ := exists_int_mul r m hplace.le
  obtain ⟨large, hlarge⟩ := exists_int_mul s a h.place_lt.le
  have hsmall : |value t b e| = |((whole - large : ℤ) : ℚ)| * 10 ^ f := by
    have hterm : value t b e = ((whole - large : ℤ) : ℚ) * 10 ^ f := by
      push_cast
      rw [sub_mul, ← hwhole, ← hlarge, ← hr]
      ring
    rw [hterm, abs_mul, abs_of_pos (ten_zpow_pos f)]
  have hbelow := h.abs_lt t
  have hsome : 0 < |value t b e| := by
    rw [abs_value]
    exact mul_pos (by exact_mod_cast h.pos') (ten_zpow_pos e)
  rw [hsmall] at hbelow hsome
  have hone : |((whole - large : ℤ) : ℚ)| < 1 :=
    lt_of_mul_lt_mul_right (by rwa [one_mul]) (ten_zpow_pos f).le
  have hnone : whole - large = 0 := Int.abs_lt_one_iff.1 (by exact_mod_cast hone)
  rw [hnone, Int.cast_zero, abs_zero, zero_mul] at hsome
  exact lt_irrefl _ hsome

/-- A single digit at the place is as near to the smaller term as the place is high. -/
theorem abs_digit_sub_le (t : Bool) : |value t 1 f - value t b e| ≤ 10 ^ f := by
  have hdifference : value t 1 f - value t b e = signFactor t * (10 ^ f - b * 10 ^ e) := by
    rw [value, value]
    push_cast
    ring
  have hbelow := (abs_value t b e ▸ h.abs_lt t).le
  have hnonneg : (0 : ℚ) ≤ b * 10 ^ e := mul_nonneg (Nat.cast_nonneg b) (ten_zpow_pos e).le
  rw [hdifference, abs_mul, abs_signFactor, one_mul, abs_of_nonneg (by linarith)]
  linarith

/-- The place is below the last one that is kept of the sum. -/
theorem place_le_step (s t : Bool) : 10 * (10 : ℚ) ^ f ≤ ctx.step (value s a d + value t b e) := by
  calc 10 * (10 : ℚ) ^ f = 10 ^ (f + ctx.precision) * 10 ^ (1 - ctx.precision : Int) := by
        rw [← zpow_add₀ (by norm_num), ← zpow_one_add₀ (by norm_num)]
        congr 1
        omega
    _ ≤ |value s a d + value t b e| * 10 ^ (1 - ctx.precision : Int) :=
        mul_le_mul_of_nonneg_right (h.le_abs_add s t) (ten_zpow_pos _).le
    _ ≤ ctx.step (value s a d + value t b e) := le_add_of_nonneg_right (ten_zpow_pos _).le

/-- A single digit below the places that are kept stands for the smaller term. -/
theorem rounds (hprecision : 0 < ctx.precision) (s t : Bool)
    (hrounds : Rounds ctx (1 / 2) (value s a d + value t 1 f) outcome) :
    Rounds ctx 1 (value s a d + value t b e) outcome := by
  cases hrounds with
  | overflow => exact .overflow (h.not_fits s t)
  | @near x w hx hclose _ =>
    refine .near hx ?_ fun hfits => (h.not_fits s t hfits).elim
    have hplace := h.place_le_step s t
    have hmoved : |(value s a d + value t 1 f) - (value s a d + value t b e)| ≤ 10 ^ f := by
      rw [add_sub_add_left_eq_sub]
      exact h.abs_digit_sub_le t
    generalize value s a d + value t b e = v at hplace hmoved ⊢
    generalize value s a d + value t 1 f = v' at hclose hmoved ⊢
    have hstep : ctx.step v' ≤ ctx.step v + 10 ^ f := by
      refine (step_le_add hmoved).trans (add_le_add_right ?_ _)
      exact mul_le_of_le_one_right (ten_zpow_pos f).le (zpow_le_one_of_nonpos₀ (by norm_num) (by omega))
    calc |w - v| ≤ |w - v'| + |v' - v| := abs_sub_le w v' v
      _ ≤ 1 / 2 * ctx.step v' + 10 ^ f := add_le_add hclose hmoved
      _ ≤ 1 * ctx.step v := by linarith [ten_zpow_pos f]

end IsFar

theorem addOrdered_rounds (hprecision : 0 < ctx.precision) (hle : e ≤ d) (s : Bool) (a : Nat) (t : Bool)
    (b : Nat) : Rounds ctx 1 (value s a d + value t b e) (addOrdered ctx s a d t b e) := by
  rw [addOrdered]
  by_cases ha : a = 0
  · rw [if_pos ha, ha, value_zero, ← value_zero s e]
    exact (addAligned_rounds hprecision s 0 t b e).mono (by norm_num)
  rw [if_neg ha]
  generalize hf : d - 1 + (if ctx.precision < digitCount a then (0 : Int)
    else digitCount a - ctx.precision - 1) = f
  have hcount : 0 < digitCount a := Binary64.length_decimal_pos a
  have hbounds : f + ctx.precision + 2 ≤ d + digitCount a ∧ f < d := by
    split at hf <;> omega
  dsimp only
  rw [hf]
  split
  · rename_i hbelow
    have hshift := value_shift s a hbounds.2.le
    by_cases hb : b = 0
    · have hrounds := addAligned_rounds hprecision s (a * Nat.pow 10 (d - f).toNat) t 0 f
      rw [if_pos hb, hb, value_zero, ← value_zero t f, ← hshift]
      exact hrounds.mono (by norm_num)
    · have hfar : IsFar ctx a d b e f :=
        ⟨Nat.pos_of_ne_zero ha, Nat.pos_of_ne_zero hb, by omega, hbounds.1, hbounds.2⟩
      rw [if_neg hb]
      refine hfar.rounds hprecision s t ?_
      rw [← hshift]
      exact addAligned_rounds hprecision s _ t 1 f
  · rw [← value_shift s a hle]
    exact (addAligned_rounds hprecision s _ t b e).mono (by norm_num)

/-- A sum is the exact one, rounded. -/
theorem add_rounds (hprecision : 0 < ctx.precision) {x y : Decimal} (hx : x.toRat? = some v)
    (hy : y.toRat? = some w) : Rounds ctx 1 (v + w) (add ctx x y) := by
  obtain ⟨s, a, d, rfl, rfl⟩ := exists_finite_of_toRat? hx
  obtain ⟨t, b, e, rfl, rfl⟩ := exists_finite_of_toRat? hy
  rw [add]
  split
  · rename_i hle
    exact addOrdered_rounds hprecision hle s a t b
  · rename_i hgt
    rw [add_comm]
    exact addOrdered_rounds hprecision (by omega) t b s a

/-! ### Errors along a computation -/

theorem toRat?_ofInt (n : Int) : (ofInt n).toRat? = some (n : ℚ) := by
  rw [ofInt, toRat?, value, zpow_zero, mul_one, signFactor]
  rcases lt_or_ge n 0 with hneg | hnonneg
  · obtain ⟨k, rfl⟩ := Int.exists_eq_neg_ofNat hneg.le
    simp
  · obtain ⟨k, rfl⟩ := Int.eq_ofNat_of_zero_le hnonneg
    simp

/-- A number that is off by at most so many steps of a size, which the exact one does not exceed. -/
structure IsNear (ctx : Context) (steps size w v : ℚ) : Prop where
  size_le : |v| ≤ size
  close : |w - v| ≤ steps * ctx.step size

namespace IsNear

theorem refl (v : ℚ) : IsNear ctx 0 |v| v v :=
  ⟨le_rfl, by rw [sub_self, abs_zero, zero_mul]⟩

theorem close_of_le {size' : ℚ} (h : IsNear ctx steps size w v) (hsteps : 0 ≤ steps)
    (hle : size ≤ size') : |w - v| ≤ steps * ctx.step size' := by
  refine h.close.trans (mul_le_mul_of_nonneg_left (step_mono ?_) hsteps)
  have hsize := (abs_nonneg v).trans h.size_le
  rwa [abs_of_nonneg hsize, abs_of_nonneg (hsize.trans hle)]

/-- Terms that are off make a sum that is off by a little more than all of them, and by its own step. -/
theorem add {steps' size' v' w' x : ℚ} (hprecision : 1 < ctx.precision) (h : IsNear ctx steps size w v)
    (h' : IsNear ctx steps' size' w' v') (hsteps : 0 ≤ steps) (hsteps' : 0 ≤ steps')
    (hx : |x - (w + w')| ≤ 1 * ctx.step (w + w')) :
    IsNear ctx ((steps + steps') * (11 / 10) + 1) (size + size') x (v + v') := by
  have hsize := (abs_nonneg v).trans h.size_le
  have hsize' := (abs_nonneg v').trans h'.size_le
  have hexact : |v + v'| ≤ size + size' := (abs_add_le v v').trans (add_le_add h.size_le h'.size_le)
  refine ⟨hexact, ?_⟩
  have hclose := h.close_of_le hsteps (le_add_of_nonneg_right hsize' : size ≤ size + size')
  have hclose' := h'.close_of_le hsteps' (le_add_of_nonneg_left hsize : size' ≤ size + size')
  have hterms : |w + w' - (v + v')| ≤ (steps + steps') * ctx.step (size + size') := by
    calc |w + w' - (v + v')| = |(w - v) + (w' - v')| := by rw [add_sub_add_comm]
      _ ≤ |w - v| + |w' - v'| := abs_add_le _ _
      _ ≤ steps * ctx.step (size + size') + steps' * ctx.step (size + size') := add_le_add hclose hclose'
      _ = (steps + steps') * ctx.step (size + size') := (add_mul _ _ _).symm
  have hown : ctx.step (w + w') ≤
      ctx.step (size + size') + (steps + steps') * ctx.step (size + size') * (1 / 10) := by
    have hunit : (10 : ℚ) ^ (1 - ctx.precision : Int) ≤ 1 / 10 := by
      have hle : (10 : ℚ) ^ (1 - ctx.precision : Int) ≤ 10 ^ (-1 : Int) :=
        (zpow_le_zpow_iff_right₀ (by norm_num)).2 (by omega)
      norm_num at hle ⊢
      exact hle
    refine (step_le_add hterms).trans (add_le_add (step_mono ?_) (mul_le_mul_of_nonneg_left hunit ?_))
    · rwa [abs_of_nonneg (add_nonneg hsize hsize')]
    · exact mul_nonneg (add_nonneg hsteps hsteps') (step_nonneg ctx _)
  generalize ctx.step (size + size') = step at hterms hown ⊢
  calc |x - (v + v')| ≤ |x - (w + w')| + |w + w' - (v + v')| := abs_sub_le _ _ _
    _ ≤ (step + (steps + steps') * step * (1 / 10)) + (steps + steps') * step := by
        rw [one_mul] at hx
        exact add_le_add (hx.trans hown) hterms
    _ = ((steps + steps') * (11 / 10) + 1) * step := by ring

end IsNear

/-! ### Infinite numbers, and what is not a number -/

/-- What a number is, whatever its value. -/
inductive Kind where
  | finite
  | infinite (negative : Bool)
  | nan
  deriving DecidableEq

def kind : Decimal → Kind
  | finite .. => .finite
  | infinite s => .infinite s
  | nan .. => .nan

/-- The kind of a sum; opposite infinities have none. -/
def Kind.add? : Kind → Kind → Option Kind
  | .nan, _ | _, .nan => some .nan
  | .finite, k | k, .finite => some k
  | .infinite s, .infinite t => if s = t then some (.infinite s) else none

theorem kind_eq_finite_iff {x : Decimal} : x.kind = .finite ↔ ∃ v, x.toRat? = some v := by
  cases x <;> simp [kind, toRat?]

theorem Rounds.kind_eq {x : Decimal} (h : Rounds ctx steps v (.ok x)) : x.kind = .finite := by
  cases h with
  | near hx => exact kind_eq_finite_iff.2 ⟨_, hx⟩

theorem kind_propagate {x y z : Decimal} (h : propagate ctx x y = .ok z) : z.kind = .nan := by
  unfold propagate at h
  split at h <;> cases h <;> rfl

theorem kind_mul_ofInt {x y : Decimal} {k : Int} (hprecision : 0 < ctx.precision) (hk : 0 < k)
    (h : mul ctx x (ofInt k) = .ok y) : y.kind = x.kind := by
  cases x with
  | finite s n e => exact (h ▸ mul_rounds hprecision rfl (toRat?_ofInt k)).kind_eq
  | infinite s =>
    have hnonzero : k.natAbs ≠ 0 := by omega
    have hpositive : decide (k < 0) = false := decide_eq_false (by omega)
    rw [ofInt, mul, if_neg hnonzero, hpositive, Bool.bne_false] at h
    cases h
    rfl
  | nan s signaling payload => exact kind_propagate h

theorem kind_add {x y z : Decimal} (hprecision : 0 < ctx.precision) (h : add ctx x y = .ok z) :
    x.kind.add? y.kind = some z.kind := by
  cases x <;> cases y
  case finite.finite =>
    exact congrArg some (h ▸ add_rounds hprecision rfl rfl).kind_eq.symm
  case finite.infinite | infinite.finite =>
    cases h
    rfl
  case infinite.infinite s t =>
    rw [add] at h
    split at h
    · rename_i hsame
      cases h
      exact if_pos hsame
    · cases h
  all_goals exact congrArg some (kind_propagate h).symm

end Montage.Decimal
