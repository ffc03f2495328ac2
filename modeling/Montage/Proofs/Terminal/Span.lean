import Mathlib.Algebra.Order.Floor.Semifield
import Mathlib.Data.Rat.Floor
import Montage.Proofs.Terminal.Fields

/-!
# Spans of time

The text of a span tells how long it is, in fields below sixty and up to half a tenth of a second, exactly as
long as the format holds its whole minutes and what is left of them is not rounded to sixty seconds
(`Terminal.durationOf_tells`). The rest is rounded after the minutes have been split off, so it is not carried
over to them.
-/

namespace Montage

open Binary64

/-- The exact value of a number. -/
def Value.Number.toRat? : Value.Number → Option ℚ
  | .int n => some n
  | .float x => x.toRat?

namespace Terminal

variable {u v m n : Nat} {hu : Representable u} {x : Binary64} {q : ℚ} {s : String}

/-! ### Minutes -/

/-- How many units make sixty. -/
def minute : Nat := 60 * one

theorem minute_pos : 0 < minute := Nat.mul_pos (by decide) Binary64.one_pos

theorem representable_minute : Representable minute := representable_mul_one (by decide)

theorem sixty_eq : sixty = finite false minute representable_minute := ofInt_natCast (n := 60) (by decide)

theorem minutes_cast (u : Nat) : ((u / minute : Nat) : ℚ) * 60 + (u % minute : Nat) / one = u / one := by
  have hdivision : u / minute * (60 * one) + u % minute = u := by
    rw [Nat.mul_comm]
    exact Nat.div_add_mod u minute
  have hdivision : ((u / minute : Nat) : ℚ) * (60 * one) + (u % minute : Nat) = u := by
    exact_mod_cast hdivision
  rw [eq_div_iff one_cast_ne_zero, add_mul, div_mul_cancel₀ _ one_cast_ne_zero, mul_assoc]
  exact hdivision

theorem minutes_units (u : Nat) : u / minute * 60 * one = u / minute * minute := by
  rw [Nat.mul_assoc, ← minute]

theorem floor_minutes (u : Nat) : ⌊(u : ℚ) / one / 60⌋₊ = u / minute := by
  have hminute : (one : ℚ) * 60 = (minute : Nat) := by
    rw [minute, Nat.cast_mul, mul_comm]
    rfl
  rw [div_div, hminute, Nat.floor_div_eq_div]

/-- The format holds the whole minutes of all but very large numbers. -/
theorem representable_minutes (h : u < 2 ^ 55 * one) : Representable (u / minute * minute) := by
  have hle : u / minute * minute ≤ u := Nat.div_mul_le_self u minute
  have hsplit : u / minute * minute = u / minute * 15 * (4 * one) := by
    rw [minute]
    generalize u / (60 * one) = k
    generalize one = unit
    ring
  have hfour : 4 * one = Nat.pow 2 1076 := by decide +kernel
  have hbits : u / minute * 15 < 2 ^ 53 := by
    refine Nat.lt_of_mul_lt_mul_right (a := 4 * one) ?_
    rw [← hsplit]
    have hlimit : 2 ^ 53 * (4 * one) = 2 ^ 55 * one := by
      generalize one = unit
      ring
    omega
  have hlimit : u / minute * minute < unitLimit := (hle.trans_lt h).trans (by decide +kernel)
  rw [hsplit, hfour] at hlimit ⊢
  exact representable_mul_two_pow hbits hlimit

/-! ### The text of minutes -/

theorem total_minutes (m t : Nat) : Fields.total ⟨m / 60, m % 60, t⟩ = m * 60 + t / 10 := by
  have hdivision : m / 60 * 3600 + m % 60 * 60 = m * 60 := by omega
  have hdivision : ((m / 60 : Nat) : ℚ) * 3600 + (m % 60 : Nat) * 60 = m * 60 := by exact_mod_cast hdivision
  rw [Fields.total, hdivision]

theorem areOf_minutes_iff {t : Nat} :
    Fields.AreOf ⟨m / 60, m % 60, t⟩ q ↔ t < 600 ∧ |(m : ℚ) * 60 + t / 10 - q| ≤ 1 / 20 := by
  rw [← total_minutes]
  constructor
  · exact fun h => ⟨h.seconds, h.close⟩
  · exact fun ⟨hseconds, hclose⟩ => ⟨Nat.mod_lt m (by decide), hseconds, hclose⟩

theorem tells_minutes_iff {w : Nat} (hw : Representable w) :
    Tells (minutesText m (finite false w hw)) q ↔
      tenths w < 600 ∧ |(m : ℚ) * 60 + tenths w / 10 - q| ≤ 1 / 20 := by
  rw [Tells, readFields?_minutes, ← areOf_minutes_iff]
  simp only [Option.some.injEq, exists_eq_left']

theorem tells_seconds_iff {negative : Bool} (h : negative = true → tenths u = 0) :
    Tells ((finite negative u hu).fixed 1 ++ "s") q ↔
      tenths u < 600 ∧ |(tenths u : ℚ) / 10 - q| ≤ 1 / 20 := by
  have hfields {t : Nat} : Fields.AreOf ⟨0, 0, t⟩ q ↔ t < 600 ∧ |(t : ℚ) / 10 - q| ≤ 1 / 20 := by
    simpa using areOf_minutes_iff (m := 0)
  rw [Tells, readFields?_fixed h, ← hfields]
  simp only [Option.some.injEq, exists_eq_left']

theorem not_lt_sixty (h : minute ≤ u) : ¬ (finite false u hu).lt sixty = true := by
  rw [sixty_eq]
  simpa [lt] using h

/-- A span of a minute or more has a text of minutes and of what a rounded difference leaves. -/
theorem durationText_eq_ok (h : minute ≤ u) (hs : durationText (finite false u hu) = .ok s) :
    ∃ m v, ∃ hv : Representable v, nearest (m * 60 * one) = v ∧
      s = minutesText m (finite false u hu - finite false v hv) := by
  rw [durationText, if_neg (not_lt_sixty h)] at hs
  obtain ⟨minutes, hminutes, hs⟩ := Outcome.bind_eq_ok.1 hs
  obtain ⟨whole, hwhole, hs⟩ := Outcome.bind_eq_ok.1 hs
  have hunsigned := isUnsigned_floorDiv hu representable_minute minute_pos
  rw [← sixty_eq] at hunsigned
  obtain ⟨m, rfl⟩ : ∃ m : Nat, minutes = m := by
    generalize (finite false u hu).floorDiv sixty = count at hminutes hunsigned
    obtain rfl | ⟨w, hw, rfl⟩ := isUnsigned_cases hunsigned
    · cases hminutes
    · exact ⟨w / one, Except.ok.inj (hminutes.symm.trans (Value.toInt_finite hw))⟩
  have hint : ofInt ((m : Int) * 60) = ofUnits false (nearest (m * 60 * one)) := by
    have hcast : ((m * 60 : Nat) : Int) = (m : Int) * 60 := by push_cast; rfl
    rw [← hcast, ofInt_eq_ofQuotient, ofQuotient_one]
  rw [Value.toBinary64, Value.Number.toBinary64, hint] at hwhole
  by_cases hv : Representable (nearest (m * 60 * one))
  · rw [ofUnits_of_representable false hv] at hwhole
    have hwhole : finite false _ hv = whole := Except.ok.inj hwhole
    rw [← hwhole] at hs
    exact ⟨m, _, hv, rfl, (Except.ok.inj hs).symm⟩
  · rw [ofUnits, dif_neg hv] at hwhole
    cases hwhole

/-! ### Minutes that the format holds -/

theorem floorDiv_sixty (hu : Representable u) (hminutes : Representable (u / minute * minute)) :
    ∃ hcount, (finite false u hu).floorDiv sixty = finite false (u / minute * one) hcount := by
  have hsplit : u / minute * minute = 15 * (u / minute * one * 2 ^ 2) := by
    rw [minute]
    generalize u / (60 * one) = k
    generalize one = unit
    ring
  have hcount : Representable (u / minute * one) := by
    rw [hsplit] at hminutes
    exact .of_mul_two_pow (.of_mul_odd (by decide) hminutes)
  rw [sixty_eq]
  exact ⟨hcount, floorDiv_eq hu representable_minute minute_pos hminutes hcount⟩

theorem ofInt_minutes (hminutes : Representable (u / minute * minute)) :
    ofInt ((u / minute : Nat) * 60) = finite false (u / minute * minute) hminutes := by
  have hcast : ((u / minute * 60 : Nat) : Int) = (u / minute : Nat) * 60 := by push_cast; rfl
  have hproduct : Representable (u / minute * 60 * one) :=
    (congrArg Representable (minutes_units u)).mpr hminutes
  rw [← hcast, ofInt_of_representable hproduct]
  simp only [minutes_units]

theorem sub_minutes (hminutes : Representable (u / minute * minute)) (hrest : Representable (u % minute)) :
    finite false u hu - finite false (u / minute * minute) hminutes = finite false (u % minute) hrest := by
  have hdivision := Nat.div_add_mod u minute
  rw [Nat.mul_comm] at hdivision
  have heq : u - u / minute * minute = u % minute := by omega
  rw [sub_eq_finite hu hminutes (Nat.div_mul_le_self u minute) (heq ▸ hrest)]
  simp only [heq]

/-- Where the format holds the whole minutes, they are split off exactly. -/
theorem durationText_minutes (h : minute ≤ u) (hminutes : Representable (u / minute * minute)) :
    durationText (finite false u hu) = .ok (minutesText (u / minute)
      (finite false (u % minute) (representable_mod hu representable_minute minute_pos))) := by
  have hrest := representable_mod hu representable_minute minute_pos
  obtain ⟨hcount, hquotient⟩ := floorDiv_sixty hu hminutes
  have htruncate : (Value.float (finite false (u / minute * one) hcount)).toInt =
      .ok ((u / minute : Nat) : Int) := by
    rw [Value.toInt_finite, Nat.mul_div_cancel _ Binary64.one_pos]
  have hvalue : (Value.int ((u / minute : Nat) * 60)).toBinary64 =
      .ok (finite false (u / minute * minute) hminutes) := by
    have hfinite : (ofInt ((u / minute : Nat) * 60)).isFinite = true := by rw [ofInt_minutes hminutes, isFinite]
    rw [Value.toBinary64_int hfinite, ofInt_minutes hminutes]
  rw [durationText, if_neg (not_lt_sixty h), hquotient]
  refine Outcome.bind_eq_ok.2 ⟨_, htruncate, Outcome.bind_eq_ok.2 ⟨_, hvalue, ?_⟩⟩
  rw [sub_minutes hminutes hrest, Int.toNat_natCast]
  rfl

/-- Between whole numbers, half a tenth is no room for an error. -/
theorem eq_of_cast_close (h : |(m : ℚ) - n| ≤ 1 / 20) : m = n := by
  obtain ⟨hlow, hhigh⟩ := abs_le.1 h
  have hlow : (n : ℚ) < m + 1 := by linarith
  have hhigh : (m : ℚ) < n + 1 := by linarith
  have hlow : n < m + 1 := by exact_mod_cast hlow
  have hhigh : m < n + 1 := by exact_mod_cast hhigh
  omega

/-- Where the text tells the span, the format holds the whole minutes. -/
theorem representable_of_tells (h : minute ≤ u) (hs : durationText (finite false u hu) = .ok s)
    (htells : Tells s ((u : ℚ) / one)) : Representable (u / minute * minute) := by
  rcases Nat.lt_or_ge u (2 ^ 55 * one) with hsmall | hlarge
  · exact representable_minutes hsmall
  -- From here on all numbers are whole.
  obtain ⟨m, v, hv, hproduct, rfl⟩ := durationText_eq_ok h hs
  have hwhole : one ∣ u := one_dvd hu ((Nat.mul_le_mul_right one (by decide)).trans hlarge)
  have hwhole' : one ∣ v := hproduct ▸ one_dvd_nearest (Nat.dvd_mul_left one (m * 60))
  rcases Nat.lt_or_ge u v with hlt | hge
  · obtain ⟨hrest, hsub⟩ := exists_sub_eq_negative hu hv hlt
    obtain ⟨f, hread, -⟩ := htells
    rw [hsub, readFields?_minutes_negative] at hread
    cases hread
  obtain ⟨hrest, hsub⟩ := exists_sub_eq_finite hu hv hge
  rw [hsub, tells_minutes_iff] at htells
  obtain ⟨hseconds, hclose⟩ := htells
  have hexact := eq_of_nearest_lt (Nat.dvd_sub hwhole hwhole') (lt_of_tenths_lt hseconds)
  obtain ⟨a, ha⟩ := hwhole
  obtain ⟨k, hk⟩ := Nat.dvd_sub ⟨a, ha⟩ hwhole'
  rw [Nat.mul_comm] at ha hk
  rw [hexact, hk, tenths_natCast] at hseconds hclose
  have hsum : m * 60 + k = a := by
    refine eq_of_cast_close ?_
    rwa [ha, Nat.cast_mul, Nat.cast_mul, Nat.cast_ofNat, mul_div_cancel_right₀ _ one_cast_ne_zero,
      mul_div_cancel_right₀ _ (by norm_num), ← Nat.cast_ofNat, ← Nat.cast_mul, ← Nat.cast_add] at hclose
  have hminutes : u / minute = m := by
    rw [ha, minute, Nat.mul_div_mul_right _ _ Binary64.one_pos]
    omega
  have hsplit : u / minute * minute = v := by
    have hu_eq : u = m * 60 * one + k * one := by rw [ha, ← hsum, Nat.add_mul]
    rw [hminutes, minute, ← Nat.mul_assoc]
    omega
  rwa [hsplit]

/-! ### Spans -/

/-- A number whose span its text tells: the format holds its whole minutes, and what is left of them is below
59.95 seconds. A whole number only has to have hours that can be written. -/
def IsTellable : Value.Number → Prop
  | .int n => n / 3600 < 10 ^ Text.maxIntDigits
  | .float x =>
    (∃ y : Binary64, y.toRat? = some ((⌊x.toRat / 60⌋₊ * 60 : Nat) : ℚ)) ∧
      x.toRat - (⌊x.toRat / 60⌋₊ * 60 : Nat) < 1199 / 20

theorem isTellable_float_iff (hx : x.toRat = u / one) :
    IsTellable (.float x) ↔ Representable (u / minute * minute) ∧ tenths (u % minute) < 600 := by
  have hrest : (u : ℚ) / one - (u / minute * 60 : Nat) = (u % minute : Nat) / one := by
    rw [← minutes_cast u]
    push_cast
    ring
  rw [IsTellable, hx, floor_minutes, exists_toRat?_natCast_iff, minutes_units, hrest, tenths_lt_iff]

theorem tells_short_iff {negative : Bool} (hu : Representable u) (h : u < minute)
    (hsign : negative = true → u = 0) :
    (∃ s, durationText (finite negative u hu) = .ok s ∧ Tells s ((u : ℚ) / one)) ↔ tenths u < 600 := by
  have hshort : (finite negative u hu).lt sixty = true := by
    rw [sixty_eq]
    cases negative with
    | false => simp only [lt, h, decide_true]
    | true => simp [lt, minute_pos]
  have htext : durationText (finite negative u hu) = .ok ((finite negative u hu).fixed 1 ++ "s") := by
    rw [durationText, if_pos hshort]
    rfl
  have hzero (hneg : negative = true) : tenths u = 0 := by
    rw [hsign hneg]
    simpa using tenths_natCast 0
  constructor
  · rintro ⟨s, hs, htells⟩
    obtain rfl := Except.ok.inj (htext.symm.trans hs)
    exact ((tells_seconds_iff hzero).1 htells).1
  · intro hseconds
    exact ⟨_, htext, (tells_seconds_iff hzero).2 ⟨hseconds, tenths_close u⟩⟩

theorem tells_long_iff (h : minute ≤ u) :
    (∃ s, durationText (finite false u hu) = .ok s ∧ Tells s ((u : ℚ) / one)) ↔
      Representable (u / minute * minute) ∧ tenths (u % minute) < 600 := by
  have hclose : |((u / minute : Nat) : ℚ) * 60 + tenths (u % minute) / 10 - u / one| ≤ 1 / 20 := by
    rw [← minutes_cast u, add_sub_add_left_eq_sub]
    exact tenths_close (u % minute)
  constructor
  · rintro ⟨s, hs, htells⟩
    have hminutes := representable_of_tells h hs htells
    obtain rfl := Except.ok.inj ((durationText_minutes h hminutes).symm.trans hs)
    exact ⟨hminutes, ((tells_minutes_iff _).1 htells).1⟩
  · rintro ⟨hminutes, hseconds⟩
    exact ⟨_, durationText_minutes h hminutes, (tells_minutes_iff _).2 ⟨hseconds, hclose⟩⟩

/-- A number from zero on as a magnitude in units; zero may have a sign. -/
theorem exists_units_of_nonneg (hx : x.toRat? = some q) (h0 : 0 ≤ q) :
    ∃ negative u, ∃ hu : Representable u,
      x = finite negative u hu ∧ q = u / one ∧ (negative = true → u = 0) := by
  obtain ⟨negative, u, hu, rfl⟩ : ∃ negative u hu, x = finite negative u hu := by
    cases x with
    | finite negative u hu => exact ⟨negative, u, hu, rfl⟩
    | _ => cases hx
  refine ⟨negative, u, hu, rfl, ?_⟩
  cases negative with
  | false =>
    rw [toRat?_of_units (m := u) rfl, Int.cast_natCast] at hx
    exact ⟨(Option.some.inj hx).symm, nofun⟩
  | true =>
    rw [toRat?_of_units (m := -(u : Int)) rfl, Int.cast_neg, Int.cast_natCast] at hx
    have hneg : -(u : ℚ) / one = q := Option.some.inj hx
    have hle : (u : ℚ) ≤ 0 := by
      rw [← hneg, le_div_iff₀ one_cast_pos] at h0
      linarith
    have hle : u ≤ 0 := by exact_mod_cast hle
    have hzero := Nat.le_zero.1 hle
    rw [hzero, Nat.cast_zero, neg_zero] at hneg
    exact ⟨by rw [hzero, Nat.cast_zero, hneg], fun _ => hzero⟩

theorem tells_float_iff (hx : x.toRat? = some q) (h0 : 0 ≤ q) :
    (∃ s, durationText x = .ok s ∧ Tells s q) ↔ IsTellable (.float x) := by
  obtain ⟨negative, u, hu, rfl, rfl, hsign⟩ := exists_units_of_nonneg hx h0
  rw [isTellable_float_iff (toRat_eq_of_toRat? hx)]
  rcases Nat.lt_or_ge u minute with hlt | hge
  · rw [tells_short_iff hu hlt hsign, Nat.div_eq_of_lt hlt, Nat.mod_eq_of_lt hlt, Nat.zero_mul]
    exact (and_iff_right representable_zero).symm
  · cases negative with
    | false => exact tells_long_iff hge
    | true => exact absurd (minute_pos.trans_le hge) (by rw [hsign rfl]; exact Nat.lt_irrefl 0)

/-- Below `2 ^ 55`, what is left of the whole minutes decides alone. -/
theorem isTellable_float_iff_of_lt (hx : x.toRat? = some q) (h0 : 0 ≤ q) (hq : q < 2 ^ 55) :
    IsTellable (.float x) ↔ q - (⌊q / 60⌋₊ * 60 : Nat) < 1199 / 20 := by
  obtain ⟨negative, u, hu, rfl, rfl, -⟩ := exists_units_of_nonneg hx h0
  rw [div_lt_iff₀ one_cast_pos] at hq
  have hlimit : u < 2 ^ 55 * one := by exact_mod_cast hq
  have hminutes : Representable (u / minute * 60 * one) :=
    (congrArg Representable (minutes_units u)).mpr (representable_minutes hlimit)
  rw [IsTellable, toRat_eq_of_toRat? hx, floor_minutes]
  exact and_iff_right (exists_toRat?_natCast_iff.2 hminutes)

theorem durationOf_natCast_short {v : Value} (hv : v.number? = some (.int (n : Int))) (h : n < 60) :
    durationOf v = durationText (finite false (n * one) (representable_mul_one (by omega))) := by
  have hvalue := ofInt_natCast (n := n) (by omega)
  have hfinite : (ofInt (n : Int)).isFinite = true := by rw [hvalue, isFinite]
  have hbind (x : Binary64) : (Except.ok x >>= fun x => durationText x) = durationText x := rfl
  rw [durationOf, hv]
  dsimp only
  rw [if_pos (by omega), Value.toBinary64_int hfinite, hvalue]
  exact hbind _

theorem durationOf_natCast_long {v : Value} (hv : v.number? = some (.int (n : Int))) (h : 60 ≤ n) :
    durationOf v =
      if (Value.int ((n : Int) / 3600)).hasText then
        .ok (minutesText (n / 60) (finite false (n % 60 * one) (representable_mul_one (by omega))))
      else .error (.misuse .value) := by
  have hrest := ofInt_natCast (n := n % 60) (by omega)
  have hminutes : ((n : Int) / 60).toNat = n / 60 := by omega
  have hmod : (n : Int) % 60 = (n % 60 : Nat) := by omega
  rw [durationOf, hv]
  dsimp only
  rw [if_neg (by omega), hminutes, hmod, hrest]

theorem tells_minutes_natCast (n : Nat) (hrest : Representable (n % 60 * one)) :
    Tells (minutesText (n / 60) (finite false (n % 60 * one) hrest)) n := by
  have hsum : n / 60 * 60 + n % 60 = n := by omega
  have hsum : ((n / 60 : Nat) : ℚ) * 60 + (n % 60 : Nat) = n := by exact_mod_cast hsum
  rw [tells_minutes_iff, tenths_natCast, Nat.cast_mul, Nat.cast_ofNat,
    mul_div_cancel_right₀ _ (by norm_num), hsum, sub_self, abs_zero]
  exact ⟨by omega, by norm_num⟩

theorem hasText_hours_iff (n : Nat) :
    (Value.int ((n : Int) / 3600)).hasText = true ↔ (n : Int) / 3600 < 10 ^ Text.maxIntDigits := by
  have hlimit : ((Nat.pow 10 Text.maxIntDigits : Nat) : Int) = 10 ^ Text.maxIntDigits := Nat.cast_pow _ _
  rw [Value.hasText, decide_eq_true_iff, ← hlimit]
  omega

theorem tells_int_iff {v : Value} (hv : v.number? = some (.int (n : Int))) :
    (∃ s, durationOf v = .ok s ∧ Tells s n) ↔ IsTellable (.int n) := by
  rw [IsTellable, ← hasText_hours_iff]
  rcases Nat.lt_or_ge n 60 with hlt | hge
  · have hvalue : ((n * one : Nat) : ℚ) / one = n := by
      rw [Nat.cast_mul, mul_div_cancel_right₀ _ one_cast_ne_zero]
    have hshort : n * one < minute := Nat.mul_lt_mul_of_pos_right hlt Binary64.one_pos
    have hrepresentable : Representable (n * one) := representable_mul_one (by omega)
    have hzero : (n : Int) / 3600 = 0 := by omega
    have htells := tells_short_iff hrepresentable hshort (fun h => absurd h Bool.false_ne_true)
    rw [hvalue, ← durationOf_natCast_short hv hlt] at htells
    rw [htells, tenths_natCast, hasText_hours_iff, hzero]
    exact iff_of_true (by omega) (by positivity)
  · rw [durationOf_natCast_long hv hge]
    split
    · exact iff_of_true ⟨_, rfl, tells_minutes_natCast n _⟩ ‹_›
    · refine iff_of_false ?_ ‹_›
      rintro ⟨_, hs, -⟩
      cases hs

/-- The text of a number of seconds from zero on tells it, exactly where the format holds its whole minutes and
what is left of them is below 59.95. -/
theorem durationOf_tells {v : Value} {k : Value.Number} (hv : v.number? = some k) (hk : k.toRat? = some q)
    (h0 : 0 ≤ q) : (∃ s, durationOf v = .ok s ∧ Tells s q) ↔ IsTellable k := by
  cases k with
  | float x =>
    have htext : durationOf v = durationText x := by rw [durationOf, hv]
    rw [htext]
    exact tells_float_iff hk h0
  | int n =>
    obtain rfl : (n : ℚ) = q := Option.some.inj hk
    lift n to Nat using by exact_mod_cast h0
    exact tells_int_iff hv

/-- A little less than two hours. -/
theorem hourSpan_told :
    let x := Binary64.ofRatio 115199 16
    (Value.float x).number? = some (.float x) ∧ (Value.Number.float x).toRat? = some (115199 / 16) ∧
      (0 : ℚ) ≤ 115199 / 16 ∧ IsTellable (.float x) ∧ durationOf (.float x) = .ok "1h 59m 59.9s" ∧
      ∃ s, durationOf (.float x) = .ok s ∧ Tells s (115199 / 16) := by
  intro x
  have hvalue : x.toRat? = some (115199 / 16) := by decide +kernel
  have htellable : IsTellable (.float x) := by
    rw [isTellable_float_iff_of_lt hvalue (by norm_num) (by norm_num)]
    have hfloor : ⌊(115199 / 16 : ℚ) / 60⌋₊ = 119 := by
      rw [Nat.floor_eq_iff (by norm_num)]
      norm_num
    rw [hfloor]
    norm_num
  have hnumber : (Value.Number.float x).toRat? = some (115199 / 16) := by
    rw [Value.Number.toRat?]
    exact hvalue
  exact ⟨rfl, hnumber, by norm_num, htellable, by decide +kernel,
    (durationOf_tells rfl hnumber (by norm_num)).2 htellable⟩

/-- What is left of a minute may round to sixty seconds. -/
theorem minuteSpan_not_told :
    ¬ ∀ (v : Value) (k : Value.Number) (q : ℚ), v.number? = some k → k.toRat? = some q → 0 ≤ q →
      ∃ s, durationOf v = .ok s ∧ Tells s q := by
  intro hall
  have hfinite : (Binary64.ofRatio 5996 100).isFinite = true := by decide +kernel
  have hnonneg : zero.le (.ofRatio 5996 100) = true := by decide +kernel
  have htext : durationOf (.float (.ofRatio 5996 100)) = .ok "60.0s" := by decide +kernel
  have hread : readFields? "60.0s".toList = some ⟨0, 0, 600⟩ := by decide
  have hnumber : (Value.Number.float (.ofRatio 5996 100)).toRat? = some (ofRatio 5996 100).toRat := by
    rw [Value.Number.toRat?]
    exact toRat?_eq_toRat hfinite
  rw [le_iff_toRat rfl hfinite, toRat_zero] at hnonneg
  obtain ⟨s, hs, f, hf, hof⟩ := hall (.float (.ofRatio 5996 100)) _ _ rfl hnumber hnonneg
  obtain rfl := Except.ok.inj (htext.symm.trans hs)
  obtain rfl := Option.some.inj (hread.symm.trans hf)
  exact absurd hof.seconds (by decide)

end Terminal

end Montage
