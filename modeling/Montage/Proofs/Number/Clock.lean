import Montage.Proofs.Number.Difference
import Montage.Proofs.Number.Percent
import Montage.Proofs.Number.Seconds
import Montage.Proofs.Number.Sexagesimal
import Montage.Proofs.Number.Stamp

/-!
# Clocks

A whole number of seconds, shown as on a clock, is the time that its text stands for
(`Timecode.read_clockText`). The time of a subtitle shows the count of its milliseconds, and later times have
no smaller counts (`Timecode.subtitleText_shows`). How often a span of time fits into another one is a number
of moderate size (`Binary64.isUpTo_floorDiv`).
-/

namespace Montage

namespace Binary64

variable {n u v d limit : Nat} {x y : Binary64}

theorem ofInt_eq_ofQuotient (n : Nat) : ofInt n = ofQuotient false (n * one) 1 := by
  have hsign : decide ((n : Int) < 0) = false := decide_eq_false (by omega)
  rw [ofInt, ofRatio, hsign, Int.natAbs_natCast]

theorem ofInt_of_representable (hu : Representable (n * one)) : ofInt n = finite false (n * one) hu := by
  rw [ofInt_eq_ofQuotient, ofQuotient_one, nearest_eq hu, ofUnits_of_representable false hu]

theorem representable_two_pow {k : Nat} (hk : k < 2098) : Representable (Nat.pow 2 k) := by
  have hlimit : 1 * Nat.pow 2 k < unitLimit := by
    rw [Nat.one_mul]
    exact Nat.pow_lt_pow_right Nat.one_lt_two hk
  have hpower := representable_mul_two_pow (Nat.one_lt_two_pow (by decide)) hlimit
  rwa [Nat.one_mul] at hpower

theorem representable_two_pow_mul_one {k : Nat} (hk : k < 1024) : Representable (Nat.pow 2 k * one) := by
  have hsum : Nat.pow 2 k * one = Nat.pow 2 (k + 1074) := (Nat.pow_add 2 k 1074).symm
  rw [hsum]
  exact representable_two_pow (by omega)

theorem ofInt_two_pow {k : Nat} (hk : k < 1024) :
    ofInt (2 ^ k) = finite false (Nat.pow 2 k * one) (representable_two_pow_mul_one hk) := by
  have hcast : (2 ^ k : Int) = (Nat.pow 2 k : Nat) := (Nat.cast_pow 2 k).symm
  rw [hcast, ofInt_of_representable]

theorem representable_mul_one (hn : n < 2 ^ 53) : Representable (n * one) := by
  have hlt : n * one < Nat.pow 2 53 * one := Nat.mul_lt_mul_of_pos_right hn one_pos
  exact representable_mul_two_pow hn (hlt.trans (representable_two_pow_mul_one (by decide)).1)

theorem ofInt_natCast (hn : n < 2 ^ 53) : ofInt n = finite false (n * one) (representable_mul_one hn) :=
  ofInt_of_representable _

theorem representable_one : Representable one := by
  rw [← Nat.one_mul one]
  exact representable_mul_one (by decide)

theorem ofInt_one : ofInt 1 = finite false one representable_one := by
  simpa only [Nat.one_mul, Nat.cast_one] using ofInt_natCast (n := 1) (by decide)

theorem max_zero_mono (h : x.le y = true) : (max zero x).le (max zero y) = true := by
  rw [max]
  split
  · exact le_max_right rfl h
  · exact le_max_left rfl

/-! ### Whole parts of quotients -/

/-- A number without a sign, of no more units than a limit. -/
def IsUpTo (limit : Nat) (x : Binary64) : Prop :=
  ∃ u, ∃ hu : Representable u, x = finite false u hu ∧ u ≤ limit

theorem isUpTo_ofQuotient {n : Nat} (hd : 0 < d) (hlimit : Representable limit) (h : n ≤ limit * d) :
    IsUpTo limit (ofQuotient false n d) := by
  have hle := nearestQuotient_le hd hlimit h
  have hrep := representable_nearestQuotient hd (Nat.lt_of_le_of_lt hle hlimit.1)
  exact ⟨nearestQuotient n d, hrep, ofUnits_of_representable false hrep, hle⟩

theorem isUpTo_sub (hu : Representable u) (hv : Representable v) (h : v ≤ u) :
    IsUpTo u (finite false u hu - finite false v hv) := by
  rcases Nat.eq_or_lt_of_le h with rfl | hlt
  · have hself : finite false v hu - finite false v hv = zero := by
      change add (finite false v hu) (finite true v hv) = zero
      simp [add]
    exact ⟨0, representable_zero, hself, Nat.zero_le v⟩
  · rw [sub_eq_ofQuotient rfl rfl (Int.ofNat_lt.2 hlt)]
    exact isUpTo_ofQuotient Nat.one_pos hu (by omega)

theorem representable_mod (hu : Representable u) (hd : Representable d) (hpos : 0 < d) :
    Representable (u % d) := by
  have hexponent : 2 ^ exponent (u % d) ∣ u % d := by
    have hle := exponent_mono (Nat.mod_le u d)
    have hle' := exponent_mono (Nat.mod_lt u hpos).le
    exact (Nat.dvd_mod_iff ((Nat.pow_dvd_pow 2 hle').trans hd.2)).2 ((Nat.pow_dvd_pow 2 hle).trans hu.2)
  exact ⟨Nat.lt_of_le_of_lt (Nat.mod_le u d) hu.1, hexponent⟩

theorem remainder_finite (hu : Representable u) (hd : Representable d) (hpos : 0 < d) :
    remainder (finite false u hu) (finite false d hd) = finite false (u % d) (representable_mod hu hd hpos) := by
  rw [remainder, if_neg (by omega), ofUnits_of_representable false]

theorem representable_div_mul (hu : Representable u) (k : Nat) : Representable (u / 2 ^ k * 2 ^ k) := by
  have hle : u / 2 ^ k * 2 ^ k ≤ u := Nat.div_mul_le_self u (2 ^ k)
  have hexponent := exponent_mono hle
  refine ⟨Nat.lt_of_le_of_lt hle hu.1, ?_⟩
  rcases Nat.le_total (exponent u) k with hsmall | hlarge
  · exact (Nat.pow_dvd_pow 2 (hexponent.trans hsmall)).trans (Nat.dvd_mul_left (2 ^ k) (u / 2 ^ k))
  · have hwhole : 2 ^ k ∣ u := (Nat.pow_dvd_pow 2 hlarge).trans hu.2
    rw [Nat.div_mul_cancel hwhole]
    exact hu.2

theorem isUpTo_floor (hu : Representable u) : IsUpTo u (floor (finite false u hu)) := by
  have hwhole : Representable (u / one * one) := representable_div_mul hu 1074
  exact ⟨_, hwhole, ofUnits_of_representable false hwhole, Nat.div_mul_le_self u one⟩

/-- The whole part of a quotient by one or more is at most one above the number. -/
theorem isUpTo_floorDiv (hu : Representable u) (hd : Representable d) (hone : one ≤ d)
    (hlimit : Representable limit) (h : u + one ≤ limit) :
    IsUpTo limit (floorDiv (finite false u hu) (finite false d hd)) := by
  have hpos : 0 < d := Nat.lt_of_lt_of_le Binary64.one_pos hone
  have hrest := representable_mod hu hd hpos
  have hremainder := remainder_finite hu hd hpos
  obtain ⟨v, hv, hsub, hvu⟩ := isUpTo_sub hu hrest (Nat.mod_le u d)
  obtain ⟨c, hc, hdiv, hcv⟩ : IsUpTo v (finite false v hv / finite false d hd) := by
    have hquotient : finite false v hv / finite false d hd = ofQuotient false (v * one) d := if_neg (by omega)
    rw [hquotient]
    exact isUpTo_ofQuotient hpos hv (Nat.mul_le_mul_left v hone)
  have hsign : (finite false (u % d) hrest).lt zero = false := by simp [lt, zero]
  obtain ⟨f, hf, hfloor, hfc⟩ := isUpTo_floor hc
  have hnext : finite false f hf + finite false one representable_one = ofQuotient false (f + one) 1 := by
    change add _ _ = _
    rw [add, if_pos rfl]
  unfold floorDiv
  simp only [hremainder, hsub, hdiv, hsign, hfloor, ofInt_one, hnext, Bool.false_eq_true, if_false]
  split
  · exact isUpTo_ofQuotient Nat.one_pos hlimit (by omega)
  · exact ⟨f, hf, rfl, by omega⟩

theorem isFinite_ofInt {k : Nat} (hk : k < 1024) (h : n ≤ Nat.pow 2 k) : (ofInt n).isFinite = true := by
  have hunits : n * one ≤ Nat.pow 2 k * one * 1 := by
    rw [Nat.mul_one]
    exact Nat.mul_le_mul_right one h
  obtain ⟨u, hu, heq, -⟩ :=
    isUpTo_ofQuotient Nat.one_pos (representable_two_pow_mul_one hk) hunits
  rw [ofInt_eq_ofQuotient, heq]
  rfl

theorem isUnsigned_of_not_lt {hd : Representable d} (hpos : 0 < d) (hx : x.isNaN = false)
    (h : ¬ x.lt (finite false d hd) = true) : x.isUnsigned = true := by
  cases x with
  | nan => cases hx
  | infinite s => cases s <;> first | rfl | exact absurd rfl h
  | finite s u hu =>
    cases s with
    | false => rfl
    | true => simp [lt, hpos] at h

/-- Numbers that differ have a difference that is not zero. -/
theorem sub_same_zero_eq_false (h : x.same y = false) : (x - y).same zero = false := by
  have hzero (s : Bool) {k : Nat} (hk : 0 < k) : (ofQuotient s k 1).same zero = false := by
    have hone : 1 ≤ nearest k := le_nearest (representable_two_pow (k := 0) (by decide)) hk
    rw [ofQuotient_one, ofUnits]
    split
    · exact Bool.and_eq_false_iff.2 (.inl (decide_eq_false (by omega)))
    · rfl
  cases x with
  | nan => rfl
  | infinite s =>
    cases y with
    | nan => rfl
    | infinite r => cases s <;> cases r <;> rfl
    | finite r b hb => rfl
  | finite s a ha =>
    cases y with
    | nan => rfl
    | infinite r => rfl
    | finite r b hb =>
      obtain ⟨m, hm⟩ := exists_units (x := finite s a ha) rfl
      obtain ⟨n, hn⟩ := exists_units (x := finite r b hb) rfl
      have hne : m ≠ n := by
        rintro rfl
        cases s <;> cases r <;> cases hm <;> simp [toUnits?, same] at h hn <;> omega
      rcases add_cases hm (toUnits?_neg hn) with ⟨hpos, hsum⟩ | ⟨hneg, hsum⟩ | ⟨hsum, -⟩
      · change (finite s a ha + -finite r b hb).same zero = false
        rw [hsum]
        exact hzero false (by omega)
      · change (finite s a ha + -finite r b hb).same zero = false
        rw [hsum]
        exact hzero true (by omega)
      · omega

theorem toUnits?_eq_of_same (h : x.same y = true) : x.toUnits? = y.toUnits? := by
  cases x with
  | nan => cases h
  | infinite s => cases y <;> first | rfl | cases h
  | finite s a ha =>
    cases y with
    | finite r b hb => cases s <;> cases r <;> simp [same, toUnits?] at h ⊢ <;> omega
    | _ => cases h

/-- Finite numbers that are the same have a difference of zero. -/
theorem sub_same_zero_eq_true (hy : y.isFinite = true) (h : x.same y = true) :
    (x - y).same zero = true := by
  have hzero {z : Binary64} (hz : z.toUnits? = some 0) : z.same zero = true := by
    cases z with
    | finite s u hu => cases s <;> simpa [toUnits?, same, zero] using hz
    | _ => cases hz
  obtain ⟨n, hn⟩ := exists_units hy
  rcases add_cases ((toUnits?_eq_of_same h).trans hn) (toUnits?_neg hn) with ⟨hpos, -⟩ | ⟨hneg, -⟩ | ⟨-, hsum⟩
  · omega
  · omega
  · exact hzero hsum

end Binary64

namespace Value

open Binary64

theorem toInt_finite {u : Nat} (hu : Representable u) :
    (float (finite false u hu)).toInt = .ok ((u / one : Nat) : Int) := rfl

theorem toBinary64_int {n : Int} (h : (ofInt n).isFinite = true) : (int n).toBinary64 = .ok (ofInt n) := by
  simp only [toBinary64, Number.toBinary64, h, if_true]

end Value

namespace Decimal

/-- A row of digits for a number that is not too large is read as that number. -/
theorem read_isDigits {cs : List Char} (hcs : IsDigits cs) (hne : cs ≠ [])
    (hvalue : Scientific.digitsValue cs < 10 ^ 28) :
    read cs = .ok (ofInt (Scientific.digitsValue cs)) := by
  have hread : Scientific.read? cs = some ⟨false, Scientific.digitsValue cs, 0⟩ := by
    have hnone : Scientific.exponentOf? [] = some 0 := rfl
    have hwhole := Scientific.read?_whole false hcs hne hnone
    rwa [List.append_nil] at hwhole
  have hsign : decide ((Scientific.digitsValue cs : Int) < 0) = false := decide_eq_false (by omega)
  rw [read_numeral hcs.isNumeral hread, ofScientific_eq 28 hvalue (by decide) (by norm_num) (by norm_num),
    ofInt, hsign, Int.natAbs_natCast]

end Decimal

namespace Timecode

open Binary64

variable {n : Nat} {x y : Binary64} {s : String}

/-! ### Whole fields -/

/-- A row of digits for a number. -/
structure IsField (cs : List Char) (k : Nat) : Prop where
  digits : IsDigits cs
  nonempty : cs ≠ []
  value : Scientific.digitsValue cs = k

theorem isField_decimalPadded (width k : Nat) : IsField (Text.decimalPadded width k) k where
  digits := isDigit_decimalPadded width k
  nonempty := by
    have hlength := length_decimal_pos k
    rw [← List.length_pos_iff, length_decimalPadded]
    omega
  value := Scientific.digitsValue_decimalPadded width k

theorem le_sexagesimal {digits : List Nat} {k : Nat} (hk : k ∈ digits) :
    (k : ℚ) ≤ sexagesimal (digits.map Nat.cast) := by
  obtain ⟨front, back, rfl⟩ := List.append_of_mem hk
  obtain ⟨above, habove⟩ := exists_natCast front
  obtain ⟨below, hbelow⟩ := exists_natCast back
  rw [List.map_append, List.map_cons, sexagesimal_append, sexagesimal, habove, hbelow, List.length_map]
  have hpower : (1 : ℚ) ≤ 60 ^ back.length := one_le_pow₀ (by norm_num)
  have hdigit : (k : ℚ) ≤ k * 60 ^ back.length := le_mul_of_one_le_right (Nat.cast_nonneg k) hpower
  have hrest : (0 : ℚ) ≤ above * 60 ^ ((k : ℚ) :: back.map Nat.cast).length := by positivity
  have hbelow_nonneg : (0 : ℚ) ≤ below := Nat.cast_nonneg below
  linarith

/-- Two or three whole fields have the value of their digits. -/
theorem read_isFields {digits : List Nat} (hfields : List.Forall₂ IsField (fieldsOf s) digits)
    (hlow : 2 ≤ digits.length) (hhigh : digits.length ≤ 3)
    (hvalue : sexagesimal (digits.map Nat.cast) < 10 ^ 28) :
    ∃ x, read (.text s) = .ok x ∧ x.toRat? = some (sexagesimal (digits.map Nat.cast)) := by
  have hread : (fieldsOf s).mapM Decimal.read = .ok (digits.map fun k : Nat => Decimal.ofInt k) := by
    refine Outcome.mapM_eq_ok.2 (List.forall₂_map_right_iff.2 ?_)
    refine Outcome.forall₂_imp_of_mem hfields fun cs _ k hk hfield => ?_
    have hbelow : (k : ℚ) < 10 ^ 28 := (le_sexagesimal hk).trans_lt hvalue
    have hbelow : k < 10 ^ 28 := by exact_mod_cast hbelow
    rw [Decimal.read_isDigits hfield.digits hfield.nonempty (hfield.value.trans_lt hbelow), hfield.value]
  have hvalues : (digits.map fun k : Nat => Decimal.ofInt k).mapM Decimal.toRat? =
      some (digits.map Nat.cast) := by
    refine Outcome.mapM_eq_some.2 (List.forall₂_map_left_iff.2 (List.forall₂_map_right_iff.2 ?_))
    exact List.forall₂_same.2 fun k _ => by rw [Decimal.toRat?_ofInt, Int.cast_natCast]
  have hall : lastThree (digits.map fun k : Nat => Decimal.ofInt k) =
      digits.map fun k : Nat => Decimal.ofInt k := by
    rw [lastThree, List.length_map, Nat.sub_eq_zero_of_le hhigh, List.drop_zero]
  have hsums := readFields_sums (hfields.length_eq ▸ hlow) hread
  rw [hall] at hsums
  exact hsums.exact hvalues (stepsFit_natCast hvalue)

/-! ### The text of a clock -/

/-- Minutes and seconds, and hours from one hour on. -/
def clock (n : Nat) : String :=
  if 0 < n / 3600 then
    toString (n / 3600) ++ ":" ++ twoDigits (n % 3600 / 60) ++ ":" ++ twoDigits (n % 60)
  else toString (n % 3600 / 60) ++ ":" ++ twoDigits (n % 60)

/-- What a clock shows, as digits in base sixty. -/
def clockDigits (n : Nat) : List Nat :=
  if 0 < n / 3600 then [n / 3600, n % 3600 / 60, n % 60] else [n % 3600 / 60, n % 60]

theorem clockText_eq (h : wholeSeconds x = .ok n) : clockText x = .ok (clock n) := by
  rw [clockText, h, clock]
  change (if _ then _ else _) = _
  split <;> rfl

theorem wholeSeconds_natCast {u : Nat} (hu : Representable (u * one)) :
    wholeSeconds (finite false (u * one) hu) = .ok u := by
  have hvalue : (Value.float (finite false (u * one) hu)).toInt = .ok (u : Int) := by
    rw [Value.toInt_finite, Nat.mul_div_cancel _ Binary64.one_pos]
  rw [wholeSeconds, Binary64.max_zero hu, hvalue]
  rfl

theorem clockText_natCast (hn : n < 2 ^ 53) :
    (do clockText (← (Value.int n).toBinary64)) = .ok (clock n) := by
  have hvalue := ofInt_natCast hn
  have hfinite : (ofInt n).isFinite = true := by
    rw [hvalue]
    rfl
  have hclock : clockText (ofInt n) = .ok (clock n) := by
    rw [hvalue]
    exact clockText_eq (wholeSeconds_natCast (representable_mul_one hn))
  exact Outcome.bind_eq_ok.2 ⟨_, Value.toBinary64_int hfinite, hclock⟩

theorem toList_clock (n : Nat) : (clock n).toList =
    if 0 < n / 3600 then Text.decimal (n / 3600) ++ ':' ::
      (Text.decimalPadded 2 (n % 3600 / 60) ++ ':' :: Text.decimalPadded 2 (n % 60))
    else Text.decimal (n % 3600 / 60) ++ ':' :: Text.decimalPadded 2 (n % 60) := by
  have hcolon : ":".toList = [':'] := rfl
  rw [clock]
  split <;> simp [twoDigits, Text.decimal, hcolon]

theorem splitOn_clock (n : Nat) : Text.splitOn ':' (clock n).toList =
    if 0 < n / 3600 then
      [Text.decimal (n / 3600), Text.decimalPadded 2 (n % 3600 / 60), Text.decimalPadded 2 (n % 60)]
    else [Text.decimal (n % 3600 / 60), Text.decimalPadded 2 (n % 60)] := by
  have hdecimal (k : Nat) : ':' ∉ Text.decimal k := not_mem_of_isDigits rfl (.decimal k)
  have hpadded (k : Nat) : ':' ∉ Text.decimalPadded 2 k :=
    not_mem_of_isDigits rfl (isDigit_decimalPadded 2 k)
  rw [Text.splitOn_eq, toList_clock]
  split
  · rw [List.splitOn_append_cons_self_of_not_mem (hdecimal _),
      List.splitOn_append_cons_self_of_not_mem (hpadded _), List.splitOn_eq_singleton (hpadded _)]
  · rw [List.splitOn_append_cons_self_of_not_mem (hdecimal _), List.splitOn_eq_singleton (hpadded _)]

/-- A clock shows no blanks. -/
theorem fieldsOf_clock (n : Nat) : fieldsOf (clock n) = Text.splitOn ':' (clock n).toList := by
  have hdigits {cs : List Char} (hcs : IsDigits cs) : ∀ c ∈ cs, Text.isBlank c = false := by
    have hnumeral : ∀ c ∈ numeralChars, Text.isBlank c = false := List.all_iff_forall_prop.1 (by decide)
    exact fun c hc => hnumeral c (hcs.isNumeral c hc)
  have hcolon : Text.isBlank ':' = false := by decide
  have hdecimal (k : Nat) := hdigits (.decimal k)
  have hpadded (k : Nat) := hdigits (isDigit_decimalPadded 2 k)
  have hblank : ∀ c ∈ (clock n).toList, Text.isBlank c = false := by
    rw [toList_clock]
    split <;> simp only [List.forall_mem_append, List.forall_mem_cons]
    · exact ⟨hdecimal _, hcolon, hpadded _, hcolon, hpadded _⟩
    · exact ⟨hdecimal _, hcolon, hpadded _⟩
  rw [fieldsOf, Text.trimBlank, Ratio.trim_eq hblank]

theorem isFields_clock (n : Nat) : List.Forall₂ IsField (fieldsOf (clock n)) (clockDigits n) := by
  have hdecimal (k : Nat) : IsField (Text.decimal k) k :=
    ⟨.decimal k, List.length_pos_iff.1 (length_decimal_pos k), Scientific.digitsValue_decimal k⟩
  have hpadded := isField_decimalPadded 2
  rw [fieldsOf_clock, splitOn_clock, clockDigits]
  split
  · exact .cons (hdecimal _) (.cons (hpadded _) (.cons (hpadded _) .nil))
  · exact .cons (hdecimal _) (.cons (hpadded _) .nil)

theorem sexagesimal_clockDigits (n : Nat) : sexagesimal ((clockDigits n).map Nat.cast) = n := by
  rw [clockDigits]
  split
  · have hsum : n / 3600 * 3600 + n % 3600 / 60 * 60 + n % 60 = n := by omega
    simp only [List.map_cons, List.map_nil]
    rw [sexagesimal_three]
    exact_mod_cast hsum
  · have hsum : n % 3600 / 60 * 60 + n % 60 = n := by omega
    simp only [List.map_cons, List.map_nil, sexagesimal, List.length_cons, List.length_nil]
    norm_num
    exact_mod_cast hsum

/-- Reads minutes below sixty, with hours in front of them that are not zero or without hours, and seconds
below sixty. Seconds have two digits, and so have minutes after hours. -/
def readClock? (cs : List Char) : Option Nat :=
  match Text.splitOn ':' cs with
  | [minutes, seconds] => do
    let m ← readField? (max 1 minutes.length) minutes
    let s ← readField? 2 seconds
    if m < 60 && s < 60 then some (m * 60 + s) else none
  | [hours, minutes, seconds] => do
    let h ← readField? (max 1 hours.length) hours
    let m ← readField? 2 minutes
    let s ← readField? 2 seconds
    if 0 < h && m < 60 && s < 60 then some ((h * 60 + m) * 60 + s) else none
  | _ => none

theorem readField?_decimal (k : Nat) :
    readField? (max 1 (Text.decimal k).length) (Text.decimal k) = some k := by
  rw [readField?, max_eq_right (length_decimal_pos k), List.all_eq_true.2 (IsDigits.decimal k),
    Scientific.digitsValue_decimal]
  simp

/-- A number of seconds is read back from what a clock shows. -/
theorem readClock?_clock (n : Nat) : readClock? (clock n).toList = some n := by
  have hminutes := readField?_of_lt (n := n % 3600 / 60) (by decide : 0 < 2) (by omega)
  have hseconds := readField?_of_lt (n := n % 60) (by decide : 0 < 2) (by omega)
  have hbelow : n % 3600 / 60 < 60 ∧ n % 60 < 60 := by omega
  rw [readClock?, splitOn_clock]
  split_ifs with hhours
  · have hsum : (n / 3600 * 60 + n % 3600 / 60) * 60 + n % 60 = n := by omega
    simp [readField?_decimal, hminutes, hseconds, hhours, hbelow, hsum]
  · have hsum : n % 3600 / 60 * 60 + n % 60 = n := by omega
    simp [readField?_decimal, hseconds, hbelow, hsum]

/-- A number of seconds that the binary format holds is shown with minutes and seconds below sixty, and what
is shown is a timecode of that many seconds. -/
theorem read_clockText (hn : n < 2 ^ 53) :
    ∃ s x, (do clockText (← (Value.int n).toBinary64)) = .ok s ∧ readClock? s.toList = some n ∧
      read (.text s) = .ok x ∧ x.toRat? = some (n : ℚ) := by
  have htotal := sexagesimal_clockDigits n
  have hvalue : sexagesimal ((clockDigits n).map Nat.cast) < 10 ^ 28 := by
    rw [htotal]
    exact_mod_cast hn.trans (by norm_num)
  have hlength : 2 ≤ (clockDigits n).length ∧ (clockDigits n).length ≤ 3 := by
    rw [clockDigits]
    split <;> simp
  obtain ⟨x, hread, hx⟩ := read_isFields (isFields_clock n) hlength.1 hlength.2 hvalue
  rw [htotal] at hx
  exact ⟨clock n, x, clockText_natCast hn, readClock?_clock n, hread, hx⟩

/-- One second after an hour. -/
theorem hourClock_read :
    3601 < 2 ^ 53 ∧ ∃ s x, (do clockText (← (Value.int 3601).toBinary64)) = .ok s ∧
      readClock? s.toList = some 3601 ∧ read (.text s) = .ok x ∧ x.toRat? = some 3601 := by
  have hlimit : 3601 < 2 ^ 53 := by norm_num
  exact ⟨hlimit, by simpa using read_clockText hlimit⟩

/-! ### The times of subtitles -/

/-- A text that shows the count of the milliseconds of a time, which is no less than zero. -/
structure Shows (s : String) (x : Binary64) (n : Nat) : Prop where
  text : subtitleText x = .ok s
  reads : readStamp? s.toList = some n
  count : milliseconds (max zero x) = .ok (n : Int)

theorem shows_of_milliseconds (h : milliseconds (max zero x) = .ok (n : Int)) : Shows (stamp n) x n where
  text := by
    rw [subtitleText_eq, h]
    rfl
  reads := readStamp?_stamp n
  count := h

/-- A time has a text just when its milliseconds are finite. The text shows their count, and an earlier time
has a text with no larger count. -/
theorem subtitleText_shows (x : Binary64) :
    ((subtitleText x).isOk = true ↔ (max zero x * .ofInt 1000).isFinite = true) ∧
      ((max zero x * .ofInt 1000).isFinite = true → ∃ s n, Shows s x n) ∧
      ∀ y, y.le x = true → (max zero x * .ofInt 1000).isFinite = true →
        ∃ s t m n, Shows s y m ∧ Shows t x n ∧ m ≤ n := by
  refine ⟨by rw [isOk_subtitleText], fun hfinite => ?_, fun y hyx hfinite => ?_⟩
  · obtain ⟨n, hn, -⟩ := exists_milliseconds (isUnsigned_max_zero x) hfinite
    exact ⟨stamp n, n, shows_of_milliseconds hn⟩
  · obtain ⟨m, n, hm, hn, hmn⟩ :=
      milliseconds_mono (isUnsigned_max_zero y) (isUnsigned_max_zero x) (max_zero_mono hyx) hfinite
    exact ⟨stamp m, stamp n, m, n, shows_of_milliseconds hm, shows_of_milliseconds hn, hmn⟩

/-- Just below one minute, and before zero. -/
theorem minuteTime_shows :
    (max zero (.ofRatio 599996 10000) * .ofInt 1000).isFinite = true ∧
      (ofInt (-5)).le (.ofRatio 599996 10000) = true ∧
      subtitleText (.ofRatio 599996 10000) = .ok "00:01:00,000" ∧
      ∃ s t m n, Shows s (.ofInt (-5)) m ∧ Shows t (.ofRatio 599996 10000) n ∧ m ≤ n := by
  have hfinite : (max zero (.ofRatio 599996 10000) * .ofInt 1000).isFinite = true := by decide +kernel
  have hle : (ofInt (-5)).le (.ofRatio 599996 10000) = true := by decide +kernel
  exact ⟨hfinite, hle, by decide +kernel, (subtitleText_shows _).2.2 _ hle hfinite⟩

/-- A finite time whose milliseconds are too large for the format has no text. -/
theorem hugeTime_not_shows : ¬ ∀ x : Binary64, x.isFinite = true → ∃ s n, Shows s x n := by
  intro hall
  have hfinite : (ofInt (10 ^ 306)).isFinite = true := by decide +kernel
  have hproduct : (max zero (ofInt (10 ^ 306)) * .ofInt 1000).isFinite = false := by decide +kernel
  obtain ⟨s, n, hshows⟩ := hall _ hfinite
  have hok := isOk_subtitleText (ofInt (10 ^ 306))
  rw [hshows.text, hproduct] at hok
  cases hok

end Timecode

end Montage
