import Montage.Proofs.Files.Names
import Montage.Proofs.Number.Monotone
import Montage.Proofs.Outcome

/-!
# The times of subtitles

A time without a sign is counted in milliseconds whenever their number is finite
(`Timecode.isOk_milliseconds`, `Timecode.exists_milliseconds`), and later times have no smaller counts
(`Timecode.milliseconds_mono`). The text of a count is read back from its fields
(`Timecode.readStamp?_stamp`).
-/

namespace Montage

namespace Binary64

variable {x y : Binary64}

/-- A number or infinity without a sign. -/
def isUnsigned : Binary64 → Bool
  | nan => false
  | infinite negative => !negative
  | finite negative _ _ => !negative

theorem isUnsigned_cases (h : x.isUnsigned = true) :
    x = infinite false ∨ ∃ u, ∃ hu : Representable u, x = finite false u hu := by
  cases x with
  | nan => cases h
  | infinite s =>
    cases s with
    | false => exact .inl rfl
    | true => cases h
  | finite s u hu =>
    cases s with
    | false => exact .inr ⟨u, hu, rfl⟩
    | true => cases h

theorem isUnsigned_of_zero_lt (h : zero.lt x = true) : x.isUnsigned = true := by
  cases x with
  | nan => cases h
  | infinite s => cases s <;> first | rfl | cases h
  | finite s a _ => cases s <;> first | rfl | cases h

theorem isUnsigned_max_zero (x : Binary64) : (max zero x).isUnsigned = true := by
  rw [max]
  split
  · rename_i h
    exact isUnsigned_of_zero_lt h
  · rfl

theorem max_zero_of_isUnsigned (h : x.isUnsigned = true) : max zero x = x := by
  obtain rfl | ⟨u, hu, rfl⟩ := isUnsigned_cases h
  · rfl
  · exact max_zero hu

theorem isUnsigned_min (hx : x.isUnsigned = true) (hy : y.isUnsigned = true) :
    (min x y).isUnsigned = true := by
  rw [min]
  split
  · exact hy
  · exact hx

theorem zero_lt_sub (hy : zero.le y = true) (hyx : y.lt x = true) : zero.lt (x - y) = true := by
  have hfinite := isFinite_of_lt hy hyx
  cases x with
  | nan =>
    rw [lt_nan] at hyx
    cases hyx
  | infinite s =>
    have hsub : infinite s - y = infinite s := by
      cases y with
      | finite => rfl
      | _ => cases hfinite
    cases s with
    | false => rw [hsub]; rfl
    | true =>
      cases y with
      | finite => cases hyx
      | _ => cases hfinite
  | finite s a ha =>
    obtain ⟨u, hu, hpos, hsub⟩ := exists_sub_eq hy hyx rfl
    rw [hsub]
    exact decide_eq_true hpos

end Binary64

namespace Timecode

open Binary64

variable {u v : Nat} {hu : Representable u} {hv : Representable v}

/-! ### Counts of milliseconds -/

/-- The whole milliseconds of a time: the number nearest to its product with 1000 as that is written in
digits, the larger one on a tie. Up to a bound, this is off by one half and by the rounding of the
product. -/
structure IsMilliseconds (x : Binary64) (n : Nat) : Prop where
  half_up : ∃ r, ratio? (x * .ofInt 1000) = some r ∧ (n : ℚ) - 1 / 2 ≤ r.value ∧ r.value < n + 1 / 2
  close : x.toRat < 10 ^ 9 → |(n : ℚ) - 1000 * x.toRat| ≤ 1 / 2 + 1000 * x.toRat / 2 ^ 53

theorem isOk_milliseconds (x : Binary64) : (milliseconds x).isOk = (x * .ofInt 1000).isFinite := by
  rw [← isSome_ratio?, milliseconds, round]
  cases ratio? (x * .ofInt 1000) <;> rfl

theorem mul_thousand_of_isFinite (h : (finite false u hu * .ofInt 1000).isFinite = true) :
    ∃ hw : Representable (nearest (1000 * u)),
      finite false u hu * .ofInt 1000 = finite false (nearest (1000 * u)) hw := by
  rw [mul_thousand hu] at h ⊢
  unfold ofUnits at h ⊢
  split at h
  · rename_i hw
    exact ⟨hw, dif_pos hw⟩
  · cases h

/-- What the count of a time is, from the digits of its product with 1000. -/
theorem round_eq_ok_finite {w : Nat} {hw : Representable w} {d : Int}
    (h : round (finite false w hw) = .ok d) :
    ∃ n : Nat, d = n ∧ (n : ℚ) - 1 / 2 ≤ shortestValue w ∧ shortestValue w < n + 1 / 2 := by
  obtain ⟨r, hr, hlow, hhigh⟩ := round_eq_ok h
  obtain ⟨r', hr', hvalue⟩ := ratio?_finite false hw
  obtain rfl := Option.some.inj (hr.symm.trans hr')
  rw [hvalue, if_neg nofun, one_mul] at hlow hhigh
  have hnonneg : 0 ≤ d := by
    have hpos : (0 : ℚ) < d + 1 := by linarith [shortestValue_nonneg w]
    have hpos : 0 < d + 1 := by exact_mod_cast hpos
    omega
  lift d to Nat using hnonneg
  exact ⟨d, rfl, hlow, hhigh⟩

theorem milliseconds_finite {d : Int} (h : milliseconds (finite false u hu) = .ok d) :
    ∃ n : Nat, d = n ∧ IsMilliseconds (finite false u hu) n := by
  have hfinite : (finite false u hu * .ofInt 1000).isFinite = true := by
    rw [← isOk_milliseconds, h]
    rfl
  have hvalue : (finite false u hu).toRat = u / one := by
    rw [toRat_of_units (m := u) rfl, Int.cast_natCast]
  obtain ⟨r, hr, hlow, hhigh⟩ := round_eq_ok h
  obtain ⟨n, rfl, -⟩ : ∃ n : Nat, d = n ∧ _ := by
    obtain ⟨hw, hproduct⟩ := mul_thousand_of_isFinite hfinite
    rw [milliseconds, hproduct] at h
    exact round_eq_ok_finite h
  rw [Int.cast_natCast] at hlow hhigh
  refine ⟨n, rfl, ⟨r, hr, hlow, hhigh⟩, fun hlimit => ?_⟩
  rw [hvalue] at hlimit ⊢
  refine milliseconds_close hu ?_ h
  rw [div_lt_iff₀ (Nat.cast_pos.2 Binary64.one_pos)] at hlimit
  exact_mod_cast hlimit

theorem isFinite_mul_thousand_mono (huv : u ≤ v)
    (h : (finite false v hv * .ofInt 1000).isFinite = true) :
    (finite false u hu * .ofInt 1000).isFinite = true := by
  obtain ⟨hw, -⟩ := mul_thousand_of_isFinite h
  have hlimit := Nat.lt_of_le_of_lt (nearest_mono (Nat.mul_le_mul_left 1000 huv)) hw.1
  rw [mul_thousand hu, ofUnits_of_representable false (representable_nearest hlimit)]
  rfl

theorem round_mono_finite {d d' : Int} (huv : u ≤ v) (h : round (finite false u hu) = .ok d)
    (h' : round (finite false v hv) = .ok d') : d ≤ d' := by
  obtain ⟨n, rfl, hlow, -⟩ := round_eq_ok_finite h
  obtain ⟨n', rfl, -, hhigh⟩ := round_eq_ok_finite h'
  have hdigits := shortestValue_mono hu hv huv
  have hlt : (n : ℚ) < n' + 1 := by linarith
  have hlt : n < n' + 1 := by exact_mod_cast hlt
  omega

/-- Later times have no smaller counts. -/
theorem milliseconds_mono_finite {d d' : Int} (huv : u ≤ v)
    (h : milliseconds (finite false u hu) = .ok d)
    (h' : milliseconds (finite false v hv) = .ok d') : d ≤ d' := by
  have hfinite : (finite false u hu * .ofInt 1000).isFinite = true := by
    rw [← isOk_milliseconds, h]
    rfl
  have hfinite' : (finite false v hv * .ofInt 1000).isFinite = true := by
    rw [← isOk_milliseconds, h']
    rfl
  obtain ⟨hw, hproduct⟩ := mul_thousand_of_isFinite hfinite
  obtain ⟨hw', hproduct'⟩ := mul_thousand_of_isFinite hfinite'
  rw [milliseconds, hproduct] at h
  rw [milliseconds, hproduct'] at h'
  exact round_mono_finite (nearest_mono (Nat.mul_le_mul_left 1000 huv)) h h'

variable {x y : Binary64}

theorem eq_finite_of_isUnsigned (hx : x.isUnsigned = true) (h : (x * .ofInt 1000).isFinite = true) :
    ∃ u, ∃ hu : Representable u, x = finite false u hu := by
  obtain rfl | hfinite := isUnsigned_cases hx
  · have hproduct : (infinite false * .ofInt 1000).isFinite = false := by decide +kernel
    rw [hproduct] at h
    cases h
  · exact hfinite

theorem exists_milliseconds (hx : x.isUnsigned = true) (h : (x * .ofInt 1000).isFinite = true) :
    ∃ n : Nat, milliseconds x = .ok n ∧ IsMilliseconds x n := by
  obtain ⟨u, hu, rfl⟩ := eq_finite_of_isUnsigned hx h
  rw [← isOk_milliseconds, Outcome.isOk_iff] at h
  obtain ⟨d, hd⟩ := h
  obtain ⟨n, rfl, hn⟩ := milliseconds_finite hd
  exact ⟨n, hd, hn⟩

theorem isFinite_of_milliseconds {d : Int} (h : milliseconds x = .ok d) :
    (x * .ofInt 1000).isFinite = true := by
  rw [← isOk_milliseconds, h]
  rfl

theorem eq_finite_of_le {v : Nat} {hv : Representable v} (hx : x.isUnsigned = true)
    (hxy : x.le (finite false v hv) = true) :
    ∃ u, ∃ hu : Representable u, x = finite false u hu ∧ u ≤ v := by
  obtain rfl | ⟨u, hu, rfl⟩ := isUnsigned_cases hx
  · cases hxy
  · have hle : (u : Int) ≤ v := (le_iff_units rfl rfl).1 hxy
    exact ⟨u, hu, rfl, Int.ofNat_le.1 hle⟩

/-- Where a later time has a count, so has an earlier one, and no larger one. -/
theorem milliseconds_mono (hx : x.isUnsigned = true) (hy : y.isUnsigned = true) (hxy : x.le y = true)
    (h : (y * .ofInt 1000).isFinite = true) :
    ∃ m n : Nat, milliseconds x = .ok m ∧ milliseconds y = .ok n ∧ m ≤ n := by
  obtain ⟨n, hn, -⟩ := exists_milliseconds hy h
  obtain ⟨v, hv, rfl⟩ := eq_finite_of_isUnsigned hy h
  obtain ⟨u, hu, rfl, huv⟩ := eq_finite_of_le hx hxy
  obtain ⟨m, hm, -⟩ := exists_milliseconds hx (isFinite_mul_thousand_mono huv h)
  exact ⟨m, n, hm, hn, Int.ofNat_le.1 (milliseconds_mono_finite huv hm hn)⟩

/-! ### The text of a count -/

/-- Hours, minutes, seconds and thousandths of a count of milliseconds. -/
def stamp (n : Nat) : String :=
  twoDigits (n / 3600000) ++ ":" ++ twoDigits (n % 3600000 / 60000) ++ ":" ++
    twoDigits (n % 60000 / 1000) ++ "," ++ .ofList (Text.decimalPadded 3 (n % 1000))

theorem subtitleText_eq (x : Binary64) :
    subtitleText x = (milliseconds (.max .zero x)).map fun n => stamp n.toNat := by
  rw [subtitleText]
  cases milliseconds (.max .zero x) <;> rfl

theorem isOk_subtitleText (x : Binary64) :
    (subtitleText x).isOk = (max zero x * .ofInt 1000).isFinite := by
  rw [subtitleText_eq, ← isOk_milliseconds]
  cases milliseconds (max zero x) <;> rfl

/-- The number in a field of so many digits. -/
def readField? (width : Nat) (cs : List Char) : Option Nat :=
  if cs.length = width && cs.all Char.isDigit then some (Scientific.digitsValue cs) else none

/-- Reads at least two digits for hours, two for minutes and for seconds, which are below sixty, and
three for thousandths. -/
def readStamp? (cs : List Char) : Option Nat := do
  let [hours, minutes, rest] := Text.splitOn ':' cs | none
  let [seconds, thousandths] := Text.splitOn ',' rest | none
  let h ← readField? (max 2 hours.length) hours
  let m ← readField? 2 minutes
  let s ← readField? 2 seconds
  let t ← readField? 3 thousandths
  if m < 60 && s < 60 then some (((h * 60 + m) * 60 + s) * 1000 + t) else none

theorem isDigit_decimalPadded (width n : Nat) : IsDigits (Text.decimalPadded width n) :=
  (IsDigits.zeros _).append (IsDigits.decimal n)

theorem length_decimalPadded (width n : Nat) :
    (Text.decimalPadded width n).length = max width (Text.decimal n).length := by
  rw [Text.decimalPadded, Text.padLeft, List.length_append, List.length_replicate]
  omega

theorem length_decimalPadded_of_lt {width n : Nat} (hwidth : 0 < width) (h : n < 10 ^ width) :
    (Text.decimalPadded width n).length = width := by
  have hlength := (length_decimal_le hwidth).2 h
  rw [length_decimalPadded]
  omega

theorem readField?_decimalPadded (width n : Nat) :
    readField? (Text.decimalPadded width n).length (Text.decimalPadded width n) = some n := by
  rw [readField?, List.all_eq_true.2 (isDigit_decimalPadded _ _),
    Scientific.digitsValue_decimalPadded]
  simp

theorem readField?_of_lt {width n : Nat} (hwidth : 0 < width) (h : n < 10 ^ width) :
    readField? width (Text.decimalPadded width n) = some n := by
  have hread := readField?_decimalPadded width n
  rwa [length_decimalPadded_of_lt hwidth h] at hread

theorem not_mem_of_isDigits {c : Char} {cs : List Char} (hc : c.isDigit = false) (h : IsDigits cs) :
    c ∉ cs := fun hmem => by simp [h c hmem] at hc

theorem toList_stamp (n : Nat) : (stamp n).toList =
    Text.decimalPadded 2 (n / 3600000) ++ ':' :: (Text.decimalPadded 2 (n % 3600000 / 60000) ++
      ':' :: (Text.decimalPadded 2 (n % 60000 / 1000) ++ ',' :: Text.decimalPadded 3 (n % 1000))) := by
  have hcolon : ":".toList = [':'] := rfl
  have hcomma : ",".toList = [','] := rfl
  simp [stamp, twoDigits, String.toList_append, hcolon, hcomma]

theorem splitOn_stamp (n : Nat) : Text.splitOn ':' (stamp n).toList =
    [Text.decimalPadded 2 (n / 3600000), Text.decimalPadded 2 (n % 3600000 / 60000),
      Text.decimalPadded 2 (n % 60000 / 1000) ++ ',' :: Text.decimalPadded 3 (n % 1000)] := by
  have hcolon (width k : Nat) : ':' ∉ Text.decimalPadded width k :=
    not_mem_of_isDigits rfl (isDigit_decimalPadded width k)
  rw [toList_stamp, Text.splitOn_eq, List.splitOn_append_cons_self_of_not_mem (hcolon _ _),
    List.splitOn_append_cons_self_of_not_mem (hcolon _ _), List.splitOn_eq_singleton]
  simp [hcolon]

/-- A count is read back from its text. -/
theorem readStamp?_stamp (n : Nat) : readStamp? (stamp n).toList = some n := by
  have hcomma (width k : Nat) : ',' ∉ Text.decimalPadded width k :=
    not_mem_of_isDigits rfl (isDigit_decimalPadded width k)
  have hrest : Text.splitOn ','
      (Text.decimalPadded 2 (n % 60000 / 1000) ++ ',' :: Text.decimalPadded 3 (n % 1000)) =
        [Text.decimalPadded 2 (n % 60000 / 1000), Text.decimalPadded 3 (n % 1000)] := by
    rw [Text.splitOn_eq, List.splitOn_append_cons_self_of_not_mem (hcomma _ _),
      List.splitOn_eq_singleton (hcomma _ _)]
  have hhours : readField? (max 2 (Text.decimalPadded 2 (n / 3600000)).length)
      (Text.decimalPadded 2 (n / 3600000)) = some (n / 3600000) := by
    have hwide : 2 ≤ (Text.decimalPadded 2 (n / 3600000)).length := by
      rw [length_decimalPadded]
      exact Nat.le_max_left _ _
    rw [max_eq_right hwide, readField?_decimalPadded]
  have hminutes := readField?_of_lt (n := n % 3600000 / 60000) (by decide : 0 < 2) (by omega)
  have hseconds := readField?_of_lt (n := n % 60000 / 1000) (by decide : 0 < 2) (by omega)
  have hthousandths := readField?_of_lt (n := n % 1000) (by decide : 0 < 3) (by omega)
  have hbelow : n % 3600000 / 60000 < 60 ∧ n % 60000 / 1000 < 60 := by omega
  have hsum : ((n / 3600000 * 60 + n % 3600000 / 60000) * 60 + n % 60000 / 1000) * 1000 +
      n % 1000 = n := by omega
  simp [readStamp?, splitOn_stamp, hrest, hhours, hminutes, hseconds, hthousandths, hbelow, hsum]

end Timecode

end Montage
