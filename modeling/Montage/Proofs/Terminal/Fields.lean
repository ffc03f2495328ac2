import Montage.Proofs.Number.Multiple
import Montage.Proofs.Number.Places
import Montage.Terminal.Duration

/-!
# The fields of a span

The text of a span is read back as hours, minutes and tenths of a second (`Terminal.readFields?`), from
seconds that stand alone (`Terminal.readFields?_fixed`) and from a number of minutes with a rest
(`Terminal.readFields?_minutes`).
-/

namespace Montage

open Binary64

namespace Terminal

variable {m w : Nat} {hw : Representable w} {q : ℚ} {s : String}

/-! ### Reading -/

/-- What the text of a span shows. Fields that it leaves out are zero. -/
structure Fields where
  hours : Nat
  minutes : Nat
  tenths : Nat
  deriving DecidableEq

/-- The fields in seconds. -/
def Fields.total (f : Fields) : ℚ := f.hours * 3600 + f.minutes * 60 + f.tenths / 10

/-- The characters before a unit. -/
def dropUnit? (unit : Char) (cs : List Char) : Option (List Char) :=
  if cs.getLast? = some unit then some cs.dropLast else none

/-- Seconds with one decimal place, in tenths, with at least so many digits before the point. -/
def readTenths? (width : Nat) (cs : List Char) : Option Nat := do
  let [whole, tenth] := Text.splitOn '.' (← dropUnit? 's' cs) | none
  let n ← Timecode.readField? (max width whole.length) whole
  let t ← Timecode.readField? 1 tenth
  return n * 10 + t

/-- Reads seconds, or minutes and seconds of two digits, or hours with minutes and seconds of two digits.
Zero may have a sign where it stands alone. -/
def readFields? (cs : List Char) : Option Fields :=
  match Text.splitOn ' ' cs with
  | [seconds] => do
    let (negative, seconds) := Scientific.takeSign seconds
    let t ← readTenths? 1 seconds
    if negative && 0 < t then none else some ⟨0, 0, t⟩
  | [minutes, seconds] => do
    let minutes ← dropUnit? 'm' minutes
    let m ← Timecode.readField? (max 1 minutes.length) minutes
    let t ← readTenths? 2 seconds
    return ⟨0, m, t⟩
  | [hours, minutes, seconds] => do
    let hours ← dropUnit? 'h' hours
    let h ← Timecode.readField? (max 1 hours.length) hours
    let m ← Timecode.readField? 2 (← dropUnit? 'm' minutes)
    let t ← readTenths? 2 seconds
    return ⟨h, m, t⟩
  | _ => none

/-- Minutes and seconds below sixty, and in sum a number of seconds up to half a tenth. -/
structure Fields.AreOf (f : Fields) (q : ℚ) : Prop where
  minutes : f.minutes < 60
  seconds : f.tenths < 600
  close : |f.total - q| ≤ 1 / 20

/-- A text whose fields are those of a number of seconds. -/
def Tells (s : String) (q : ℚ) : Prop := ∃ f, readFields? s.toList = some f ∧ f.AreOf q

theorem dropUnit?_concat (unit : Char) (cs : List Char) : dropUnit? unit (cs ++ [unit]) = some cs := by
  rw [dropUnit?, List.getLast?_concat, if_pos rfl, List.dropLast_concat]

theorem readField?_digits {cs : List Char} {width : Nat} (hdigits : IsDigits cs)
    (hwidth : width ≤ cs.length) :
    Timecode.readField? (max width cs.length) cs = some (Scientific.digitsValue cs) := by
  rw [Timecode.readField?, max_eq_right hwidth, List.all_eq_true.2 hdigits]
  simp

/-! ### Seconds -/

/-- A magnitude in tenths of one, a tie to the even one. -/
def tenths (w : Nat) : Nat := Rounding.halfEven (w * 10) one

theorem tenths_close (w : Nat) : |(tenths w : ℚ) / 10 - w / one| ≤ 1 / 20 := by
  obtain ⟨habove, hbelow⟩ := Rounding.halfEven_close (n := w * 10) Binary64.one_pos
  have habove : 2 * (tenths w * one) ≤ one + 2 * (w * 10) := by
    rw [tenths]
    omega
  have hbelow : 2 * (w * 10) ≤ one + 2 * (tenths w * one) := by
    rw [tenths]
    omega
  have habove : 2 * ((tenths w : ℚ) * one) ≤ one + 2 * (w * 10) := by exact_mod_cast habove
  have hbelow : 2 * ((w : ℚ) * 10) ≤ one + 2 * (tenths w * one) := by exact_mod_cast hbelow
  rw [abs_le]
  constructor
  · have hle : (w : ℚ) / one ≤ tenths w / 10 + 1 / 20 := by
      rw [div_le_iff₀ one_cast_pos]
      linarith
    linarith
  · have hle : (tenths w : ℚ) / 10 - 1 / 20 ≤ w / one := by
      rw [le_div_iff₀ one_cast_pos]
      linarith
    linarith

/-- Seconds are rounded to sixty from 59.95 on, which no number of the format is. -/
theorem tenths_lt_iff (w : Nat) : tenths w < 600 ↔ (w : ℚ) / one < 1199 / 20 := by
  have hclose := abs_le.1 (tenths_close w)
  constructor
  · intro hlt
    have hle : (tenths w : ℚ) ≤ 599 := by exact_mod_cast Nat.le_of_lt_succ hlt
    have hmost : (w : ℚ) / one ≤ 1199 / 20 := by linarith
    refine lt_of_le_of_ne hmost fun heq => ?_
    rw [div_eq_iff one_cast_ne_zero] at heq
    have hunits : (20 * w : ℚ) = 1199 * one := by linarith
    have hunits : 20 * w = 1199 * one := by exact_mod_cast hunits
    have hrest : 1199 * one % 5 ≠ 0 := by decide +kernel
    omega
  · intro hlt
    have hbelow : (tenths w : ℚ) < 600 := by linarith
    exact_mod_cast hbelow

theorem lt_of_tenths_lt (h : tenths w < 600) : w < 2 ^ 52 * one := by
  have hlt := ((tenths_lt_iff w).1 h).trans (by norm_num : (1199 / 20 : ℚ) < 2 ^ 52)
  rw [div_lt_iff₀ one_cast_pos] at hlt
  exact_mod_cast hlt

theorem tenths_natCast (k : Nat) : tenths (k * one) = k * 10 := by
  rw [tenths, Nat.mul_right_comm, Rounding.halfEven_mul Binary64.one_pos]

/-- The digits around the point of a number with one decimal place. -/
structure HasDigits (w : Nat) (whole tenth : List Char) : Prop where
  whole_digits : IsDigits whole
  whole_nonempty : whole ≠ []
  tenth_digits : IsDigits tenth
  tenth_length : tenth.length = 1
  value : Scientific.digitsValue (whole ++ tenth) = tenths w

theorem exists_hasDigits (w : Nat) : ∃ whole tenth, HasDigits w whole tenth ∧
    ∀ (negative : Bool) (hw : Representable w),
      ((finite negative w hw).fixed 1).toList = signText negative ++ (whole ++ '.' :: tenth) := by
  have hdigits := Timecode.isDigit_decimalPadded 2 (tenths w)
  have hvalue := Scientific.digitsValue_decimalPadded 2 (tenths w)
  have hlength : 2 ≤ (Text.decimalPadded 2 (tenths w)).length := by
    rw [Timecode.length_decimalPadded]
    exact Nat.le_max_left _ _
  have htext (negative : Bool) (hw : Representable w) :
      let digits := Text.decimalPadded 2 (tenths w)
      (finite negative w hw).fixed 1 = .ofList (signText negative ++
        (digits.take (digits.length - 1) ++ '.' :: digits.drop (digits.length - 1))) :=
    fixed_finite one_ne_zero negative hw
  generalize Text.decimalPadded 2 (tenths w) = digits at *
  refine ⟨digits.take (digits.length - 1), digits.drop (digits.length - 1), ⟨?_, ?_, ?_, ?_, ?_⟩, ?_⟩
  · exact fun c hc => hdigits c (List.mem_of_mem_take hc)
  · rw [← List.length_pos_iff, List.length_take]
    omega
  · exact fun c hc => hdigits c (List.mem_of_mem_drop hc)
  · rw [List.length_drop]
    omega
  · rw [List.take_append_drop, hvalue]
  · intro negative hw
    rw [htext, String.toList_ofList]

/-- A row of digits, a point and one more digit. -/
theorem readTenths?_digits {whole tenth : List Char} {width : Nat} (h : HasDigits w whole tenth)
    (hwidth : width ≤ whole.length) :
    readTenths? width (whole ++ '.' :: tenth ++ ['s']) = some (tenths w) := by
  have hpoint {cs : List Char} (hcs : IsDigits cs) : '.' ∉ cs := Timecode.not_mem_of_isDigits rfl hcs
  have hsplit : Text.splitOn '.' (whole ++ '.' :: tenth) = [whole, tenth] := by
    rw [Text.splitOn_eq, List.splitOn_append_cons_self_of_not_mem (hpoint h.whole_digits),
      List.splitOn_eq_singleton (hpoint h.tenth_digits)]
  have htenth := readField?_digits h.tenth_digits h.tenth_length.ge
  rw [h.tenth_length, max_self] at htenth
  have hvalue := h.value
  rw [Scientific.digitsValue_append, h.tenth_length, Nat.pow_one] at hvalue
  rw [readTenths?, dropUnit?_concat]
  simp [hsplit, readField?_digits h.whole_digits hwidth, htenth, hvalue]

/-- Seconds that stand alone. -/
theorem readFields?_fixed {negative : Bool} (h : negative = true → tenths w = 0) :
    readFields? ((finite negative w hw).fixed 1 ++ "s").toList = some ⟨0, 0, tenths w⟩ := by
  obtain ⟨whole, tenth, hdigits, htext⟩ := exists_hasDigits w
  have hunit : ((finite negative w hw).fixed 1 ++ "s").toList =
      signText negative ++ (whole ++ '.' :: tenth ++ ['s']) := by
    rw [String.toList_append, htext, List.append_assoc]
    rfl
  have hblank : ' ' ∉ signText negative ++ (whole ++ '.' :: tenth ++ ['s']) := by
    have hwhole := Timecode.not_mem_of_isDigits (c := ' ') rfl hdigits.whole_digits
    have htenth := Timecode.not_mem_of_isDigits (c := ' ') rfl hdigits.tenth_digits
    cases negative <;> simp [signText, hwhole, htenth]
  have hsign : Scientific.takeSign (signText negative ++ (whole ++ '.' :: tenth ++ ['s'])) =
      (negative, whole ++ '.' :: tenth ++ ['s']) := by
    rw [List.append_assoc]
    exact Scientific.takeSign_signText negative hdigits.whole_digits hdigits.whole_nonempty
  have hread : readTenths? 1 (whole ++ '.' :: tenth ++ ['s']) = some (tenths w) :=
    readTenths?_digits hdigits (List.length_pos_iff.2 hdigits.whole_nonempty)
  have hzero : (negative && decide (0 < tenths w)) = false := by
    cases negative with
    | false => rfl
    | true => simp [h rfl]
  rw [readFields?, hunit, Text.splitOn_eq, List.splitOn_eq_singleton hblank]
  simp only [hsign, hread, Option.bind_eq_bind, Option.bind_some, hzero, Bool.false_eq_true, if_false]

/-! ### Minutes -/

theorem toList_minutesText (m : Nat) (rest : Binary64) :
    (minutesText m rest).toList =
      if m < 60 then Text.decimal m ++ ['m'] ++ ' ' :: ((paddedSeconds rest).toList ++ ['s'])
      else Text.decimal (m / 60) ++ ['h'] ++ ' ' :: (Text.decimalPadded 2 (m % 60) ++ ['m'] ++
        ' ' :: ((paddedSeconds rest).toList ++ ['s'])) := by
  have hminutes : "m ".toList = ['m', ' '] := rfl
  have hhours : "h ".toList = ['h', ' '] := rfl
  have hseconds : "s".toList = ['s'] := rfl
  have htext (t : String) : toString t = t := rfl
  rw [minutesText]
  split <;> simp [Text.decimal, htext, hminutes, hhours, hseconds]

theorem readFields?_minutesText (m : Nat) {rest : Binary64} (h : ' ' ∉ (paddedSeconds rest).toList) :
    readFields? (minutesText m rest).toList =
      (readTenths? 2 ((paddedSeconds rest).toList ++ ['s'])).map (Fields.mk (m / 60) (m % 60)) := by
  have hdigits {cs : List Char} (hcs : IsDigits cs) {unit : Char} (hunit : unit ≠ ' ') :
      ' ' ∉ cs ++ [unit] := by
    have hblank := Timecode.not_mem_of_isDigits (c := ' ') rfl hcs
    simp [hblank, hunit.symm]
  have hdecimal (k : Nat) {unit : Char} (hunit : unit ≠ ' ') := hdigits (.decimal k) hunit
  have hpadded := hdigits (Timecode.isDigit_decimalPadded 2 (m % 60)) (by decide : 'm' ≠ ' ')
  have hseconds : ' ' ∉ (paddedSeconds rest).toList ++ ['s'] := by simp [h]
  have htwo := Timecode.readField?_of_lt (n := m % 60) (by decide : 0 < 2) (by omega)
  rw [readFields?, toList_minutesText, Text.splitOn_eq]
  split_ifs with hm
  · have hfields : m / 60 = 0 ∧ m % 60 = m := by omega
    rw [List.splitOn_append_cons_self_of_not_mem (hdecimal m (by decide)), List.splitOn_eq_singleton hseconds]
    simp [dropUnit?_concat, Timecode.readField?_decimal, hfields, Option.map_eq_bind]
  · rw [List.splitOn_append_cons_self_of_not_mem (hdecimal (m / 60) (by decide)),
      List.splitOn_append_cons_self_of_not_mem hpadded, List.splitOn_eq_singleton hseconds]
    simp [dropUnit?_concat, Timecode.readField?_decimal, htwo, Option.map_eq_bind]

theorem exists_paddedSeconds (w : Nat) : ∃ whole tenth, HasDigits w whole tenth ∧ 2 ≤ whole.length ∧
    ∀ hw : Representable w, (paddedSeconds (finite false w hw)).toList = whole ++ '.' :: tenth := by
  obtain ⟨whole, tenth, hdigits, htext⟩ := exists_hasDigits w
  have hlength := List.length_pos_iff.2 hdigits.whole_nonempty
  have htenth := hdigits.tenth_length
  refine ⟨List.replicate (4 - (whole ++ '.' :: tenth).length) '0' ++ whole, tenth,
    ⟨?_, ?_, ?_, ?_, ?_⟩, ?_, ?_⟩
  · exact (IsDigits.zeros _).append hdigits.whole_digits
  · exact List.append_ne_nil_of_right_ne_nil _ hdigits.whole_nonempty
  · exact hdigits.tenth_digits
  · exact htenth
  · rw [List.append_assoc, Scientific.digitsValue_append, Scientific.digitsValue_zeros, hdigits.value,
      Nat.zero_mul, Nat.zero_add]
  · simp only [List.length_append, List.length_replicate, List.length_cons]
    omega
  · intro hw
    rw [paddedSeconds, String.toList_ofList, Text.padLeft, htext]
    simp [signText]

theorem readFields?_minutes (m : Nat) (hw : Representable w) :
    readFields? (minutesText m (finite false w hw)).toList = some ⟨m / 60, m % 60, tenths w⟩ := by
  obtain ⟨whole, tenth, hdigits, hlength, htext⟩ := exists_paddedSeconds w
  have hblank : ' ' ∉ (paddedSeconds (finite false w hw)).toList := by
    have hwhole := Timecode.not_mem_of_isDigits (c := ' ') rfl hdigits.whole_digits
    have htenth := Timecode.not_mem_of_isDigits (c := ' ') rfl hdigits.tenth_digits
    rw [htext]
    simp [hwhole, htenth]
  rw [readFields?_minutesText m hblank, htext, readTenths?_digits hdigits hlength, Option.map_some]

/-- Seconds below zero after minutes are not read. -/
theorem readFields?_minutes_negative (m : Nat) (hw : Representable w) :
    readFields? (minutesText m (finite true w hw)).toList = none := by
  obtain ⟨whole, tenth, hdigits, htext⟩ := exists_hasDigits w
  obtain ⟨zeros, hzeros, hpadded⟩ : ∃ zeros, IsDigits zeros ∧
      (paddedSeconds (finite true w hw)).toList = (zeros ++ '-' :: whole) ++ '.' :: tenth := by
    refine ⟨_, IsDigits.zeros (4 - ('-' :: (whole ++ '.' :: tenth)).length), ?_⟩
    rw [paddedSeconds, String.toList_ofList, Text.padLeft, htext]
    simp [signText]
  have hmem {c : Char} (hc : c.isDigit = false) (hsign : c ≠ '-') : c ∉ zeros ++ '-' :: whole := by
    have hleft := Timecode.not_mem_of_isDigits hc hzeros
    have hright := Timecode.not_mem_of_isDigits hc hdigits.whole_digits
    simp [hleft, hright, hsign]
  have htenth {c : Char} (hc : c.isDigit = false) := Timecode.not_mem_of_isDigits hc hdigits.tenth_digits
  have hblank : ' ' ∉ (paddedSeconds (finite true w hw)).toList := by
    rw [hpadded, List.mem_append, List.mem_cons]
    simp [hmem, htenth]
  have hsplit : Text.splitOn '.' ((zeros ++ '-' :: whole) ++ '.' :: tenth) =
      [zeros ++ '-' :: whole, tenth] := by
    rw [Text.splitOn_eq, List.splitOn_append_cons_self_of_not_mem (hmem rfl (by decide)),
      List.splitOn_eq_singleton (htenth rfl)]
  have hnone (width : Nat) : Timecode.readField? width (zeros ++ '-' :: whole) = none := by
    simp [Timecode.readField?]
  rw [readFields?_minutesText m hblank, hpadded, readTenths?, dropUnit?_concat, Option.bind_eq_bind,
    Option.bind_some, hsplit]
  simp only [hnone]
  rfl

end Terminal

end Montage
