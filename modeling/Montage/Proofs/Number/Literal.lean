import Mathlib.Data.Bool.AllAny
import Mathlib.Data.List.TakeWhile
import Mathlib.Tactic.IntervalCases
import Montage.Proofs.Number.HalfUp
import Montage.Proofs.Number.Shortest

/-!
# The text of a binary number

A finite number is written with its shortest digits, positional or with an exponent, and this text
reads back as the exact ratio that the digits stand for (`Timecode.ratio?_finite`). Nothing else has
a ratio (`Timecode.isSome_ratio?`).
-/

namespace Montage

/-- The characters of a number that is written in digits. -/
def numeralChars : List Char := "0123456789+-.e".toList

def IsNumeral (cs : List Char) : Prop := ∀ c ∈ cs, c ∈ numeralChars

def IsDigits (cs : List Char) : Prop := ∀ c ∈ cs, c.isDigit = true

namespace IsDigits

variable {xs ys : List Char}

theorem decimal (n : Nat) : IsDigits (Text.decimal n) :=
  fun _ hc => Nat.isDigit_of_mem_toDigits (by decide) (by decide) hc

theorem zeros (k : Nat) : IsDigits (List.replicate k '0') := by
  intro c hc
  rw [List.eq_of_mem_replicate hc]
  rfl

theorem append (hxs : IsDigits xs) (hys : IsDigits ys) : IsDigits (xs ++ ys) :=
  List.forall_mem_append.2 ⟨hxs, hys⟩

theorem isNumeral (h : IsDigits xs) : IsNumeral xs := by
  intro c hc
  obtain ⟨hlow, hhigh⟩ : 48 ≤ c.toNat ∧ c.toNat ≤ 57 := Char.isDigit_iff_toNat.1 (h c hc)
  rw [← Char.ofNat_toNat c]
  generalize c.toNat = code at hlow hhigh ⊢
  interval_cases code <;> decide

end IsDigits

theorem IsNumeral.append {xs ys : List Char} (hxs : IsNumeral xs) (hys : IsNumeral ys) :
    IsNumeral (xs ++ ys) :=
  List.forall_mem_append.2 ⟨hxs, hys⟩

/-! ### Digits -/

namespace Scientific

variable {xs ys : List Char}

theorem digitsValue_eq (cs : List Char) : digitsValue cs = Nat.ofDigitChars 10 cs 0 := by
  unfold digitsValue Nat.ofDigitChars
  congr 1
  funext n c
  rw [Nat.mul_comm]
  rfl

theorem digitsValue_append (xs ys : List Char) :
    digitsValue (xs ++ ys) = digitsValue xs * 10 ^ ys.length + digitsValue ys := by
  rw [digitsValue_eq, digitsValue_eq, digitsValue_eq, Nat.ofDigitChars_append,
    Nat.ofDigitChars_eq_ofDigitChars_zero, Nat.mul_comm]

theorem digitsValue_zeros (k : Nat) : digitsValue (List.replicate k '0') = 0 := by
  rw [digitsValue_eq, Nat.ofDigitChars_replicate_zero, Nat.mul_zero]

theorem digitsValue_decimal (n : Nat) : digitsValue (Text.decimal n) = n := by
  rw [digitsValue_eq]
  exact Nat.ofDigitChars_ten_toDigits

theorem digitsValue_decimalPadded (width n : Nat) : digitsValue (Text.decimalPadded width n) = n := by
  rw [Text.decimalPadded, Text.padLeft, digitsValue_append, digitsValue_zeros, digitsValue_decimal]
  omega

/-! ### Reading a literal -/

/-- The number that a literal stands for. -/
def value (x : Scientific) : ℚ := (if x.negative then -1 else 1) * x.coefficient * 10 ^ x.exponent

/-- The power of ten that ends a literal. -/
def exponentOf? : List Char → Option Int
  | [] => some 0
  | c :: rest => if c = 'e' || c = 'E' then readSigned? rest else none

theorem takeSign_signText (negative : Bool) {cs : List Char} (hdigits : IsDigits xs) (hne : xs ≠ []) :
    takeSign (Binary64.signText negative ++ (xs ++ cs)) = (negative, xs ++ cs) := by
  cases negative with
  | true => rfl
  | false =>
    obtain ⟨d, rest, rfl⟩ := List.exists_cons_of_ne_nil hne
    have hdigit := hdigits d (by simp)
    change takeSign (d :: (rest ++ cs)) = (false, d :: (rest ++ cs))
    unfold takeSign
    split
    · rename_i heq
      obtain ⟨rfl, -⟩ := List.cons.inj heq
      cases hdigit
    · rename_i heq
      obtain ⟨rfl, -⟩ := List.cons.inj heq
      cases hdigit
    · rfl

theorem takeWhile_digits (cs : List Char) (hdigits : IsDigits xs)
    (hcs : ∀ c ∈ cs.head?, c.isDigit = false) :
    (xs ++ cs).takeWhile Char.isDigit = xs ∧ (xs ++ cs).dropWhile Char.isDigit = cs := by
  have hstop : cs.takeWhile Char.isDigit = [] ∧ cs.dropWhile Char.isDigit = cs := by
    cases cs with
    | nil => exact ⟨rfl, rfl⟩
    | cons c rest => simp [hcs c rfl]
  constructor
  · rw [List.takeWhile_append_of_pos hdigits, hstop.1, List.append_nil]
  · rw [List.dropWhile_append_of_pos hdigits, hstop.2]

theorem exponentOf?_eq_some {rest : List Char} {e : Int} (h : exponentOf? rest = some e) :
    rest = [] ∨ ∃ digits, rest = 'e' :: digits ∨ rest = 'E' :: digits := by
  cases rest with
  | nil => exact .inl rfl
  | cons c digits =>
    by_cases hletter : c = 'e' ∨ c = 'E'
    · exact .inr ⟨digits, by simpa using hletter⟩
    · simp [exponentOf?, hletter] at h

theorem not_isDigit_of_exponentOf? {rest : List Char} {e : Int} (h : exponentOf? rest = some e) :
    ∀ c ∈ rest.head?, c.isDigit = false := by
  rcases exponentOf?_eq_some h with rfl | ⟨digits, rfl | rfl⟩
  · exact nofun
  · rintro c ⟨⟩
    rfl
  · rintro c ⟨⟩
    rfl

/-- Digits without a point. -/
theorem read?_whole (negative : Bool) {rest : List Char} {e : Int} (hxs : IsDigits xs)
    (hne : xs ≠ []) (hrest : exponentOf? rest = some e) :
    read? (Binary64.signText negative ++ (xs ++ rest)) = some ⟨negative, digitsValue xs, e⟩ := by
  obtain ⟨htake, hdrop⟩ := takeWhile_digits rest hxs (not_isDigit_of_exponentOf? hrest)
  simp only [read?, takeSign_signText negative hxs hne, htake, hdrop]
  -- What follows the digits is no point, whichever of the three forms it has.
  rcases exponentOf?_eq_some hrest with rfl | ⟨digits, rfl | rfl⟩ <;>
    simp_all [exponentOf?]

/-- Digits around a point. -/
theorem read?_point (negative : Bool) (xs ys rest : List Char) {e : Int} (hxs : IsDigits xs)
    (hne : xs ≠ []) (hys : IsDigits ys) (hrest : exponentOf? rest = some e) :
    read? (Binary64.signText negative ++ (xs ++ '.' :: (ys ++ rest))) =
      some ⟨negative, digitsValue (xs ++ ys), e - ys.length⟩ := by
  obtain ⟨htake, hdrop⟩ := takeWhile_digits ('.' :: (ys ++ rest)) hxs (by rintro c ⟨⟩; rfl)
  obtain ⟨htakeMore, hdropMore⟩ := takeWhile_digits rest hys (not_isDigit_of_exponentOf? hrest)
  simp only [read?, takeSign_signText negative hxs hne, htake, hdrop, htakeMore, hdropMore]
  rw [if_neg (by simp [hne])]
  change (exponentOf? rest).map _ = _
  simp [hrest]

theorem exponentOf?_text (e : Int) :
    exponentOf? ('e' :: (if e < 0 then '-' else '+') :: Text.decimalPadded 2 e.natAbs) = some e := by
  have hdigits : IsDigits (Text.decimalPadded 2 e.natAbs) := (IsDigits.zeros _).append (.decimal _)
  have hne : Text.decimalPadded 2 e.natAbs ≠ [] := by
    have hlength := Binary64.length_decimal_pos e.natAbs
    simp [Text.decimalPadded, Text.padLeft, ← List.length_pos_iff, hlength]
  have hall : (Text.decimalPadded 2 e.natAbs).all Char.isDigit = true := List.all_eq_true.2 hdigits
  change readSigned? _ = some e
  by_cases hnegative : e < 0
  · have hvalue : -(e.natAbs : Int) = e := by omega
    simp only [if_pos hnegative, readSigned?, takeSign, hall, digitsValue_decimalPadded, hvalue]
    simp [hne]
  · have hvalue : (e.natAbs : Int) = e := by omega
    simp only [if_neg hnegative, readSigned?, takeSign, hall, digitsValue_decimalPadded, hvalue]
    simp [hne]

end Scientific

/-! ### Literals as ratios -/

namespace Ratio

theorem value_ofScientific (x : Scientific) : (ofScientific x).value = x.value := by
  obtain ⟨negative, coefficient, exponent⟩ := x
  by_cases hexponent : 0 ≤ exponent
  · obtain ⟨k, rfl⟩ := Int.eq_ofNat_of_zero_le hexponent
    cases negative <;> simp [ofScientific, value, Scientific.value]
  · obtain ⟨k, rfl⟩ : ∃ k : Nat, exponent = -k := ⟨(-exponent).toNat, by omega⟩
    have hpos : k ≠ 0 := by omega
    cases negative <;> simp [ofScientific, value, Scientific.value, hpos, div_eq_mul_inv]

theorem trim_eq {p : Char → Bool} {cs : List Char} (h : ∀ c ∈ cs, p c = false) :
    Text.trim p cs = cs := by
  have hdrop : ∀ cs : List Char, (∀ c ∈ cs, p c = false) → cs.dropWhile p = cs := by
    intro cs hcs
    cases cs with
    | nil => rfl
    | cons c rest => rw [List.dropWhile_cons_of_neg (by simp [hcs c])]
  rw [Text.trim, hdrop cs h, Text.dropWhileRight, hdrop _ (by simpa using h), List.reverse_reverse]

/-- The characters of a number are neither blanks nor digits of another script. -/
theorem plain_of_isNumeral {cs : List Char} (h : IsNumeral cs) :
    (Text.trim Text.isBlank cs).map Scientific.plainDigit = cs := by
  have hblank : ∀ c ∈ numeralChars, Text.isBlank c = false :=
    List.all_iff_forall_prop.1 (by decide)
  have hplain : ∀ c ∈ numeralChars, Scientific.plainDigit c = c :=
    List.all_iff_forall_prop.1 (by decide)
  rw [trim_eq fun c hc => hblank c (h c hc)]
  exact (List.map_congr_left fun c hc => hplain c (h c hc)).trans (List.map_id cs)

theorem dropDigitGroups?_eq {cs : List Char} (h : '_' ∉ cs) : Text.dropDigitGroups? cs = some cs := by
  suffices hgo : ∀ afterDigit, Text.dropDigitGroups?.go afterDigit cs = some cs from hgo false
  induction cs with
  | nil => exact fun _ => rfl
  | cons c rest ih =>
    intro afterDigit
    have hrest := ih fun hmem => h (List.mem_cons_of_mem c hmem)
    unfold Text.dropDigitGroups?.go
    split
    · simp_all
    · simp_all
    · simp_all
    · rename_i heq
      obtain ⟨rfl, rfl⟩ := List.cons.inj heq
      rw [hrest, Option.map_some]

theorem rowsFit_of_length {before : Nat} {cs : List Char} (h : before + cs.length ≤ 4300) :
    Text.rowsFit before cs = true := by
  induction cs generalizing before with
  | nil => rfl
  | cons c rest ih =>
    rw [List.length_cons] at h
    unfold Text.rowsFit
    split
    · rw [ih (by omega), Bool.and_true, decide_eq_true_iff]
      change before < 4300
      omega
    · exact ih (by omega)

theorem breakOn_eq {separator : Char} {cs : List Char} (h : separator ∉ cs) :
    Text.breakOn separator cs = (cs, none) := by
  have hdrop : cs.dropWhile (· ≠ separator) = [] :=
    List.dropWhile_eq_nil_iff.2 fun c hc =>
      decide_eq_true fun heq : c = separator => h (heq ▸ hc)
  rw [Text.breakOn, hdrop]

/-- A literal that is not too long is read as it is. -/
theorem read_numeral {cs : List Char} {x : Scientific} (hcs : IsNumeral cs)
    (hlength : cs.length ≤ 4300) (hread : Scientific.read? cs = some x) :
    read (.ofList cs) = .ok (ofScientific x) := by
  have hgroup : '_' ∉ cs := fun h => absurd (hcs _ h) (by decide)
  have hslash : '/' ∉ cs := fun h => absurd (hcs _ h) (by decide)
  have hliteral : (Text.literal? Text.isBlank (.ofList cs)).filter (Text.rowsFit 0) = some cs := by
    rw [Text.literal?, String.toList_ofList, plain_of_isNumeral hcs, dropDigitGroups?_eq hgroup,
      Option.filter_some, if_pos (rowsFit_of_length (by omega))]
  rw [read, hliteral]
  simp only [breakOn_eq hslash, hread]

end Ratio

/-! ### Written numbers -/

namespace Binary64

open Scientific

variable {digits : List Char} {units n : Nat}

theorem isNumeral_signText (negative : Bool) : IsNumeral (signText negative) := by
  cases negative
  · exact List.all_iff_forall_prop.1 (by decide)
  · exact List.all_iff_forall_prop.1 (by decide)

theorem isNumeral_positional (hdigits : IsDigits digits) (point : Int) :
    IsNumeral (positional digits point) := by
  unfold positional
  split
  · have hzero : IsNumeral ['0', '.'] := List.all_iff_forall_prop.1 (by decide)
    exact hzero.append ((IsDigits.zeros _).append hdigits).isNumeral
  · split
    · have hzero : IsNumeral ['.', '0'] := List.all_iff_forall_prop.1 (by decide)
      exact (hdigits.append (.zeros _)).isNumeral.append hzero
    · refine IsNumeral.append (fun c hc => hdigits.isNumeral c (List.mem_of_mem_take hc)) ?_
      refine List.forall_mem_cons.2 ⟨by decide, fun c hc => ?_⟩
      exact hdigits.isNumeral c (List.mem_of_mem_drop hc)

theorem length_positional_le (digits : List Char) (point : Int) :
    (positional digits point).length ≤ digits.length + point.natAbs + 2 := by
  unfold positional
  split
  · simp
    omega
  · split
    · simp
      omega
    · simp
      omega

theorem isNumeral_exponential (hdigits : IsDigits digits) (exponent : Int) :
    IsNumeral (exponential digits exponent) := by
  have htail : IsNumeral ('e' :: (if exponent < 0 then '-' else '+') ::
      Text.decimalPadded 2 exponent.natAbs) := by
    refine List.forall_mem_cons.2 ⟨by decide, List.forall_mem_cons.2 ⟨?_, ?_⟩⟩
    · split <;> decide
    · exact ((IsDigits.zeros _).append (.decimal _)).isNumeral
  unfold exponential
  refine IsNumeral.append ?_ htail
  split
  · exact List.all_iff_forall_prop.1 (by decide)
  · exact hdigits.isNumeral
  · have hall := List.forall_mem_cons.1 hdigits.isNumeral
    exact List.forall_mem_cons.2 ⟨hall.1, List.forall_mem_cons.2 ⟨by decide, hall.2⟩⟩

theorem length_exponential_le (digits : List Char) (exponent : Int) :
    (exponential digits exponent).length ≤ digits.length + exponent.natAbs + 5 := by
  have hpower : exponent.natAbs < 10 ^ (exponent.natAbs + 1) :=
    Nat.lt_trans (Nat.lt_succ_self _) (Nat.lt_pow_self (by decide))
  have hlength := (length_decimal_le (Nat.succ_pos _)).2 hpower
  unfold exponential Text.decimalPadded Text.padLeft
  split
  · simp
    omega
  · simp
    omega
  · simp
    omega

theorem read?_positional_small (negative : Bool) (hdigits : IsDigits digits) {point : Int}
    (hpoint : point ≤ 0) : ∃ x, read? (signText negative ++ positional digits point) = some x ∧
      x.value = (if negative then -1 else 1) * digitsValue digits * 10 ^ (point - digits.length) := by
  have hzeros := (IsDigits.zeros (-point).toNat).append hdigits
  have hread := read?_point negative ['0'] _ [] (.zeros 1) (by simp) hzeros rfl
  rw [List.append_nil] at hread
  rw [positional, if_pos hpoint]
  refine ⟨_, hread, ?_⟩
  have hvalue : digitsValue (['0'] ++ (List.replicate (-point).toNat '0' ++ digits)) =
      digitsValue digits := by
    rw [digitsValue_append, digitsValue_append, digitsValue_zeros]
    simp [digitsValue]
  have hexponent : (0 : Int) - (List.replicate (-point).toNat '0' ++ digits).length =
      point - digits.length := by
    rw [List.length_append, List.length_replicate]
    omega
  rw [hvalue, hexponent, value]

theorem read?_positional_large (negative : Bool) (hdigits : IsDigits digits) (hne : digits ≠ [])
    {point : Int} (hpoint : ¬ point ≤ 0) (hlarge : digits.length ≤ point.toNat) :
    ∃ x, read? (signText negative ++ positional digits point) = some x ∧
      x.value = (if negative then -1 else 1) * digitsValue digits * 10 ^ (point - digits.length) := by
  have hzeros := hdigits.append (IsDigits.zeros (point.toNat - digits.length))
  have hread := read?_point negative _ ['0'] [] hzeros (by simp [hne]) (.zeros 1) rfl
  rw [positional, if_neg hpoint, if_pos hlarge]
  refine ⟨_, hread, ?_⟩
  have hvalue : digitsValue (digits ++ List.replicate (point.toNat - digits.length) '0' ++ ['0']) =
      digitsValue digits * 10 ^ (point.toNat - digits.length) * 10 := by
    rw [digitsValue_append, digitsValue_append, digitsValue_zeros, List.length_replicate]
    rfl
  have hexponent : point - digits.length = (point.toNat - digits.length : Nat) := by omega
  rw [hvalue, hexponent, value, zpow_natCast]
  simp

theorem read?_positional_between (negative : Bool) (hdigits : IsDigits digits) (hne : digits ≠ [])
    {point : Int} (hpoint : ¬ point ≤ 0) (hlarge : ¬ digits.length ≤ point.toNat) :
    ∃ x, read? (signText negative ++ positional digits point) = some x ∧
      x.value = (if negative then -1 else 1) * digitsValue digits * 10 ^ (point - digits.length) := by
  have hsplit := List.take_append_drop point.toNat digits
  have hread := read?_point negative (digits.take point.toNat) (digits.drop point.toNat) []
    (fun c hc => hdigits c (List.mem_of_mem_take hc))
    (by simp [hne]; omega) (fun c hc => hdigits c (List.mem_of_mem_drop hc)) rfl
  rw [List.append_nil, hsplit] at hread
  rw [positional, if_neg hpoint, if_neg hlarge]
  refine ⟨_, hread, ?_⟩
  have hexponent : (0 : Int) - (digits.drop point.toNat).length = point - digits.length := by
    rw [List.length_drop]
    omega
  rw [hexponent, value]

theorem read?_positional (negative : Bool) (hdigits : IsDigits digits) (hne : digits ≠ [])
    (point : Int) : ∃ x, read? (signText negative ++ positional digits point) = some x ∧
      x.value = (if negative then -1 else 1) * digitsValue digits * 10 ^ (point - digits.length) := by
  by_cases hpoint : point ≤ 0
  · exact read?_positional_small negative hdigits hpoint
  · by_cases hlarge : digits.length ≤ point.toNat
    · exact read?_positional_large negative hdigits hne hpoint hlarge
    · exact read?_positional_between negative hdigits hne hpoint hlarge

theorem read?_exponential (negative : Bool) (hdigits : IsDigits digits) (hne : digits ≠ [])
    (exponent : Int) : ∃ x, read? (signText negative ++ exponential digits exponent) = some x ∧
      x.value = (if negative then -1 else 1) * digitsValue digits *
        10 ^ (exponent + 1 - digits.length) := by
  have hexponent := exponentOf?_text exponent
  unfold exponential
  obtain ⟨d, rest, rfl⟩ := List.exists_cons_of_ne_nil hne
  cases rest with
  | nil =>
    refine ⟨_, read?_whole negative hdigits hne hexponent, ?_⟩
    simp [value]
  | cons second rest =>
    have hall := List.forall_mem_cons.1 hdigits
    have hfirst : IsDigits [d] := List.forall_mem_singleton.2 hall.1
    refine ⟨_, read?_point negative [d] _ _ hfirst (by simp) hall.2 hexponent, ?_⟩
    have hpower : exponent - (second :: rest).length = exponent + 1 - (d :: second :: rest).length := by
      simp only [List.length_cons]
      omega
    rw [hpower, List.singleton_append, value]

/-! ### The shortest text -/

/-- How many zeros a number ends in. -/
def endZeros (n : Nat) : Nat := ((Text.decimal n).reverse.takeWhile (· = '0')).length

/-- The digits of a number without the zeros at its end. -/
def significant (n : Nat) : List Char := (Text.decimal n).take ((Text.decimal n).length - endZeros n)

theorem significant_append (n : Nat) :
    significant n ++ List.replicate (endZeros n) '0' = Text.decimal n := by
  have hsplit : (Text.decimal n).reverse =
      List.replicate (endZeros n) '0' ++ (Text.decimal n).reverse.dropWhile (· = '0') := by
    conv_lhs => rw [← List.takeWhile_append_dropWhile (p := (· = '0'))
      (l := (Text.decimal n).reverse)]
    congr 1
    exact List.eq_replicate_of_mem fun c hc => by simpa using List.mem_takeWhile_imp hc
  have hdecimal := congrArg List.reverse hsplit
  rw [List.reverse_reverse, List.reverse_append, List.reverse_replicate] at hdecimal
  have hsignificant : significant n = ((Text.decimal n).reverse.dropWhile (· = '0')).reverse := by
    rw [significant]
    conv_lhs => rw [hdecimal]
    exact List.take_left' (by simp)
  rw [hsignificant, ← hdecimal]

theorem significant_spec (hpos : 0 < n) :
    IsDigits (significant n) ∧ significant n ≠ [] ∧
      (significant n).length + endZeros n = (Text.decimal n).length ∧
      digitsValue (significant n) * 10 ^ endZeros n = n := by
  have happend := significant_append n
  have hvalue : digitsValue (significant n) * 10 ^ endZeros n = n := by
    have h := congrArg digitsValue happend
    rwa [digitsValue_append, digitsValue_zeros, List.length_replicate, digitsValue_decimal] at h
  refine ⟨fun c hc => IsDigits.decimal n c ?_, ?_, ?_, hvalue⟩
  · rw [← happend]
    exact List.mem_append_left _ hc
  · rintro hnil
    rw [hnil] at hvalue
    change 0 * _ = n at hvalue
    omega
  · simpa using congrArg List.length happend

/-- Some digits with a point or an exponent, whichever is usual for their size. -/
def written (n : Nat) (place : Int) : List Char :=
  let exponent : Int := (Text.decimal n).length - 1 + place
  if -4 ≤ exponent && exponent < 16 then positional (significant n) (exponent + 1)
  else exponential (significant n) exponent

theorem repr_finite (negative : Bool) (hunits : Representable units) (hpos : 0 < units) :
    repr (finite negative units hunits) =
      .ofList (signText negative ++ written (shortest units).1 (shortest units).2) := by
  -- The search must not be unfolded.
  delta repr
  generalize shortest = search
  cases units with
  | zero => exact absurd hpos (Nat.lt_irrefl 0)
  | succ k => rfl

theorem isNumeral_written (hpos : 0 < n) (place : Int) : IsNumeral (written n place) := by
  obtain ⟨hdigits, -⟩ := significant_spec hpos
  unfold written
  dsimp only
  split
  · exact isNumeral_positional hdigits _
  · exact isNumeral_exponential hdigits _

theorem length_written_le (hpos : 0 < n) (place : Int) :
    (written n place).length ≤ 2 * (Text.decimal n).length + place.natAbs + 6 := by
  obtain ⟨-, -, hlength, -⟩ := significant_spec hpos
  unfold written
  dsimp only
  split
  · have := length_positional_le (significant n) ((Text.decimal n).length - 1 + place + 1)
    omega
  · have := length_exponential_le (significant n) ((Text.decimal n).length - 1 + place)
    omega

/-- The text of a number is within the limit on rows of digits. -/
theorem length_text_le (negative : Bool) {place : Int} (h : IsShort units n place) (hpos : 0 < n) :
    (signText negative ++ written n place).length ≤ 4300 := by
  obtain ⟨-, hfew, hlow, hhigh⟩ := h
  have hdigits : (Text.decimal n).length ≤ 18 :=
    (length_decimal_le (by decide)).2 (Nat.lt_of_le_of_lt hfew (by decide))
  have hsign : (signText negative).length ≤ 1 := by cases negative <;> decide
  have := length_written_le hpos place
  rw [List.length_append]
  omega

theorem read?_written (negative : Bool) (hpos : 0 < n) (place : Int) :
    ∃ x, read? (signText negative ++ written n place) = some x ∧
      x.value = (if negative then -1 else 1) * (n * 10 ^ place) := by
  obtain ⟨hdigits, hne, hlength, hvalue⟩ := significant_spec hpos
  have hplace : ∀ point : Int, point = (Text.decimal n).length + place →
      (digitsValue (significant n) : ℚ) * 10 ^ (point - (significant n).length) = n * 10 ^ place := by
    intro point hpoint
    have hpower : point - (significant n).length = endZeros n + place := by omega
    rw [hpower, zpow_add₀ (by norm_num), zpow_natCast, ← mul_assoc]
    congr 1
    exact_mod_cast hvalue
  unfold written
  dsimp only
  split
  · obtain ⟨x, hx, hxvalue⟩ := read?_positional negative hdigits hne
      ((Text.decimal n).length - 1 + place + 1)
    exact ⟨x, hx, by rw [hxvalue, mul_assoc, hplace _ (by omega)]⟩
  · obtain ⟨x, hx, hxvalue⟩ := read?_exponential negative hdigits hne
      ((Text.decimal n).length - 1 + place)
    exact ⟨x, hx, by rw [hxvalue, mul_assoc, hplace _ (by omega)]⟩

end Binary64

/-! ### Ratios of numbers -/

open Binary64

variable {units : Nat}

theorem Ratio.read_repr (negative : Bool) (hunits : Representable units) :
    ∃ r, read (finite negative units hunits).repr = .ok r ∧
      r.value = (if negative then -1 else 1) * shortestValue units := by
  rcases Nat.eq_zero_or_pos units with rfl | hpos
  · have hread : read "0.0" = .ok ⟨0, 10⟩ ∧ read "-0.0" = .ok ⟨0, 10⟩ := by decide +kernel
    refine ⟨⟨0, 10⟩, ?_, by simp [value, shortestValue]⟩
    cases negative
    · exact hread.1
    · exact hread.2
  · obtain ⟨hread, hfew, hlow, hhigh⟩ := shortest_spec hunits hpos
    have hn := Nat.pos_of_ne_zero (nearestQuotient_of_unitsOfDecimal hread hpos).1
    rw [repr_finite negative hunits hpos, shortestValue, if_neg (Nat.ne_of_gt hpos)]
    generalize (shortest units).1 = n at *
    generalize (shortest units).2 = place at *
    obtain ⟨x, hx, hvalue⟩ := read?_written negative hn place
    have hlength : (signText negative ++ written n place).length ≤ 4300 := by
      have hdigits : (Text.decimal n).length ≤ 18 :=
        (length_decimal_le (by decide)).2 (Nat.lt_of_le_of_lt hfew (by decide))
      have hsign : (signText negative).length ≤ 1 := by cases negative <;> decide
      have := length_written_le hn place
      rw [List.length_append]
      omega
    have hnumeral := (isNumeral_signText negative).append (isNumeral_written hn place)
    exact ⟨_, read_numeral hnumeral hlength hx, (value_ofScientific x).trans hvalue⟩

theorem Ratio.read_repr_of_not_finite {x : Binary64} (h : x.isFinite = false) :
    read x.repr = .error .malformed := by
  cases x with
  | nan => rfl
  | infinite negative => cases negative <;> rfl
  | finite => cases h

theorem Timecode.ratio?_finite (negative : Bool) (hunits : Representable units) :
    ∃ r, ratio? (finite negative units hunits) = some r ∧
      r.value = (if negative then -1 else 1) * shortestValue units := by
  obtain ⟨r, hread, hvalue⟩ := Ratio.read_repr negative hunits
  exact ⟨r, by rw [ratio?, hread]; rfl, hvalue⟩

theorem Timecode.isSome_ratio? {x : Binary64} : (ratio? x).isSome = x.isFinite := by
  cases x with
  | finite negative units hunits =>
    obtain ⟨r, hr, -⟩ := ratio?_finite negative hunits
    rw [hr]
    rfl
  | _ =>
    rw [ratio?, Ratio.read_repr_of_not_finite rfl]
    rfl

end Montage
