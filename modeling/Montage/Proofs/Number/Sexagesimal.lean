import Montage.Proofs.Files.Names
import Montage.Proofs.Number.Context
import Montage.Proofs.Outcome
import Montage.Timecode

/-!
# The value of a timecode

The fields of a timecode are the digits of a number in base sixty. The last three of them are read, and the
result is their value, up to the rounding of sums and products (`combine_sums`). Fields before these make no
difference: a timecode has the value of all its fields as long as there are no more than three, or the
others come to nothing (`read_fields`).
-/

namespace Montage.Timecode

open Decimal

/-- The fields of a text, between colons. -/
def fieldsOf (s : String) : List (List Char) := Text.splitOn ':' (Text.trimBlank s.toList)

/-- The last three items, in order. -/
def lastThree {α : Type} (items : List α) : List α := items.drop (items.length - 3)

/-- The items before the last three. -/
def beforeThree {α : Type} (items : List α) : List α := items.take (items.length - 3)

/-- The value of numbers as digits in base sixty, with the ones at the end. -/
def sexagesimal : List ℚ → ℚ
  | [] => 0
  | v :: rest => v * 60 ^ rest.length + sexagesimal rest

/-- The standard context holds each product and each sum on the way to the value, from the first digit on. -/
def StepsFit (values : List ℚ) : Prop :=
  ∀ front v back, values = front ++ v :: back →
    Context.standard.Fits (sexagesimal (front ++ [v]) * 60 ^ back.length) ∧
      (back ≠ [] → Context.standard.Fits (v * 60 ^ back.length))

/-- The kind of the sum of numbers, if it has one. -/
def kindOfSum? (numbers : List Decimal) : Option Kind := (numbers.map kind).foldlM Kind.add? .finite

/-- The value of fields as an outcome. Of finite numbers it is off by at most four steps, and exact when the
context holds everything on the way to it; only then is there no overflow. With other numbers among them
it is of the kind of their sum, or an error. -/
inductive Sums (fields : List Decimal) : Except Fault Decimal → Prop where
  | near {values : List ℚ} {x : Decimal} {v : ℚ} (hvalues : fields.mapM toRat? = some values)
      (hx : x.toRat? = some v)
      (hclose : |v - sexagesimal values| ≤ 4 * Context.standard.step (sexagesimal (values.map (|·|))))
      (hexact : StepsFit values → v = sexagesimal values) : Sums fields (.ok x)
  | overflow {values : List ℚ} (hvalues : fields.mapM toRat? = some values) (hsteps : ¬ StepsFit values) :
      Sums fields (.error (.misuse .decimalOverflow))
  | special {x : Decimal} (hvalues : fields.mapM toRat? = none) (hkind : kindOfSum? fields = some x.kind) :
      Sums fields (.ok x)
  | undefined {fault : Fault} (hvalues : fields.mapM toRat? = none) : Sums fields (.error fault)

variable {fields : List Decimal} {values front back : List ℚ} {h m s x : Decimal} {u v w : ℚ}
  {outcome : Except Fault Decimal}

/-! ### Digits in base sixty -/

theorem sexagesimal_append (front back : List ℚ) :
    sexagesimal (front ++ back) = sexagesimal front * 60 ^ back.length + sexagesimal back := by
  induction front with
  | nil => rw [List.nil_append, sexagesimal, zero_mul, zero_add]
  | cons v front ih =>
    rw [List.cons_append, sexagesimal, sexagesimal, ih, List.length_append, pow_add]
    ring

theorem sexagesimal_abs_nonneg (values : List ℚ) : 0 ≤ sexagesimal (values.map (|·|)) := by
  induction values with
  | nil => exact le_rfl
  | cons v values ih =>
    rw [List.map_cons, sexagesimal]
    exact add_nonneg (mul_nonneg (abs_nonneg v) (by positivity)) ih

theorem sexagesimal_three (u v w : ℚ) : sexagesimal [u, v, w] = u * 3600 + v * 60 + w := by
  simp only [sexagesimal, List.length_cons, List.length_nil]
  ring

theorem beforeThree_append_lastThree {α : Type} (items : List α) :
    beforeThree items ++ lastThree items = items :=
  List.take_append_drop _ _

/-- Digits that come to nothing before the last three change nothing on the way to the value. -/
theorem stepsFit_lastThree (hbefore : sexagesimal (beforeThree values) = 0) (hsteps : StepsFit values) :
    StepsFit (lastThree values) := by
  intro front v back hvalues
  have hall : values = (beforeThree values ++ front) ++ v :: back := by
    rw [List.append_assoc, ← hvalues, beforeThree_append_lastThree]
  have hfits := hsteps _ v back hall
  rwa [List.append_assoc, sexagesimal_append, hbefore, zero_mul, zero_add] at hfits

theorem sexagesimal_eq_iff :
    sexagesimal values = sexagesimal (lastThree values) ↔ sexagesimal (beforeThree values) = 0 := by
  conv_lhs => rw [← beforeThree_append_lastThree values, sexagesimal_append]
  rw [beforeThree_append_lastThree]
  constructor
  · intro heq
    have hproduct : sexagesimal (beforeThree values) * 60 ^ (lastThree values).length = 0 := by linarith
    exact (mul_eq_zero.1 hproduct).resolve_right (by positivity)
  · intro hzero
    rw [hzero, zero_mul, zero_add]

/-! ### Hours, minutes and seconds -/

theorem fits_of_stepsFit (hsteps : StepsFit [u, v, w]) :
    Context.standard.Fits (u * 3600) ∧ Context.standard.Fits (v * 60) ∧
      Context.standard.Fits (u * 3600 + v * 60) ∧ Context.standard.Fits (u * 3600 + v * 60 + w) := by
  have hhours := (hsteps [] u [v, w] rfl).2 (by simp)
  have hminutes := (hsteps [u] v [w] rfl).2 (by simp)
  have hboth := (hsteps [u] v [w] rfl).1
  have hall := (hsteps [u, v] w [] rfl).1
  refine ⟨?_, ?_, ?_, ?_⟩
  · convert hhours using 1
    norm_num
  · convert hminutes using 1
    norm_num
  · convert hboth using 1
    simp only [sexagesimal, List.cons_append, List.nil_append, List.length_cons, List.length_nil]
    ring
  · convert hall using 1
    simp only [sexagesimal, List.cons_append, List.nil_append, List.length_cons, List.length_nil]
    ring

/-- The errors of the products and of the sums add up to at most four steps. -/
theorem close_of_parts {a b c d : ℚ}
    (ha : |a - u * 3600| ≤ 1 / 2 * Context.standard.step (u * 3600))
    (hb : |b - v * 60| ≤ 1 / 2 * Context.standard.step (v * 60))
    (hc : |c - (a + b)| ≤ 1 * Context.standard.step (a + b))
    (hd : |d - (c + w)| ≤ 1 * Context.standard.step (c + w)) :
    |d - sexagesimal [u, v, w]| ≤
      4 * Context.standard.step (sexagesimal ([u, v, w].map (|·|))) := by
  have hnearHours : IsNear Context.standard (1 / 2) |u * 3600| a (u * 3600) :=
    ⟨le_rfl, ha.trans_eq (by rw [Context.step, Context.step, abs_abs])⟩
  have hnearMinutes : IsNear Context.standard (1 / 2) |v * 60| b (v * 60) :=
    ⟨le_rfl, hb.trans_eq (by rw [Context.step, Context.step, abs_abs])⟩
  have hnearBoth := hnearHours.add (by decide) hnearMinutes (by norm_num) (by norm_num) hc
  have hnear := hnearBoth.add (by decide) (IsNear.refl w) (by norm_num) le_rfl hd
  have hsize : sexagesimal ([u, v, w].map (|·|)) = |u * 3600| + |v * 60| + |w| := by
    rw [abs_mul, abs_mul]
    norm_num [sexagesimal_three]
  rw [hsize, sexagesimal_three]
  exact hnear.close.trans (mul_le_mul_of_nonneg_right (by norm_num) (step_nonneg _ _))

theorem combine_near (hh : h.toRat? = some u) (hm : m.toRat? = some v) (hs : s.toRat? = some w) :
    Sums [h, m, s] (liftDecimal (combine h m s)) := by
  have hvalues : [h, m, s].mapM toRat? = some [u, v, w] := by simp [hh, hm, hs]
  have hhours : Rounds Context.standard (1 / 2) (u * 3600) (mul Context.standard h (.ofInt 3600)) :=
    mul_rounds (by decide) hh (toRat?_ofInt 3600)
  have hminutes : Rounds Context.standard (1 / 2) (v * 60) (mul Context.standard m (.ofInt 60)) :=
    mul_rounds (by decide) hm (toRat?_ofInt 60)
  rw [combine]
  generalize mul Context.standard h (.ofInt 3600) = fromHours at hhours
  cases hhours with
  | overflow hfits => exact .overflow hvalues fun hsteps => hfits (fits_of_stepsFit hsteps).1
  | @near hours a ha hcloseHours hexactHours =>
  generalize mul Context.standard m (.ofInt 60) = fromMinutes at hminutes
  cases hminutes with
  | overflow hfits => exact .overflow hvalues fun hsteps => hfits (fits_of_stepsFit hsteps).2.1
  | @near minutes b hb hcloseMinutes hexactMinutes =>
  have hboth := add_rounds (by decide : 0 < Context.standard.precision) ha hb
  have hexactTerms (hsteps : StepsFit [u, v, w]) : a + b = u * 3600 + v * 60 := by
    rw [hexactHours (fits_of_stepsFit hsteps).1, hexactMinutes (fits_of_stepsFit hsteps).2.1]
  change Sums _ (liftDecimal (add Context.standard hours minutes >>= (add Context.standard · s)))
  generalize add Context.standard hours minutes = sum at hboth
  cases hboth with
  | overflow hfits =>
    refine .overflow hvalues fun hsteps => hfits ?_
    rw [hexactTerms hsteps]
    exact (fits_of_stepsFit hsteps).2.2.1
  | @near both c hc hcloseBoth hexactBoth =>
  have hall := add_rounds (by decide : 0 < Context.standard.precision) hc hs
  have hexactSum (hsteps : StepsFit [u, v, w]) : c + w = u * 3600 + v * 60 + w := by
    have hterms := hexactTerms hsteps
    rw [hexactBoth (hterms ▸ (fits_of_stepsFit hsteps).2.2.1), hterms]
  change Sums _ (liftDecimal (add Context.standard both s))
  generalize add Context.standard both s = total at hall
  cases hall with
  | overflow hfits =>
    refine .overflow hvalues fun hsteps => hfits ?_
    rw [hexactSum hsteps]
    exact (fits_of_stepsFit hsteps).2.2.2
  | @near x d hx hclose hexact =>
    refine .near hvalues hx (close_of_parts hcloseHours hcloseMinutes hcloseBoth hclose) fun hsteps => ?_
    have hsum := hexactSum hsteps
    rw [sexagesimal_three, ← hsum]
    exact hexact (hsum ▸ (fits_of_stepsFit hsteps).2.2.2)

theorem combine_special (hvalues : [h, m, s].mapM toRat? = none) :
    Sums [h, m, s] (liftDecimal (combine h m s)) := by
  cases hcombine : combine h m s with
  | error error => cases error <;> exact .undefined hvalues
  | ok x =>
    rw [combine] at hcombine
    obtain ⟨hours, hhours, hcombine⟩ := Outcome.bind_eq_ok.1 hcombine
    obtain ⟨minutes, hminutes, hcombine⟩ := Outcome.bind_eq_ok.1 hcombine
    obtain ⟨both, hboth, hall⟩ := Outcome.bind_eq_ok.1 hcombine
    have hkinds := kind_add (by decide) hboth
    rw [kind_mul_ofInt (by decide) (by decide) hhours, kind_mul_ofInt (by decide) (by decide) hminutes]
      at hkinds
    refine .special hvalues ?_
    have hfirst : Kind.add? .finite h.kind = some h.kind := by cases h.kind <;> rfl
    have hlast := kind_add (by decide) hall
    simp only [kindOfSum?, List.map_cons, List.map_nil, List.foldlM_cons, List.foldlM_nil, hfirst, hkinds,
      hlast, Option.bind_eq_bind, Option.bind_some, Option.pure_def]

theorem combine_sums (h m s : Decimal) : Sums [h, m, s] (liftDecimal (combine h m s)) := by
  cases hvalues : [h, m, s].mapM toRat? with
  | none => exact combine_special hvalues
  | some values =>
    cases Outcome.mapM_eq_some.1 hvalues with
    | cons hh hrest =>
      cases hrest with
      | cons hm hrest =>
        cases hrest with
        | cons hs => exact combine_near hh hm hs

/-! ### A field that is left out -/

theorem mapM_zero_cons (fields : List Decimal) :
    (.ofInt 0 :: fields).mapM toRat? = (fields.mapM toRat?).map (0 :: ·) := by
  have hzero : (ofInt 0).toRat? = some 0 := toRat?_ofInt 0
  rw [List.mapM_cons, hzero]
  cases fields.mapM toRat? <;> rfl

theorem sexagesimal_zero_cons (values : List ℚ) : sexagesimal (0 :: values) = sexagesimal values := by
  rw [sexagesimal, zero_mul, zero_add]

theorem stepsFit_zero_cons (hsteps : StepsFit values) : StepsFit (0 :: values) := by
  intro front v back heq
  cases front with
  | nil =>
    obtain ⟨rfl, rfl⟩ := List.cons.inj heq
    have hfits : Context.standard.Fits 0 := by
      refine ⟨?_, 0, 0, by decide, by decide, ?_⟩
      · rw [abs_zero]
        exact ten_zpow_pos _
      · rw [abs_zero, Nat.cast_zero, zero_mul]
    rw [List.nil_append, sexagesimal_zero_cons, sexagesimal, zero_mul]
    exact ⟨hfits, fun _ => hfits⟩
  | cons first front =>
    obtain ⟨rfl, hrest⟩ := List.cons.inj heq
    rw [List.cons_append, sexagesimal_zero_cons]
    exact hsteps front v back hrest

/-- A zero in front stands for a field that is not there. -/
theorem Sums.of_zero_cons (hsums : Sums (.ofInt 0 :: fields) outcome) : Sums fields outcome := by
  cases hsums with
  | near hvalues hx hclose hexact =>
    rw [mapM_zero_cons] at hvalues
    obtain ⟨rest, hrest, rfl⟩ := Option.map_eq_some_iff.1 hvalues
    rw [List.map_cons, abs_zero, sexagesimal_zero_cons, sexagesimal_zero_cons] at hclose
    rw [sexagesimal_zero_cons] at hexact
    exact .near hrest hx hclose fun hsteps => hexact (stepsFit_zero_cons hsteps)
  | overflow hvalues hsteps =>
    rw [mapM_zero_cons] at hvalues
    obtain ⟨rest, hrest, rfl⟩ := Option.map_eq_some_iff.1 hvalues
    exact .overflow hrest (mt stepsFit_zero_cons hsteps)
  | special hvalues hkind =>
    rw [mapM_zero_cons, Option.map_eq_none_iff] at hvalues
    exact .special hvalues hkind
  | undefined hvalues =>
    rw [mapM_zero_cons, Option.map_eq_none_iff] at hvalues
    exact .undefined hvalues

/-! ### The fields of a text -/

theorem mem_trimBlank {c : Char} {cs : List Char} (hc : Text.isBlank c = false) (h : c ∈ cs) :
    c ∈ Text.trimBlank cs := by
  have hkeeps {cs : List Char} (h : c ∈ cs) : c ∈ cs.dropWhile Text.isBlank := by
    rw [← @List.takeWhile_append_dropWhile _ Text.isBlank cs, List.mem_append] at h
    refine h.resolve_left fun hblank => ?_
    rw [List.all_eq_true.1 List.all_takeWhile c hblank] at hc
    cases hc
  rw [Text.trimBlank, Text.trim, Text.dropWhileRight, List.mem_reverse]
  exact hkeeps (List.mem_reverse.2 (hkeeps h))

theorem two_le_length_fieldsOf {t : String} (hcolon : ':' ∈ t.toList) : 2 ≤ (fieldsOf t).length := by
  have hmem : ':' ∈ Text.trimBlank t.toList := mem_trimBlank (by decide) hcolon
  have hpieces : [':'].intercalate (fieldsOf t) = Text.trimBlank t.toList := by
    rw [fieldsOf, Text.splitOn_eq, List.intercalate_splitOn]
  have hfree {piece : List Char} (h : piece ∈ fieldsOf t) : ':' ∉ piece := Text.not_mem_of_mem_splitOn h
  cases hfields : fieldsOf t with
  | nil =>
    rw [hfields] at hpieces
    rw [← hpieces] at hmem
    cases hmem
  | cons first rest =>
    cases rest with
    | nil =>
      rw [hfields, List.intercalate_singleton] at hpieces
      exact (hfree (hfields ▸ List.mem_singleton_self first) (hpieces ▸ hmem)).elim
    | cons second rest => exact Nat.le_add_left 2 rest.length

theorem readFields_sums {pieces : List (List Char)} (hlength : 2 ≤ pieces.length)
    (hfields : pieces.mapM Decimal.read = .ok fields) :
    Sums (lastThree fields) (liftDecimal (readFields pieces.reverse)) := by
  have hpieces := List.rel_reverse (Outcome.mapM_eq_ok.1 hfields)
  have hlast : lastThree fields = (fields.reverse.take 3).reverse := by
    rw [lastThree, List.reverse_take, List.reverse_reverse, List.length_reverse]
  rw [← List.length_reverse] at hlength
  rw [hlast]
  generalize pieces.reverse = lastFirst at hpieces hlength
  generalize fields.reverse = numbers at hpieces
  cases hpieces with
  | nil => cases hlength
  | @cons seconds s _ _ hs hpieces =>
  cases hpieces with
  | nil => exact absurd hlength (Nat.lt_irrefl 1)
  | @cons minutes m _ _ hm hpieces =>
  cases hpieces with
  | nil =>
    have hread : readFields [seconds, minutes] = combine (.ofInt 0) m s := by
      rw [readFields, hs, hm]
      rfl
    rw [hread]
    exact (combine_sums _ m s).of_zero_cons
  | @cons hours h rest _ hh hpieces =>
    have hread : readFields (seconds :: minutes :: hours :: rest) = combine h m s := by
      rw [readFields, hs, hm]
      change (Decimal.read hours >>= fun hours => combine hours m s) = _
      rw [hh]
      rfl
    rw [hread]
    exact combine_sums h m s

theorem mapM_lastThree (hvalues : fields.mapM toRat? = some values) :
    (lastThree fields).mapM toRat? = some (lastThree values) := by
  have hpairs := Outcome.mapM_eq_some.1 hvalues
  rw [lastThree, lastThree, ← hpairs.length_eq]
  exact Outcome.mapM_eq_some.2 (List.forall₂_drop _ hpairs)

/-- What holds of the last three fields holds of all, when the others come to nothing. -/
theorem Sums.of_lastThree (hvalues : fields.mapM toRat? = some values)
    (hbefore : sexagesimal (beforeThree values) = 0) (hsums : Sums (lastThree fields) outcome) :
    Sums fields outcome := by
  have hlast := mapM_lastThree hvalues
  have htotal : sexagesimal values = sexagesimal (lastThree values) := sexagesimal_eq_iff.2 hbefore
  cases hsums with
  | near hvalues' hx hclose hexact =>
    obtain rfl := Option.some.inj (hlast.symm.trans hvalues')
    refine .near hvalues hx ?_ fun hsteps => ?_
    · rw [htotal]
      refine hclose.trans (mul_le_mul_of_nonneg_left (step_mono ?_) (by norm_num))
      rw [abs_of_nonneg (sexagesimal_abs_nonneg _), abs_of_nonneg (sexagesimal_abs_nonneg _)]
      conv_rhs => rw [← beforeThree_append_lastThree values, List.map_append, sexagesimal_append]
      exact le_add_of_nonneg_left (mul_nonneg (sexagesimal_abs_nonneg _) (by positivity))
    · rw [htotal]
      exact hexact (stepsFit_lastThree hbefore hsteps)
  | overflow hvalues' hsteps =>
    obtain rfl := Option.some.inj (hlast.symm.trans hvalues')
    exact .overflow hvalues (mt (stepsFit_lastThree hbefore) hsteps)
  | special hvalues' => cases hlast.symm.trans hvalues'
  | undefined hvalues' => cases hlast.symm.trans hvalues'

/-- The value of exact fields is theirs alone. -/
theorem Sums.exact (hvalues : fields.mapM toRat? = some values) (hsteps : StepsFit values)
    (hsums : Sums fields outcome) : ∃ x, outcome = .ok x ∧ x.toRat? = some (sexagesimal values) := by
  cases hsums with
  | near hvalues' hx _ hexact =>
    obtain rfl := Option.some.inj (hvalues.symm.trans hvalues')
    exact ⟨_, rfl, by rw [hx, hexact hsteps]⟩
  | overflow hvalues' hsteps' =>
    obtain rfl := Option.some.inj (hvalues.symm.trans hvalues')
    exact (hsteps' hsteps).elim
  | special hvalues' => cases hvalues.symm.trans hvalues'
  | undefined hvalues' => cases hvalues.symm.trans hvalues'

/-- The fields before the last three come to nothing. -/
def IgnoresNothing (fields : List Decimal) : Prop :=
  fields.length ≤ 3 ∨ ∃ values, fields.mapM toRat? = some values ∧ sexagesimal (beforeThree values) = 0

/-- A text with colons has the value of its last three fields. It has that of all fields as long as those
before the last three come to nothing, and if everything on the way fits, not otherwise. -/
theorem read_fields {t : String} (hcolon : ':' ∈ t.toList)
    (hfields : (fieldsOf t).mapM Decimal.read = .ok fields) :
    Sums (lastThree fields) (read (.text t)) ∧
      (IgnoresNothing fields → Sums fields (read (.text t))) ∧
      ∀ values, fields.mapM toRat? = some values → StepsFit values → StepsFit (lastThree values) →
        Sums fields (read (.text t)) → IgnoresNothing fields := by
  have hlast : Sums (lastThree fields) (read (.text t)) :=
    readFields_sums (two_le_length_fieldsOf hcolon) hfields
  refine ⟨hlast, ?_, ?_⟩
  · rintro (hlength | hnothing)
    · have hall : lastThree fields = fields := by
        rw [lastThree, Nat.sub_eq_zero_of_le hlength, List.drop_zero]
      rwa [hall] at hlast
    · obtain ⟨values, hvalues, hbefore⟩ := hnothing
      exact hlast.of_lastThree hvalues hbefore
  · intro values hvalues hsteps hstepsLast hsums
    obtain ⟨x, hx, htotal⟩ := hsums.exact hvalues hsteps
    obtain ⟨y, hy, htotalLast⟩ := hlast.exact (mapM_lastThree hvalues) hstepsLast
    obtain rfl := Except.ok.inj (hx.symm.trans hy)
    exact .inr ⟨values, hvalues, sexagesimal_eq_iff.1 (Option.some.inj (htotal.symm.trans htotalLast))⟩

/-- A field of zeros in front of the hours does no harm. -/
theorem leadingZero_sums :
    ∃ fields, (fieldsOf " 00:01:02:03.5").mapM Decimal.read = .ok fields ∧
      Sums fields (read (.text " 00:01:02:03.5")) ∧
      read (.text " 00:01:02:03.5") = .ok (.finite false 37235 (-1)) := by
  have hfields : (fieldsOf " 00:01:02:03.5").mapM Decimal.read =
      .ok [.finite false 0 0, .finite false 1 0, .finite false 2 0, .finite false 35 (-1)] := by
    decide +kernel
  refine ⟨_, hfields, (read_fields (by decide) hfields).2.1 (.inr ⟨[0, 1, 2, 7 / 2], ?_, ?_⟩), ?_⟩
  · norm_num [toRat?, value, signFactor]
  · norm_num [beforeThree, sexagesimal]
  · decide +kernel

/-! ### Whole numbers -/

theorem exists_natCast (digits : List Nat) : ∃ n : Nat, sexagesimal (digits.map Nat.cast) = n := by
  induction digits with
  | nil => exact ⟨0, Nat.cast_zero.symm⟩
  | cons d digits ih =>
    obtain ⟨n, hn⟩ := ih
    refine ⟨d * 60 ^ digits.length + n, ?_⟩
    rw [List.map_cons, sexagesimal, hn, List.length_map]
    push_cast
    rfl

theorem fits_natCast {n : Nat} (h : n < 10 ^ 28) : Context.standard.Fits n := by
  refine ⟨?_, n, 0, h, by decide, ?_⟩
  · rw [Nat.abs_cast]
    calc (n : ℚ) < 10 ^ (28 : Int) := by exact_mod_cast h
      _ ≤ 10 ^ (Context.standard.maxExponent + 1) := (zpow_le_zpow_iff_right₀ (by norm_num)).2 (by decide)
  · rw [Nat.abs_cast, zpow_zero, mul_one]

/-- Whole fields with a value of no more digits than the context has are read exactly. -/
theorem stepsFit_natCast {digits : List Nat} (h : sexagesimal (digits.map Nat.cast) < 10 ^ 28) :
    StepsFit (digits.map Nat.cast) := by
  intro front v back heq
  obtain ⟨first, rest, rfl, rfl, hrest⟩ := List.map_eq_append_iff.1 heq
  obtain ⟨d, last, rfl, rfl, rfl⟩ := List.map_eq_cons_iff.1 hrest
  obtain ⟨n, hn⟩ := exists_natCast (first ++ [d])
  obtain ⟨below, hbelow⟩ := exists_natCast last
  obtain ⟨above, habove⟩ := exists_natCast first
  have hsum : (n : ℚ) = above * 60 + d := by
    rw [← hn, ← habove, List.map_append, sexagesimal_append]
    simp [sexagesimal]
  rw [List.map_append, List.map_cons, sexagesimal_append, sexagesimal, habove, hbelow, List.length_cons,
    List.length_map, pow_succ] at h
  rw [List.map_append, List.map_cons, List.map_nil] at hn
  rw [hn, List.length_map]
  have habove_nonneg : (0 : ℚ) ≤ above * 60 * 60 ^ last.length := by positivity
  have hbelow_nonneg : (0 : ℚ) ≤ below := Nat.cast_nonneg below
  constructor
  · have hlt : n * 60 ^ last.length < 10 ^ 28 := by
      have hlt : (n * 60 ^ last.length : ℚ) < 10 ^ 28 := by
        rw [hsum]
        linarith
      exact_mod_cast hlt
    exact_mod_cast fits_natCast hlt
  · intro _
    have hlt : d * 60 ^ last.length < 10 ^ 28 := by
      have hlt : (d * 60 ^ last.length : ℚ) < 10 ^ 28 := by linarith
      exact_mod_cast hlt
    exact_mod_cast fits_natCast hlt

/-- A day, two hours, three minutes and four seconds are read without the day. -/
theorem dayTimecode_not_sums :
    ¬ ∀ (t : String) (fields : List Decimal), ':' ∈ t.toList →
      (fieldsOf t).mapM Decimal.read = .ok fields → Sums fields (read (.text t)) := by
  intro hall
  have hfields : (fieldsOf "1:02:03:04").mapM Decimal.read =
      .ok [.finite false 1 0, .finite false 2 0, .finite false 3 0, .finite false 4 0] := by
    decide +kernel
  have hvalues : [.finite false 1 0, .finite false 2 0, .finite false 3 0, .finite false 4 0].mapM toRat? =
      some ([1, 2, 3, 4].map Nat.cast) := by
    norm_num [toRat?, value, signFactor]
  have hread : read (.text "1:02:03:04") = .ok (.finite false 7384 0) := by decide +kernel
  have hsteps : StepsFit ([1, 2, 3, 4].map Nat.cast) :=
    stepsFit_natCast (by norm_num [sexagesimal])
  obtain ⟨x, hx, htotal⟩ := (hall "1:02:03:04" _ (by decide) hfields).exact hvalues hsteps
  rw [hread] at hx
  cases hx
  norm_num [toRat?, value, signFactor, sexagesimal] at htotal

end Montage.Timecode
