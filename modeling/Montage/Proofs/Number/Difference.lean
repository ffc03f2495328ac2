import Montage.Proofs.Number.Maximum
import Montage.Proofs.Number.Shortest

/-!
# Values and differences of binary numbers

A finite number has a rational value. A difference is the difference of the values, rounded faithfully:
no number of the format stands strictly between them (`isFaithful_sub`), and maxima and minima keep this
(`IsFaithful.max`, `IsFaithful.min`). So where the format holds the exact result, it is what comes out
(`IsFaithful.toRat?_eq`).
-/

namespace Montage.Binary64

variable {x y z : Binary64} {m n : Int} {p q : ℚ}

/-- What a finite number stands for. -/
def toRat? (x : Binary64) : Option ℚ := x.toUnits?.map fun units => (units : ℚ) / one

def toRat (x : Binary64) : ℚ := x.toRat?.getD 0

theorem toRat?_of_units (hx : x.toUnits? = some m) : x.toRat? = some ((m : ℚ) / one) := by
  rw [toRat?, hx]
  rfl

theorem toRat_of_units (hx : x.toUnits? = some m) : x.toRat = (m : ℚ) / one := by
  rw [toRat, toRat?_of_units hx]
  rfl

theorem toRat?_eq_toRat (hx : x.isFinite = true) : x.toRat? = some x.toRat := by
  obtain ⟨m, hm⟩ := exists_units hx
  rw [toRat?_of_units hm, toRat_of_units hm]

theorem isFinite_of_toRat? (hx : x.toRat? = some q) : x.isFinite = true := by
  cases x with
  | finite s a _ => rfl
  | _ => cases hx

theorem toRat_eq_of_toRat? (hx : x.toRat? = some q) : x.toRat = q := by
  rw [toRat, hx]
  rfl

theorem div_one_le_iff : (m : ℚ) / one ≤ n / one ↔ m ≤ n := by
  rw [div_le_div_iff_of_pos_right (Nat.cast_pos.2 one_pos), Int.cast_le]

theorem le_iff_toRat (hx : x.isFinite = true) (hy : y.isFinite = true) :
    x.le y = true ↔ x.toRat ≤ y.toRat := by
  obtain ⟨⟨m, hm⟩, ⟨n, hn⟩⟩ := exists_units hx, exists_units hy
  rw [le_iff_units hm hn, toRat_of_units hm, toRat_of_units hn, div_one_le_iff]

theorem le_of_lt (h : x.lt y = true) : x.le y = true := by simp [le, h]

theorem isFinite_zero : zero.isFinite = true := rfl

theorem toRat_zero : zero.toRat = 0 := by
  rw [toRat_of_units (m := 0) rfl, Int.cast_zero, zero_div]

theorem toRat_neg (hx : x.isFinite = true) : (-x).toRat = -x.toRat := by
  obtain ⟨m, hm⟩ := exists_units hx
  rw [toRat_of_units hm, toRat_of_units (toUnits?_neg hm), Int.cast_neg, neg_div]

theorem isFinite_neg (x : Binary64) : (-x).isFinite = x.isFinite := by cases x <;> rfl

instance : InvolutiveNeg Binary64 where
  neg_neg x := by
    cases x with
    | nan => rfl
    | infinite s => cases s <;> rfl
    | finite s a _ => cases s <;> rfl

theorem neg_le_neg (x y : Binary64) : (-x).le (-y) = y.le x := by
  cases x with
  | nan => cases y <;> rfl
  | infinite s =>
    cases y with
    | nan => cases s <;> rfl
    | infinite r => cases s <;> cases r <;> rfl
    | finite r b _ => cases s <;> cases r <;> rfl
  | finite s a ha =>
    cases y with
    | nan => cases s <;> rfl
    | infinite r => cases s <;> cases r <;> rfl
    | finite r b hb =>
      obtain ⟨m, hm⟩ := exists_units (x := finite s a ha) rfl
      obtain ⟨n, hn⟩ := exists_units (x := finite r b hb) rfl
      rw [Bool.eq_iff_iff, le_iff_units (toUnits?_neg hm) (toUnits?_neg hn), le_iff_units hn hm]
      omega

/-! ### Faithful rounding -/

/-- A number next to an exact value: no number of the format is strictly between them. -/
structure IsFaithful (x : Binary64) (q : ℚ) : Prop where
  le : ∀ y : Binary64, y.isFinite = true → y.toRat ≤ q → y.le x = true
  ge : ∀ y : Binary64, y.isFinite = true → q ≤ y.toRat → x.le y = true

namespace IsFaithful

theorem isNaN (h : IsFaithful x q) : x.isNaN = false := by
  rcases le_total 0 q with hq | hq
  · exact (isNaN_of_le (h.le zero rfl (toRat_zero ▸ hq))).2
  · exact (isNaN_of_le (h.ge zero rfl (toRat_zero ▸ hq))).1

theorem of_isFinite (hx : x.isFinite = true) : IsFaithful x x.toRat :=
  ⟨fun _ hy => (le_iff_toRat hy hx).2, fun _ hy => (le_iff_toRat hx hy).2⟩

/-- An exact value that the format holds is met. -/
theorem toRat?_eq (h : IsFaithful x q) (hy : y.toRat? = some q) : x.toRat? = some q := by
  have hfinite := isFinite_of_toRat? hy
  have hvalue := toRat_eq_of_toRat? hy
  obtain rfl | ⟨u, hx, hu⟩ :=
    eq_or_units_eq (h.ge y hfinite hvalue.ge) (h.le y hfinite hvalue.le)
  · exact hy
  · rw [toRat?, hx, ← hu]
    exact hy

theorem neg (h : IsFaithful x q) : IsFaithful (-x) (-q) where
  le y hy hle := by
    have hfinite : (-y).isFinite = true := (isFinite_neg y).trans hy
    rw [← neg_neg y, neg_le_neg]
    exact h.ge (-y) hfinite (by rw [toRat_neg hy]; linarith)
  ge y hy hle := by
    have hfinite : (-y).isFinite = true := (isFinite_neg y).trans hy
    rw [← neg_neg y, neg_le_neg]
    exact h.le (-y) hfinite (by rw [toRat_neg hy]; linarith)

theorem max (hx : IsFaithful x p) (hy : IsFaithful y q) : IsFaithful (max x y) (Max.max p q) where
  le z hz hle := by
    rcases le_max_iff.1 hle with hzp | hzq
    · exact le_max_left (hx.le z hz hzp)
    · exact le_max_right hx.isNaN (hy.le z hz hzq)
  ge z hz hle := by
    obtain ⟨hp, hq⟩ := max_le_iff.1 hle
    rw [Binary64.max]
    split
    · exact hy.ge z hz hq
    · exact hx.ge z hz hp

theorem min (hx : IsFaithful x p) (hy : IsFaithful y q) : IsFaithful (min x y) (Min.min p q) where
  le z hz hle := by
    obtain ⟨hp, hq⟩ := le_min_iff.1 hle
    rw [Binary64.min]
    split
    · exact hy.le z hz hq
    · exact hx.le z hz hp
  ge z hz hle := by
    rw [Binary64.min]
    split
    · rename_i hlt
      rcases min_le_iff.1 hle with hp | hq
      · exact le_trans (le_of_lt hlt) (hx.ge z hz hp)
      · exact hy.ge z hz hq
    · rename_i hlt
      have hxy : x.le y = true := by
        rw [le_eq_not_lt hy.isNaN hx.isNaN]
        simp [hlt]
      rcases min_le_iff.1 hle with hp | hq
      · exact hx.ge z hz hp
      · exact le_trans hxy (hy.ge z hz hq)

end IsFaithful

theorem isFaithful_ofQuotient (k : Nat) :
    IsFaithful (ofQuotient false k 1) (((k : Int) : ℚ) / one) where
  le y hy hle := by
    obtain ⟨l, hl⟩ := exists_units hy
    rw [toRat_of_units hl, div_one_le_iff] at hle
    rcases Int.lt_or_le l 0 with hneg | hpos
    · have hzero : y.le zero = true := (le_iff_units hl rfl).2 hneg.le
      exact le_trans hzero (le_ofQuotient_of_units (x := zero) (k := 0) rfl (Nat.zero_le k))
    · lift l to Nat using hpos
      exact le_ofQuotient_of_units hl (Int.ofNat_le.1 hle)
  ge y hy hle := by
    obtain ⟨l, hl⟩ := exists_units hy
    rw [toRat_of_units hl, div_one_le_iff] at hle
    lift l to Nat using by omega
    exact ofQuotient_le_of_units hl (Int.ofNat_le.1 hle)

theorem ofQuotient_true (n d : Nat) : ofQuotient true n d = -ofQuotient false n d := by
  rw [ofQuotient_eq, ofQuotient_eq, ofUnits, ofUnits]
  split <;> rfl

theorem isFaithful_add (hx : x.isFinite = true) (hy : y.isFinite = true) :
    IsFaithful (x + y) (x.toRat + y.toRat) := by
  obtain ⟨⟨m, hm⟩, ⟨n, hn⟩⟩ := exists_units hx, exists_units hy
  rw [toRat_of_units hm, toRat_of_units hn, ← add_div, ← Int.cast_add]
  rcases add_cases hm hn with ⟨hpos, hsum⟩ | ⟨hneg, hsum⟩ | ⟨hzero, hsum⟩
  · have hfaithful := isFaithful_ofQuotient (m + n).toNat
    rwa [Int.toNat_of_nonneg hpos.le, ← hsum] at hfaithful
  · have hfaithful := (isFaithful_ofQuotient (-(m + n)).toNat).neg
    rwa [Int.toNat_of_nonneg (by omega), ← ofQuotient_true, ← hsum, Int.cast_neg, neg_div,
      neg_neg] at hfaithful
  · have hfaithful := IsFaithful.of_isFinite (isFinite_of_toRat? (toRat?_of_units hsum))
    rwa [toRat_of_units hsum, ← hzero] at hfaithful

theorem isFaithful_sub (hx : x.isFinite = true) (hy : y.isFinite = true) :
    IsFaithful (x - y) (x.toRat - y.toRat) := by
  rw [sub_eq_add_neg, ← toRat_neg hy]
  exact isFaithful_add hx ((isFinite_neg y).trans hy)

/-! ### Sums and differences that are met -/

theorem nearest_eq {u : Nat} (hu : Representable u) : nearest u = u :=
  Nat.le_antisymm (nearest_le hu (Nat.le_refl u)) (le_nearest hu (Nat.le_refl u))

theorem zero_add_finite {u : Nat} (hu : Representable u) :
    zero + finite false u hu = finite false u hu := by
  change add zero (finite false u hu) = _
  rw [zero, add, if_pos rfl, ofQuotient_one, Nat.zero_add, nearest_eq hu,
    ofUnits_of_representable false hu]

theorem isFinite_of_lt (hx : zero.le x = true) (h : x.lt y = true) : x.isFinite = true := by
  rcases units_of_zero_le hx with rfl | ⟨k, hk⟩
  · cases y with
    | nan => cases h
    | infinite s => cases s <;> cases h
    | finite s a _ => cases h
  · exact isFinite_of_toRat? (toRat?_of_units hk)

/-- A number less a smaller one that is not negative is a positive number. -/
theorem exists_sub_eq (hy : zero.le y = true) (hyx : y.lt x = true) (hx : x.isFinite = true) :
    ∃ u, ∃ hu : Representable u, 0 < u ∧ x - y = finite false u hu := by
  rcases units_of_zero_le hy with rfl | ⟨l, hl⟩
  · cases isFinite_of_lt hy hyx
  obtain ⟨m, hm⟩ := exists_units hx
  have hlt : (l : Int) < m := of_decide_eq_true (lt_iff_units hl hm ▸ hyx)
  lift m to Nat using by omega
  have hlow : 1 ≤ nearest ((m : Int) - l).toNat := by
    refine le_nearest ?_ (by omega)
    decide +kernel
  have hhigh : nearest ((m : Int) - l).toNat ≤ m := nearest_le (representable_of_units hm) (by omega)
  have hrepresentable :=
    representable_nearest (Nat.lt_of_le_of_lt hhigh (representable_of_units hm).1)
  refine ⟨_, hrepresentable, hlow, ?_⟩
  rw [sub_eq_ofQuotient hm hl hlt, ofQuotient_one, ofUnits_of_representable false hrepresentable]

end Montage.Binary64
