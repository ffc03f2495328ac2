import Mathlib.Algebra.Order.Ring.Nat
import Mathlib.Tactic.Linarith
import Montage.Proofs.Number.Order

/-!
# Rounding to the nearest binary number

A sum of finite numbers is their exact sum, rounded (`Binary64.add_cases`), and rounding does not pass
any number of the format (`Binary64.ofQuotient_le`, `Binary64.le_ofQuotient`). So a bound by a number of
the format holds of the exact sum just when it holds of the rounded one.
-/

namespace Montage

namespace Rounding

variable {n d k : Nat}

theorem halfEven_le (hd : 0 < d) (h : n ≤ k * d) : halfEven n d ≤ k := by
  have hdivision := Nat.div_add_mod n d
  have hquotient : n / d ≤ k := Nat.div_le_of_le_mul (by linarith [Nat.mul_comm k d])
  -- A quotient that is rounded up leaves a rest, and so lies below `k`.
  have hup : d ≤ 2 * (n % d) → n / d + 1 ≤ k := by
    intro hrest
    by_contra hlt
    obtain rfl : k = n / d := by omega
    have hsame : d * (n / d) = n / d * d := Nat.mul_comm _ _
    omega
  simp only [halfEven]
  split
  · exact hquotient
  · split
    · exact hup (by omega)
    · split
      · exact hquotient
      · exact hup (by omega)

theorem le_halfEven (hd : 0 < d) (h : k * d ≤ n) : k ≤ halfEven n d := by
  have hquotient : k ≤ n / d := (Nat.le_div_iff_mul_le hd).2 h
  simp only [halfEven]
  split
  · exact hquotient
  · split
    · omega
    · split <;> omega

end Rounding

theorem Representable.exists_eq {r : Nat} (h : Representable r) {e : Nat} (he : e ≤ r.log2 - 52) :
    ∃ k, r = k * Nat.pow 2 e := by
  obtain ⟨k, hk⟩ := (Nat.pow_dvd_pow 2 he).trans h.2
  exact ⟨k, by rw [hk, Nat.mul_comm]; rfl⟩

namespace Binary64

variable {x y z : Binary64} {m n r : Nat} {hr : Representable r}

/-- The significant bits of a magnitude stand above this power of two. -/
def exponent (n : Nat) : Nat := n.log2 - 52

/-- The magnitude nearest to another one among those with 53 significant bits. -/
def nearest (n : Nat) : Nat :=
  Rounding.halfEven n (Nat.pow 2 (exponent n)) * Nat.pow 2 (exponent n)

theorem ofQuotient_one (negative : Bool) (n : Nat) :
    ofQuotient negative n 1 = ofUnits negative (nearest n) := by
  simp only [ofQuotient, nearest, exponent, Nat.div_one, Nat.one_mul]

theorem log2_le_log2 (h : m ≤ n) : m.log2 ≤ n.log2 := by
  by_cases hm : m = 0
  · simp [hm]
  · exact (Nat.le_log2 (by omega)).2 ((Nat.log2_self_le hm).trans h)

theorem exponent_mono (h : m ≤ n) : exponent m ≤ exponent n := by
  have hlog := log2_le_log2 h
  unfold exponent
  omega

theorem nearest_le (hr : Representable r) (h : n ≤ r) : nearest n ≤ r := by
  obtain ⟨k, hk⟩ := hr.exists_eq (exponent_mono h)
  have hround := Rounding.halfEven_le (Nat.pow_pos Nat.two_pos) (hk ▸ h)
  calc nearest n
    _ ≤ k * Nat.pow 2 (exponent n) := Nat.mul_le_mul_right _ hround
    _ = r := hk.symm

/-- A multiple of the step that is not above a magnitude is not above the nearest one. -/
theorem mul_le_nearest {k : Nat} (h : k * Nat.pow 2 (exponent n) ≤ n) :
    k * Nat.pow 2 (exponent n) ≤ nearest n :=
  Nat.mul_le_mul_right _ (Rounding.le_halfEven (Nat.pow_pos Nat.two_pos) h)

theorem two_pow_eq_mul {e : Nat} (he : exponent n ≤ e) :
    2 ^ e = 2 ^ (e - exponent n) * Nat.pow 2 (exponent n) := by
  change 2 ^ e = 2 ^ (e - exponent n) * 2 ^ exponent n
  rw [← Nat.pow_add]
  congr 1
  omega

theorem nearest_le_two_pow (n : Nat) : nearest n ≤ 2 ^ (n.log2 + 1) := by
  have hsplit : 2 ^ (n.log2 + 1) = _ := two_pow_eq_mul (n := n) (by unfold exponent; omega)
  rw [hsplit]
  refine Nat.mul_le_mul_right _ (Rounding.halfEven_le (Nat.pow_pos Nat.two_pos) ?_)
  exact hsplit ▸ Nat.lt_log2_self.le

theorem le_nearest (hr : Representable r) (h : r ≤ n) : r ≤ nearest n := by
  by_cases hr0 : r = 0
  · omega
  have hn0 : n ≠ 0 := by omega
  rcases Nat.eq_or_lt_of_le (log2_le_log2 h) with hlog | hlog
  · have hexponent : exponent n = exponent r := by rw [exponent, exponent, hlog]
    obtain ⟨k, hk⟩ := hr.exists_eq (Nat.le_of_eq hexponent)
    calc r
      _ = k * Nat.pow 2 (exponent n) := hk
      _ ≤ nearest n := mul_le_nearest (hk ▸ h)
  · -- The highest bit of the larger number alone is above the smaller one, and is kept.
    have hsplit : 2 ^ n.log2 = _ := two_pow_eq_mul (n := n) (by unfold exponent; omega)
    calc r
      _ ≤ 2 ^ (r.log2 + 1) := Nat.lt_log2_self.le
      _ ≤ 2 ^ n.log2 := Nat.pow_le_pow_right (by decide) hlog
      _ ≤ nearest n := by
        rw [hsplit]
        exact mul_le_nearest (hsplit ▸ Nat.log2_self_le hn0)

/-- Rounding leaves 53 significant bits, or a power of two. -/
theorem representable_nearest (hlimit : nearest n < unitLimit) : Representable (nearest n) := by
  refine ⟨hlimit, ?_⟩
  change 2 ^ exponent (nearest n) ∣ nearest n
  rcases Nat.eq_or_lt_of_le (nearest_le_two_pow n) with hpower | hbelow
  rotate_left
  · by_cases hzero : nearest n = 0
    · simp [hzero]
    have hlog : (nearest n).log2 ≤ n.log2 := by
      have := (Nat.log2_lt hzero).2 hbelow
      omega
    have hle : exponent (nearest n) ≤ exponent n := by
      unfold exponent
      omega
    exact (Nat.pow_dvd_pow 2 hle).trans (Dvd.intro_left _ rfl)
  · rw [hpower]
    refine Nat.pow_dvd_pow 2 ?_
    rw [exponent, Nat.log2_two_pow]
    omega


/-! ### Numbers -/

theorem ofQuotient_le (hr : Representable r) (h : n ≤ r) :
    (ofQuotient false n 1).le (finite false r hr) = true := by
  have hnearest := nearest_le hr h
  have hrep := representable_nearest (Nat.lt_of_le_of_lt hnearest hr.1)
  rw [ofQuotient_one, ofUnits, dif_pos hrep]
  simp [le, lt, same]
  omega

theorem le_ofQuotient (hr : Representable r) (h : r ≤ n) :
    (finite false r hr).le (ofQuotient false n 1) = true := by
  have hnearest := le_nearest hr h
  rw [ofQuotient_one, ofUnits]
  split
  · simp [le, lt, same]
    omega
  · rfl

theorem ofQuotient_true_le_zero (n d : Nat) : (ofQuotient true n d).le zero = true := by
  simp only [ofQuotient, ofUnits]
  split
  · simp [le, lt, same, zero]
    omega
  · rfl

/-- The order of finite numbers is that of their values. -/
theorem le_iff_units {m n : Int} (hx : x.toUnits? = some m) (hy : y.toUnits? = some n) :
    x.le y = true ↔ m ≤ n := by
  cases x with
  | nan => cases hx
  | infinite _ => cases hx
  | finite s a _ =>
    cases y with
    | nan => cases hy
    | infinite _ => cases hy
    | finite r b _ =>
      cases s <;> cases r <;> cases hx <;> cases hy <;> simp [le, lt, same] <;> omega

theorem exists_units (hx : x.isFinite = true) : ∃ m, x.toUnits? = some m := by
  cases x with
  | finite s _ _ => cases s <;> exact ⟨_, rfl⟩
  | _ => cases hx

theorem isNaN_of_units {m : Int} (hx : x.toUnits? = some m) : x.isNaN = false := by
  cases x with
  | finite s a _ => rfl
  | _ => cases hx

theorem isNaN_of_le (h : x.le y = true) : x.isNaN = false ∧ y.isNaN = false := by
  cases x <;> cases y <;> first | exact ⟨rfl, rfl⟩ | cases h

theorem le_infinite (hx : x.isNaN = false) : x.le (infinite false) = true := by
  cases x with
  | nan => cases hx
  | infinite s => cases s <;> rfl
  | finite s a _ => rfl

theorem infinite_true_le (hx : x.isNaN = false) : (infinite true).le x = true := by
  cases x with
  | nan => cases hx
  | infinite s => cases s <;> rfl
  | finite s a _ => rfl

/-- Infinity is above everything, minus infinity below it, and nothing compares with `nan`. -/
theorem le_cases (h : x.le y = true) :
    (∃ m n, x.toUnits? = some m ∧ y.toUnits? = some n ∧ m ≤ n) ∨
      (x = infinite true ∧ y.isNaN = false) ∨ (y = infinite false ∧ x.isNaN = false) := by
  by_cases hfinite : x.isFinite = true ∧ y.isFinite = true
  · obtain ⟨⟨m, hm⟩, ⟨n, hn⟩⟩ := exists_units hfinite.1, exists_units hfinite.2
    exact .inl ⟨m, n, hm, hn, (le_iff_units hm hn).1 h⟩
  · obtain ⟨hx, hy⟩ := isNaN_of_le h
    right
    cases x with
    | nan => cases hx
    | infinite s =>
      cases s with
      | true => exact .inl ⟨rfl, hy⟩
      | false => cases y <;> simp_all [le, lt, same]
    | finite s a ha =>
      cases y with
      | nan => cases hy
      | infinite r => cases r <;> simp_all [le, lt, same]
      | finite r b hb => exact (hfinite ⟨rfl, rfl⟩).elim

theorem le_trans (hxy : x.le y = true) (hyz : y.le z = true) : x.le z = true := by
  rcases le_cases hxy with ⟨m, n, hm, hn, hmn⟩ | ⟨rfl, -⟩ | ⟨rfl, hx⟩
  · rcases le_cases hyz with ⟨n', k, hn', hk, hnk⟩ | ⟨rfl, -⟩ | ⟨rfl, -⟩
    · obtain rfl := Option.some.inj (hn.symm.trans hn')
      exact (le_iff_units hm hk).2 (hmn.trans hnk)
    · cases hn
    · exact le_infinite (isNaN_of_units hm)
  · exact infinite_true_le (isNaN_of_le hyz).2
  · rcases le_cases hyz with ⟨_, _, hn, -, -⟩ | ⟨hinfinite, -⟩ | ⟨rfl, -⟩
    · cases hn
    · cases hinfinite
    · exact le_infinite hx

theorem ofQuotient_zero (negative : Bool) : (ofQuotient negative 0 1).toUnits? = some 0 := by
  have hnearest : nearest 0 = 0 := Nat.le_zero.1 (nearest_le representable_zero (Nat.le_refl 0))
  rw [ofQuotient_one, hnearest, ofUnits, dif_pos representable_zero]
  cases negative <;> rfl

theorem le_max_left (h : x.le y = true) : x.le (max y z) = true := by
  rw [Binary64.max]
  split
  · rename_i hlt
    exact le_trans h (by simp [le, hlt])
  · exact h

theorem le_max_right (hy : y.isNaN = false) (h : x.le z = true) : x.le (max y z) = true := by
  rw [Binary64.max]
  split
  · exact h
  · rename_i hlt
    have hzy : z.le y = true := by
      rw [le_eq_not_lt hy (isNaN_of_le h).2]
      simp [hlt]
    exact le_trans h hzy

/-- The sum of finite numbers is their exact sum, rounded; a sum of zero has either sign. -/
theorem add_cases {m n : Int} (hx : x.toUnits? = some m) (hy : y.toUnits? = some n) :
    (0 < m + n ∧ x + y = ofQuotient false (m + n).toNat 1) ∨
      (m + n < 0 ∧ x + y = ofQuotient true (-(m + n)).toNat 1) ∨
      (m + n = 0 ∧ (x + y).toUnits? = some 0) := by
  cases x with
  | nan => cases hx
  | infinite _ => cases hx
  | finite s a _ =>
    cases y with
    | nan => cases hy
    | infinite _ => cases hy
    | finite r b _ =>
      change (_ ∧ add _ _ = _) ∨ (_ ∧ add _ _ = _) ∨ (_ ∧ (add _ _).toUnits? = _)
      -- Terms of one sign add up; of two signs the smaller magnitude is taken off the larger.
      cases s <;> cases r <;> cases hx <;> cases hy
      · rw [add, if_pos rfl]
        rcases Nat.eq_zero_or_pos (a + b) with hzero | hpos
        · exact .inr (.inr ⟨by omega, by rw [hzero, ofQuotient_zero]⟩)
        · exact .inl ⟨by omega, rfl⟩
      · rw [add, if_neg (by decide)]
        split
        · exact .inr (.inr ⟨by omega, rfl⟩)
        · split
          · exact .inr (.inl ⟨by omega, by congr 1; omega⟩)
          · exact .inl ⟨by omega, by congr 1; omega⟩
      · rw [add, if_neg (by decide)]
        split
        · exact .inr (.inr ⟨by omega, rfl⟩)
        · split
          · exact .inl ⟨by omega, by congr 1; omega⟩
          · exact .inr (.inl ⟨by omega, by congr 1; omega⟩)
      · rw [add, if_pos rfl]
        rcases Nat.eq_zero_or_pos (a + b) with hzero | hpos
        · exact .inr (.inr ⟨by omega, by rw [hzero, ofQuotient_zero]⟩)
        · exact .inr (.inl ⟨by omega, by congr 1; omega⟩)

theorem toUnits?_neg {m : Int} (hx : x.toUnits? = some m) : (-x).toUnits? = some (-m) := by
  change (neg x).toUnits? = _
  cases x with
  | finite s a _ => cases s <;> cases hx <;> simp [neg, toUnits?]
  | _ => cases hx

/-! ### Numbers that are not negative -/

theorem units_of_zero_le (hx : zero.le x = true) :
    x = infinite false ∨ ∃ k : Nat, x.toUnits? = some (k : Int) := by
  cases x with
  | nan => cases hx
  | infinite s => cases s <;> first | exact .inl rfl | cases hx
  | finite s a _ =>
    right
    cases s with
    | false => exact ⟨a, rfl⟩
    | true =>
      obtain ⟨m, hm⟩ : ∃ m : Int, (finite true a ‹_›).toUnits? = some m := ⟨_, rfl⟩
      have hnonneg := (le_iff_units (show zero.toUnits? = some 0 from rfl) hm).1 hx
      exact ⟨m.toNat, by rw [hm, Int.toNat_of_nonneg hnonneg]⟩

theorem isFinite_of_le (hx : zero.le x = true) (hxy : x.le y = true) (hy : y.isFinite = true) :
    x.isFinite = true := by
  rcases units_of_zero_le hx with rfl | ⟨k, hk⟩
  · cases y with
    | finite s a _ => simp [le, lt, same] at hxy
    | _ => cases hy
  · cases x with
    | finite s a _ => rfl
    | _ => cases hk

theorem representable_of_units {k : Nat} (hx : x.toUnits? = some (k : Int)) : Representable k := by
  cases x with
  | finite s a ha =>
    cases s with
    | false => 
      cases hx
      exact ha
    | true =>
      have hzero : k = 0 := by
        simp only [toUnits?, Option.some.injEq] at hx
        omega
      exact hzero ▸ representable_zero
  | _ => cases hx

theorem le_ofQuotient_of_units {k : Nat} (hx : x.toUnits? = some (k : Int)) (h : k ≤ n) :
    x.le (ofQuotient false n 1) = true :=
  le_trans ((le_iff_units hx (show (finite false k (representable_of_units hx)).toUnits? = _ from rfl)).2
    (Int.le_refl _)) (le_ofQuotient _ h)

theorem ofQuotient_le_of_units {k : Nat} (hx : x.toUnits? = some (k : Int)) (h : n ≤ k) :
    (ofQuotient false n 1).le x = true :=
  le_trans (ofQuotient_le (representable_of_units hx) h)
    ((le_iff_units rfl hx).2 (Int.le_refl _))

theorem ofQuotient_le_infinite (negative : Bool) (n d : Nat) :
    (ofQuotient negative n d).le (infinite false) = true := by
  refine le_infinite ?_
  simp only [ofQuotient, ofUnits]
  split <;> rfl

theorem sub_eq_ofQuotient {m n : Int} (hx : x.toUnits? = some m) (hy : y.toUnits? = some n)
    (hlt : n < m) : x - y = ofQuotient false (m - n).toNat 1 := by
  rcases add_cases hx (toUnits?_neg hy) with ⟨-, h⟩ | ⟨hneg, -⟩ | ⟨hzero, -⟩
  · exact h
  · omega
  · omega

theorem sub_le_zero {m n : Int} (hx : x.toUnits? = some m) (hy : y.toUnits? = some n)
    (hle : m ≤ n) : (x - y).le zero = true := by
  change (x + -y).le zero = true
  rcases add_cases hx (toUnits?_neg hy) with ⟨hpos, -⟩ | ⟨-, h⟩ | ⟨-, h⟩
  · omega
  · exact h ▸ ofQuotient_true_le_zero _ _
  · exact (le_iff_units h rfl).2 (Int.le_refl 0)

/-- What lies further behind `e` than `g` also lies at least `p` behind it, if `p` is at most `g`. -/
theorem le_sub_of_not_sub_le {e p g : Binary64} (hx : x.isFinite = true) (he : zero.le e = true)
    (hp : zero.le p = true) (hpg : p.le g = true) (hgap : (x - e).le g = false) :
    e.le (x - p) = true := by
  have hfar : (x - e).le p = true → False := fun hnear => by simp [le_trans hnear hpg] at hgap
  obtain ⟨m, hm⟩ := exists_units hx
  rcases units_of_zero_le he with rfl | ⟨k, hk⟩
  · have hsub : x - infinite false = infinite true := by
      cases x with
      | finite s a _ => rfl
      | _ => cases hx
    refine (hfar (le_trans ?_ hp)).elim
    rw [hsub]
    rfl
  by_cases hkm : m ≤ k
  · exact (hfar (le_trans (sub_le_zero hm hk hkm) hp)).elim
  have hexact := sub_eq_ofQuotient hm hk (by omega)
  rcases units_of_zero_le hp with rfl | ⟨l, hl⟩
  · exact (hfar (hexact ▸ ofQuotient_le_infinite _ _ _)).elim
  by_cases hnear : m - k ≤ l
  · exact (hfar (hexact ▸ ofQuotient_le_of_units hl (by omega))).elim
  · rw [sub_eq_ofQuotient hm hl (by omega)]
    exact le_ofQuotient_of_units hk (by omega)

theorem le_add_of_zero_le {p : Binary64} (hx : x.isFinite = true) (hx0 : zero.le x = true)
    (hp : zero.le p = true) : p.le (x + p) = true := by
  rcases units_of_zero_le hp with rfl | ⟨l, hl⟩
  · cases x with
    | finite s a _ => rfl
    | _ => cases hx
  rcases units_of_zero_le hx0 with rfl | ⟨m, hm⟩
  · cases hx
  rcases add_cases hm hl with ⟨hpos, h⟩ | ⟨hneg, -⟩ | ⟨hzero, h⟩
  · rw [h]
    exact le_ofQuotient_of_units hl (by omega)
  · omega
  · exact (le_iff_units hl h).2 (by omega)

end Binary64

end Montage
