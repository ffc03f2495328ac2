import Montage.Graph.Statement

/-!
# The order of binary numbers

Two numbers are ordered one way or the other (`Binary64.le_eq_not_lt`), so that a window, which
tests that a time is not before its start, holds what its start is not after (`contains_span`). What
is not a number is in no window. Taking the greater number again and again comes to one that is below
none of them (`foldl_max_not_lt`).
-/

namespace Montage.Binary64

theorem nan_add (x : Binary64) : nan + x = nan := rfl

theorem lt_nan (x : Binary64) : x.lt nan = false := by cases x <;> rfl

theorem le_nan (x : Binary64) : x.le nan = false := by cases x <;> rfl

theorem nan_lt (x : Binary64) : nan.lt x = false := rfl

theorem nan_le (x : Binary64) : nan.le x = false := rfl

/-- Of two numbers, one is at most the other unless that one is below it. -/
theorem le_eq_not_lt {x y : Binary64} (hx : x.isNaN = false) (hy : y.isNaN = false) :
    y.le x = !x.lt y := by
  cases x with
  | nan => cases hx
  | infinite s =>
    cases y with
    | nan => cases hy
    | infinite r => cases s <;> cases r <;> rfl
    | finite r b _ => cases s <;> rfl
  | finite s a _ =>
    cases y with
    | nan => cases hy
    | infinite r => cases r <;> rfl
    | finite r b _ =>
      rw [Bool.eq_iff_iff]
      cases s <;> cases r <;> simp [le, lt, same] <;> omega

theorem lt_irrefl (x : Binary64) : x.lt x = false := by
  cases x with
  | nan => rfl
  | infinite s => cases s <;> rfl
  | finite s a _ => cases s <;> simp [lt]

theorem lt_trans {x y z : Binary64} (hxy : x.lt y = true) (hyz : y.lt z = true) :
    x.lt z = true := by
  cases x <;> cases y <;> cases z <;> simp_all [lt]
  · -- Of three finite numbers the signs decide, and magnitudes where signs agree.
    rename_i s a _ r b _ q c _
    cases s <;> cases r <;> cases q <;> simp_all <;> omega

/-- Nothing that a maximum is taken over is above it. -/
theorem foldl_max_not_lt {xs : List Binary64} {m x : Binary64} (hx : m.lt x = false ∨ x ∈ xs) :
    (xs.foldl max m).lt x = false := by
  induction xs generalizing m with
  | nil => exact hx.resolve_right List.not_mem_nil
  | cons y ys ih =>
    refine ih ?_
    have hkeep (hm : m.lt x = false) : (max m y).lt x = false := by
      rw [max]
      split
      · rename_i hmy
        refine Bool.eq_false_iff.2 fun hyx => ?_
        rw [lt_trans hmy hyx] at hm
        cases hm
      · exact hm
    have hfirst : (max m y).lt y = false := by
      rw [max]
      split
      · exact lt_irrefl y
      · rename_i hmy
        exact Bool.eq_false_iff.2 hmy
    rcases hx with hm | hx
    · exact .inl (hkeep hm)
    · rcases List.mem_cons.1 hx with rfl | hx
      · exact .inl hfirst
      · exact .inr hx

theorem foldl_max_eq_self {xs : List Binary64} {m : Binary64} (h : ∀ x ∈ xs, m.lt x = false) :
    xs.foldl max m = m := by
  induction xs with
  | nil => rfl
  | cons x xs ih =>
    obtain ⟨hx, hxs⟩ := List.forall_mem_cons.1 h
    rw [List.foldl_cons, max, hx, if_neg (by simp), ih hxs]

end Montage.Binary64

namespace Montage.Graph

open Binary64

/-- A window that spans a duration holds the times between its ends. -/
theorem contains_span (start duration time : Binary64) (closed : Bool) :
    Window.contains ⟨start, start + duration, closed⟩ time =
      (start.le time &&
        if closed then time.le (start + duration) else time.lt (start + duration)) := by
  cases htime : time.isNaN with
  | true =>
    obtain rfl : time = nan := by cases time <;> first | rfl | cases htime
    rw [le_nan, Window.contains, nan_lt, nan_le, nan_lt]
    cases closed <;> rfl
  | false =>
    cases hstart : start.isNaN with
    | true =>
      obtain rfl : start = nan := by cases start <;> first | rfl | cases hstart
      rw [nan_add, nan_le, Window.contains, lt_nan, le_nan]
      cases closed <;> rfl
    | false =>
      rw [le_eq_not_lt htime hstart, Window.contains]
      cases time.lt start <;> cases closed <;> rfl

end Montage.Graph
