import Mathlib.Data.List.Perm.Basic
import Montage.Sorting.Sort

/-!
# Sorting keeps all items

Whatever a comparison says, even if it contradicts itself, what `sortBy` gives is a permutation of the
list (`sortBy_perm`): cutting into runs, inserting, galloping and merging lose and double nothing.
-/

open scoped List

namespace Montage.Sorting

variable {α : Type} (below : α → α → Id Bool)

theorem runFrom_append (down : Bool) (last : α) (items : List α) :
    (runFrom below down last items).run.1 ++ (runFrom below down last items).run.2 = items := by
  induction items generalizing last with
  | nil => rfl
  | cons x rest ih =>
    simp only [runFrom, Id.run_bind, bind_pure_comp]
    split
    · simpa using ih x
    · simp

theorem frontRun_perm (items : List α) :
    (frontRun below items).run.1 ++ (frontRun below items).run.2 ~ items := by
  fun_cases frontRun below items with
  | case1 x y rest =>
    have hrest := runFrom_append below (below y x).run y rest
    simp only [Id.run_bind, Id.run_pure]
    generalize (runFrom below (below y x).run y rest).run = found at hrest ⊢
    subst hrest
    split
    · exact (List.reverse_perm _).append_right _
    · exact .refl _
  | case2 items hitems => simp

theorem bisect_le (behind : α → Id Bool) (items : Array α) {steps low high : Nat}
    (h : low ≤ high) : (bisect behind items steps low high).run ≤ high := by
  induction steps generalizing low high with
  | zero => simpa [bisect]
  | succ steps ih =>
    simp only [bisect]
    split
    · simpa
    · split
      · simpa
      · simp only [Id.run_bind]
        split
        · exact Nat.le_trans (ih (by omega)) (by omega)
        · exact ih (by omega)

theorem insertSorted_perm (sorted : List α) (x : α) :
    (insertSorted below sorted x).run ~ x :: sorted := by
  simp only [insertSorted, Id.run_bind, Id.run_pure]
  exact List.perm_insertIdx _ _ (bisect_le _ _ (Nat.zero_le _))

theorem foldlM_insertSorted_perm (run items : List α) :
    (items.foldlM (insertSorted below) run).run ~ run ++ items := by
  induction items generalizing run with
  | nil => simp
  | cons x rest ih =>
    rw [List.foldlM_cons, Id.run_bind]
    calc _ ~ (insertSorted below run x).run ++ rest := ih _
      _ ~ x :: run ++ rest := (insertSorted_perm below run x).append_right rest
      _ ~ run ++ x :: rest := List.perm_middle.symm

theorem runOf_perm (least : Nat) (items : List α) :
    (runOf below least items).run.1 ++ (runOf below least items).run.2 ~ items := by
  simp only [runOf, Id.run_bind, Id.run_pure]
  generalize hfound : (frontRun below items).run = found
  have hfront := frontRun_perm below items
  rw [hfound] at hfront
  obtain ⟨run, left⟩ := found
  generalize least - run.length = missing
  calc _ ~ run ++ left.take missing ++ left.drop missing :=
        (foldlM_insertSorted_perm below run _).append_right _
    _ = run ++ left := by rw [List.append_assoc, List.take_append_drop]
    _ ~ items := hfront


theorem frontRun_ne_nil {items : List α} (hitems : items ≠ []) :
    (frontRun below items).run.1 ≠ [] := by
  fun_cases frontRun below items with
  | case1 x y rest =>
    simp only [Id.run_bind, Id.run_pure]
    split <;> simp
  | case2 items _ => simpa

theorem runOf_ne_nil (least : Nat) {items : List α} (hitems : items ≠ []) :
    (runOf below least items).run.1 ≠ [] := by
  have hfront := frontRun_ne_nil below hitems
  simp only [runOf, Id.run_bind, Id.run_pure]
  generalize (frontRun below items).run = found at hfront ⊢
  intro hnil
  have hinserted := foldlM_insertSorted_perm below found.1 (found.2.take (least - found.1.length))
  rw [hnil] at hinserted
  exact hfront (List.append_eq_nil_iff.1 hinserted.nil_eq.symm).1

/-! ### Merging -/

namespace Merging

variable (s : Merging α)

theorem items_perm : s.items ~ s.left.toList ++ s.right.toList ++ s.taken := by
  unfold items
  split
  · exact List.perm_append_comm.append_right _
  · calc s.taken.reverse ++ s.right.toList ++ s.left.toList
      _ ~ s.left.toList ++ s.right.toList ++ s.taken.reverse := by
        rw [List.append_assoc]
        exact List.perm_append_comm.trans (List.perm_append_comm.append_right _)
      _ ~ s.left.toList ++ s.right.toList ++ s.taken := (List.reverse_perm _).append_left _

theorem extract_append (items : Array α) (n : Nat) :
    (items.extract 0 n).toList ++ (items.extract n items.size).toList = items.toList := by
  have hrest : (items.toList.drop n).length ≤ items.size - n := by simp
  simp [List.take_of_length_le hrest]

/-- What a run gives up, from its front or from its back, is what is taken. -/
theorem extract_perm (items : Array α) (taken : List α) (n : Nat) :
    (items.extract n items.size).toList ++ ((items.extract 0 n).toList.reverse ++ taken) ~
        items.toList ++ taken ∧
      (items.extract 0 n).toList ++ ((items.extract n items.size).toList ++ taken) ~
        items.toList ++ taken := by
  rw [← extract_append items n]
  generalize (items.extract 0 n).toList = front
  generalize (items.extract n items.size).toList = back
  constructor
  · calc back ++ (front.reverse ++ taken)
      _ ~ back ++ (front ++ taken) := ((List.reverse_perm front).append_right _).append_left _
      _ ~ front ++ back ++ taken := by
        rw [← List.append_assoc]
        exact List.perm_append_comm.append_right taken
  · rw [List.append_assoc]

theorem take_perm (side : Side) (n : Nat) : (s.take side n).items ~ s.items := by
  refine (items_perm _).trans (.trans ?_ (items_perm s).symm)
  obtain ⟨fromBack, left, right, taken⟩ := s
  have hleft := extract_perm left taken
  have hright := extract_perm right taken
  have hswap {ls ls' more more' : List α} (h : ls' ++ more' ~ ls ++ more) :
      ls' ++ right.toList ++ more' ~ ls ++ right.toList ++ more := by
    calc ls' ++ right.toList ++ more'
      _ ~ right.toList ++ (ls' ++ more') := by
        rw [← List.append_assoc]
        exact List.perm_append_comm.append_right more'
      _ ~ right.toList ++ (ls ++ more) := h.append_left _
      _ ~ ls ++ right.toList ++ more := by
        rw [← List.append_assoc]
        exact List.perm_append_comm.append_right more
  have hkeep {rs rs' more more' : List α} (h : rs' ++ more' ~ rs ++ more) :
      left.toList ++ rs' ++ more' ~ left.toList ++ rs ++ more := by
    simpa using h.append_left left.toList
  cases fromBack <;> cases side
  · exact hswap (hleft n).1
  · exact hkeep (hright n).1
  · exact hswap (hleft (left.size - n)).2
  · exact hkeep (hright (right.size - n)).2

theorem leap_perm (side : Side) : (s.leap below side).run.2.items ~ s.items := by
  simp only [leap, Id.run_bind, Id.run_pure]
  split
  · exact take_perm s side _
  · exact (take_perm _ _ _).trans (take_perm s side _)

/-- However a merge goes on, it has the same items. -/
theorem walk_leaps_perm (fuel : Nat) :
    (∀ (patience eagerWins otherWins : Nat) (s : Merging α),
      (walk below fuel patience eagerWins otherWins s).run.2.items ~ s.items) ∧
    ∀ (patience : Nat) (s : Merging α), (leaps below fuel patience s).run.2.items ~ s.items := by
  -- Each of the two goes on as the other, with less fuel.
  induction fuel with
  | zero => exact ⟨fun _ _ _ _ => .refl _, fun _ _ => .refl _⟩
  | succ fuel ih =>
    obtain ⟨hwalk, hleaps⟩ := ih
    constructor
    · intro patience eagerWins otherWins s
      have hnext (side : Side) (wins eagerWins otherWins : Nat) :
          (if patience ≤ wins && !(s.take side 1).isOver then
              leaps below fuel patience (s.take side 1)
            else walk below fuel patience eagerWins otherWins (s.take side 1)).run.2.items ~
            s.items := by
        split
        · exact (hleaps _ _).trans (take_perm s side 1)
        · exact (hwalk _ _ _ _).trans (take_perm s side 1)
      simp only [walk]
      split
      · exact .refl _
      · simp only [Id.run_bind]
        split
        · exact hnext _ _ _ _
        · exact hnext _ _ _ _
    · intro patience s
      simp only [leaps, Id.run_bind]
      have hleft := leap_perm below s .left
      split
      · exact hleft
      · simp only [Id.run_bind]
        have hright := (leap_perm below _ .right).trans hleft
        split
        · exact hright
        · split
          · exact (hleaps _ _).trans hright
          · exact (hwalk _ _ _ _).trans hright

theorem finish_perm (patience : Nat) : (s.finish below patience).run.2 ~ s.items := by
  simp only [finish, Id.run_bind, Id.run_pure]
  exact ((walk_leaps_perm below _).1 _ _ _ _).trans (take_perm s _ 1)

end Merging

theorem mergeRuns_perm (patience : Nat) (left right : Array α) :
    (mergeRuns below patience left right).run.2.toList ~ left.toList ++ right.toList := by
  unfold mergeRuns
  split
  · simp only [Id.run_bind]
    generalize (gallop _ left 0 : Id Nat).run = start
    split
    · rename_i last hlast
      simp only [Id.run_bind]
      generalize (gallop _ right _ : Id Nat).run = stop
      split
      · simp
      · simp only [Id.run_bind, Id.run_pure, Array.toList_append]
        have hmerged := Merging.finish_perm below ⟨decide (stop < (left.extract start).size),
          left.extract start, right.extract 0 stop, []⟩ patience
        have hitems := hmerged.trans (Merging.items_perm _)
        simp only [List.append_nil] at hitems
        calc (left.extract 0 start).toList ++ _ ++ (right.extract stop right.size).toList
          _ ~ (left.extract 0 start).toList ++
                ((left.extract start).toList ++ (right.extract 0 stop).toList) ++
              (right.extract stop right.size).toList := (hitems.append_left _).append_right _
          _ = left.toList ++ right.toList := by
            rw [← List.append_assoc, Merging.extract_append, List.append_assoc,
              Merging.extract_append]
    · simp
  · rename_i hnone
    have hempty : right.toList = [] := by
      cases hright : right.toList with
      | nil => rfl
      | cons first rest => exact absurd (by simp [← Array.getElem?_toList, hright]) (hnone first)
    simp [hempty]

/-! ### Runs that wait -/

theorem joinPending_perm (patience : Nat) (left right : Pending α) :
    (joinPending below patience left right).run.2.items.toList ~
      left.items.toList ++ right.items.toList := by
  simp only [joinPending, Id.run_bind, Id.run_pure]
  exact mergeRuns_perm below patience left.items right.items

namespace Waiting

/-- The items of all runs that wait, in the order of the runs. -/
def items (w : Waiting α) : List α := w.runs.reverse.flatMap (·.items.toList)

end Waiting

theorem collapse_perm (depth fuel : Nat) (w : Waiting α) :
    (collapse below depth fuel w).run.items ~ w.items := by
  induction fuel generalizing w with
  | zero => exact .refl _
  | succ fuel ih =>
    unfold collapse
    split
    · rename_i last before rest hruns
      split
      · exact .refl _
      · simp only [Id.run_bind]
        refine (ih _).trans ?_
        simpa [Waiting.items, hruns] using
          (joinPending_perm below w.patience before last).append_left _
    · exact .refl _

theorem Waiting.add_perm (size : Nat) (w : Waiting α) (run : Array α) :
    (w.add below size run).run.items ~ w.items ++ run.toList := by
  unfold Waiting.add
  split
  · rename_i hruns
    simp [Waiting.items, hruns]
  · rename_i last rest hruns
    simp only [Id.run_bind]
    generalize hcollapsed : (collapse below _ _ w).run = collapsed
    have hitems : collapsed.items ~ w.items := hcollapsed ▸ collapse_perm below _ _ w
    refine .trans ?_ (hitems.append_right run.toList)
    split <;> rename_i hruns <;> simp [Waiting.items, hruns]

theorem addRuns_perm {size fuel : Nat} {items : List α} (hfuel : items.length ≤ fuel)
    (w : Waiting α) : (addRuns below size fuel items w).run.items ~ w.items ++ items := by
  induction fuel generalizing items w with
  | zero =>
    obtain rfl : items = [] := List.eq_nil_of_length_eq_zero (by omega)
    simp [addRuns]
  | succ fuel ih =>
    unfold addRuns
    split
    · rename_i hempty
      simp [List.isEmpty_iff.1 hempty]
    · rename_i hitems
      simp only [Id.run_bind]
      have hrun := runOf_perm below (leastRun size) items
      have hfirst := runOf_ne_nil below (leastRun size) (mt List.isEmpty_iff.2 hitems)
      generalize (runOf below (leastRun size) items).run = found at hrun hfirst ⊢
      obtain ⟨run, rest⟩ := found
      have hlength : rest.length ≤ fuel := by
        have hsum := hrun.length_eq
        have hpos := List.length_pos_iff.2 hfirst
        simp only [List.length_append] at hsum hpos
        omega
      refine (ih hlength _).trans ?_
      calc _ ~ w.items ++ run ++ rest := (Waiting.add_perm below size w run.toArray).append_right rest
        _ ~ w.items ++ items := by
          rw [List.append_assoc]
          exact hrun.append_left _

theorem mergeAll_perm (fuel : Nat) (w : Waiting α) : (mergeAll below fuel w).run ~ w.items := by
  induction fuel generalizing w with
  | zero => exact .refl _
  | succ fuel ih =>
    unfold mergeAll
    split
    · rename_i hruns
      simp [Waiting.items, hruns]
    · rename_i run hruns
      simp [Waiting.items, hruns]
    · rename_i last before hruns
      simp only [Id.run_bind]
      refine (ih _).trans ?_
      simpa [Waiting.items, hruns] using joinPending_perm below w.patience before last
    · rename_i last before first rest hruns
      split
      · simp only [Id.run_bind]
        refine (ih _).trans ?_
        simpa [Waiting.items, hruns] using
          ((joinPending_perm below w.patience first before).append_right _).append_left _
      · simp only [Id.run_bind]
        refine (ih _).trans ?_
        simpa [Waiting.items, hruns] using
          ((joinPending_perm below w.patience before last).append_left _).append_left _

/-- Sorting keeps all items, whatever the comparison says. -/
theorem sortBy_perm (items : List α) : (sortBy below items).run ~ items := by
  simp only [sortBy, Id.run_bind]
  refine (mergeAll_perm below _ _).trans ?_
  simpa [Waiting.items] using addRuns_perm below (Nat.le_refl items.length) {}

end Montage.Sorting
