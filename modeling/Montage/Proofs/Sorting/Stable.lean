import Montage.Proofs.Sorting.Merging
import Montage.Proofs.Sorting.Permutation

/-!
# Sorting is stable

By a comparison of keys, `sortBy` gives what merge sort gives (`sortBy_eq_mergeSort`): every run is
sorted, and items with the same key keep their order when a run is turned round, when items are
inserted into it, and when runs are merged.
-/

namespace Montage.Sorting

variable {α κ : Type} [LinearOrder κ] {key : α → κ} {below : α → α → Id Bool}
  {items xs ys : List α}

/-! ### Runs -/

/-- What a run has of its items is in order, and what is left follows. -/
structure IsCutOff (key : α → κ) (items : List α) (found : List α × List α) : Prop where
  isSorted : IsSorted key found.1
  sameTies : SameTies key (found.1 ++ found.2) items

theorem sameTies_reverse (h : xs.Pairwise fun x y => key y < key x) :
    SameTies key xs.reverse xs := by
  intro k
  have hclass := h.filter (key · = k)
  rw [List.filter_reverse]
  -- A class in a list that goes down has no two items.
  match hfilter : xs.filter (key · = k), hclass with
  | [], _ => rfl
  | [x], _ => rfl
  | x :: y :: rest, hclass =>
    have hkey : ∀ z ∈ x :: y :: rest, key z = k := fun z hz => by
      rw [← hfilter] at hz
      exact of_decide_eq_true (List.mem_filter.1 hz).2
    have hlt : key y < key x := (List.pairwise_cons.1 hclass).1 y List.mem_cons_self
    rw [hkey x List.mem_cons_self, hkey y (List.mem_cons_of_mem _ List.mem_cons_self)] at hlt
    exact absurd hlt (lt_irrefl k)

theorem insertIdx_length (xs ys : List α) (x : α) :
    (xs ++ ys).insertIdx xs.length x = xs ++ x :: ys := by
  induction xs with
  | nil => rfl
  | cons y xs ih => exact congrArg (y :: ·) ih

variable (horders : Orders below key items)
include horders

theorem runFrom_isChain {last : α} (hlast : last ∈ items) (hxs : xs ⊆ items) (down : Bool) :
    (last :: (runFrom below down last xs).run.1).IsChain fun x y => decide (key y < key x) = down := by
  induction xs generalizing last with
  | nil => exact .singleton _
  | cons x rest ih =>
    obtain ⟨hx, hrest⟩ := List.cons_subset.1 hxs
    simp only [runFrom, Id.run_bind, horders x hx last hlast]
    split
    · rename_i hdown
      exact List.isChain_cons_cons.2 ⟨hdown, ih hx hrest⟩
    · exact .singleton _

theorem frontRun_isCutOff (hxs : xs ⊆ items) : IsCutOff key xs (frontRun below xs).run := by
  fun_cases frontRun below xs with
  | case1 x y rest =>
    obtain ⟨hx, hyrest⟩ := List.cons_subset.1 hxs
    obtain ⟨hy, hrest⟩ := List.cons_subset.1 hyrest
    have hchain := runFrom_isChain horders hy hrest (decide (key y < key x))
    have happend := runFrom_append below (decide (key y < key x)) y rest
    simp only [Id.run_bind, Id.run_pure, horders y hy x hx]
    generalize (runFrom below (decide (key y < key x)) y rest).run = found at hchain happend ⊢
    obtain ⟨run, left⟩ := found
    have hrun : (x :: y :: run).IsChain fun x' y' => decide (key y' < key x') = decide (key y < key x) :=
      List.isChain_cons_cons.2 ⟨rfl, hchain⟩
    cases hdown : decide (key y < key x) with
    | true =>
      have hpairwise : (x :: y :: run).Pairwise fun x y => key y < key x := by
        refine List.isChain_iff_pairwise.1 (hrun.imp fun x y h => ?_)
        exact of_decide_eq_true (h.trans hdown)
      refine ⟨List.pairwise_reverse.2 (hpairwise.imp le_of_lt), ?_⟩
      have hsame := (sameTies_reverse hpairwise).append (SameTies.refl left)
      rwa [List.cons_append, List.cons_append, happend] at hsame
    | false =>
      have hpairwise : (x :: y :: run).Pairwise fun x y => key x ≤ key y := by
        refine List.isChain_iff_pairwise.1 (hrun.imp fun x y h => ?_)
        exact not_lt.1 (of_decide_eq_false (h.trans hdown))
      refine ⟨hpairwise, ?_⟩
      change SameTies key (x :: y :: run ++ left) (x :: y :: rest)
      rw [List.cons_append, List.cons_append, happend]
      exact .refl _
  | case2 xs hshort =>
    have hsame : SameTies key (xs ++ []) xs := by
      rw [List.append_nil]
      exact .refl xs
    refine ⟨?_, hsame⟩
    rcases xs with _ | ⟨x, _ | ⟨y, rest⟩⟩
    · exact .nil
    · exact List.pairwise_singleton _ x
    · exact absurd rfl (hshort x y rest)

theorem insertSorted_eq {x : α} (hx : x ∈ items) (hxs : xs ⊆ items) (hsorted : IsSorted key xs) :
    (insertSorted below xs x).run = merged key xs [x] := by
  obtain ⟨before, after, rfl, hbefore, hafter, hborder⟩ := exists_border
    (fun y => decide (key x < key y)) (fun y hy => horders x hx y (hxs hy))
    (hsorted.imp fun hxy hx => decide_eq_true (lt_of_lt_of_le (of_decide_eq_true hx) hxy))
  have hplace := hborder.bisect_eq (Nat.zero_le _) hborder.le_size (Nat.le_refl _)
    (Nat.le_of_eq (Nat.sub_zero _))
  rw [List.size_toArray] at hplace
  have hleft : ∀ y ∈ before, ∀ z ∈ [x].head?, key y ≤ key z := by
    rintro y hy z ⟨⟩
    exact not_lt.1 (of_decide_eq_false (hbefore y hy))
  have hright : ∀ z ∈ [x], ∀ y ∈ after, key z < key y := by
    intro z hz y hy
    rw [List.mem_singleton.1 hz]
    exact of_decide_eq_true (hafter y hy)
  simp only [insertSorted, Id.run_bind, Id.run_pure, hplace]
  rw [merged_append_left hleft, merged_eq_append hright, insertIdx_length]
  rfl

/-- Items are inserted behind those with the same key. -/
theorem insertAll_isCutOff {run more : List α} (hrun : run ⊆ items) (hmore : more ⊆ items)
    (hsorted : IsSorted key run) :
    IsSorted key (more.foldlM (insertSorted below) run).run ∧
      SameTies key (more.foldlM (insertSorted below) run).run (run ++ more) := by
  induction more generalizing run with
  | nil =>
    rw [List.append_nil]
    exact ⟨hsorted, .refl run⟩
  | cons x more ih =>
    obtain ⟨hx, hmore⟩ := List.cons_subset.1 hmore
    rw [List.foldlM_cons, Id.run_bind, insertSorted_eq horders hx hrun hsorted]
    have hmerged : IsSorted key (merged key run [x]) :=
      merged_isSorted hsorted (List.pairwise_singleton _ x)
    have hsubset : merged key run [x] ⊆ items := fun y hy => by
      rcases mem_merged.1 hy with hy | hy
      · exact hrun hy
      · exact List.mem_singleton.1 hy ▸ hx
    obtain ⟨hall, hsame⟩ := ih hsubset hmore hmerged
    have hties := (merged_sameTies hsorted [x]).append (SameTies.refl more)
    rw [List.append_assoc] at hties
    exact ⟨hall, hsame.trans hties⟩

theorem runOf_isCutOff (least : Nat) (hxs : xs ⊆ items) :
    IsCutOff key xs (runOf below least xs).run := by
  obtain ⟨hsorted, hsame⟩ := frontRun_isCutOff horders hxs
  simp only [runOf, Id.run_bind, Id.run_pure]
  generalize (frontRun below xs).run = found at hsorted hsame ⊢
  obtain ⟨run, left⟩ := found
  have hitems : run ++ left ⊆ items := fun x hx => hxs (hsame.mem_iff.1 hx)
  obtain ⟨hrun, hleft⟩ := List.append_subset.1 hitems
  generalize least - run.length = missing
  obtain ⟨hall, hties⟩ := insertAll_isCutOff horders hrun
    (List.Subset.trans (List.take_subset missing left) hleft) hsorted
  refine ⟨hall, (hties.append (SameTies.refl _)).trans ?_⟩
  rw [List.append_assoc, List.take_append_drop]
  exact hsame

/-! ### Runs that wait -/

theorem joinPending_eq (patience : Nat) {left right : Pending α}
    (hleft : IsSorted key left.items.toList) (hright : IsSorted key right.items.toList)
    (hleftItems : left.items.toList ⊆ items) (hrightItems : right.items.toList ⊆ items) :
    (joinPending below patience left right).run.2.items.toList =
      merged key left.items.toList right.items.toList := by
  simp only [joinPending, Id.run_bind, Id.run_pure]
  exact mergeRuns_eq horders patience hleft hright hleftItems hrightItems

omit horders

/-- Runs that wait, all of them in order and of some items. -/
def Waiting.IsReady (key : α → κ) (items : List α) (w : Waiting α) : Prop :=
  ∀ run ∈ w.runs, IsSorted key run.items.toList ∧ run.items.toList ⊆ items

/-- A step that leaves sorted runs and keeps ties. -/
structure Keeps (key : α → κ) (items : List α) (w w' : Waiting α) : Prop where
  isReady : w'.IsReady key items
  sameTies : SameTies key w'.items w.items

theorem Keeps.trans {w w' w'' : Waiting α} (h : Keeps key items w w') (h' : Keeps key items w' w'') :
    Keeps key items w w'' :=
  ⟨h'.isReady, h'.sameTies.trans h.sameTies⟩

include horders

/-- Two neighbours among the runs that wait are joined. -/
theorem Waiting.IsReady.join (front : List (Pending α)) {rest : List (Pending α)}
    {last before : Pending α} {patience : Nat}
    (h : Waiting.IsReady key items ⟨front ++ last :: before :: rest, patience⟩) (patience' : Nat) :
    Keeps key items ⟨front ++ last :: before :: rest, patience⟩
      ⟨front ++ (joinPending below patience before last).run.2 :: rest, patience'⟩ := by
  obtain ⟨hlast, hlastItems⟩ := h last (by simp)
  obtain ⟨hbefore, hbeforeItems⟩ := h before (by simp)
  have hjoined := joinPending_eq horders patience hbefore hlast hbeforeItems hlastItems
  generalize (joinPending below patience before last).run.2 = joined at hjoined
  constructor
  · intro run hrun
    rcases List.mem_append.1 hrun with hfront | hrun
    · exact h run (List.mem_append_left _ hfront)
    · rcases List.mem_cons.1 hrun with rfl | hrest
      · rw [hjoined]
        refine ⟨merged_isSorted hbefore hlast, fun x hx => ?_⟩
        exact (mem_merged.1 hx).elim (hbeforeItems ·) (hlastItems ·)
      · exact h run (by simp [hrest])
  · have hties := merged_sameTies hbefore last.items.toList
    rw [← hjoined] at hties
    have hall := ((SameTies.refl (rest.reverse.flatMap (·.items.toList))).append hties).append
      (SameTies.refl (front.reverse.flatMap (·.items.toList)))
    simpa [Waiting.items] using hall

theorem collapse_keeps (depth fuel : Nat) {w : Waiting α} (h : w.IsReady key items) :
    Keeps key items w (collapse below depth fuel w).run := by
  induction fuel generalizing w with
  | zero => exact ⟨h, .refl _⟩
  | succ fuel ih =>
    obtain ⟨runs, patience⟩ := w
    unfold collapse
    split
    · rename_i last before rest hruns
      obtain rfl : runs = last :: before :: rest := hruns
      split
      · exact ⟨h, .refl _⟩
      · simp only [Id.run_bind]
        have hjoin := Waiting.IsReady.join horders [] h
          (joinPending below patience before last).run.1
        exact hjoin.trans (ih hjoin.isReady)
    · exact ⟨h, .refl _⟩

theorem Waiting.add_keeps (size : Nat) {w : Waiting α} (h : w.IsReady key items) {run : List α}
    (hrun : IsSorted key run) (hrunItems : run ⊆ items) :
    (w.add below size run.toArray).run.IsReady key items ∧
      SameTies key (w.add below size run.toArray).run.items (w.items ++ run) := by
  unfold Waiting.add
  split
  · rename_i hruns
    constructor
    · intro pending hpending
      rw [List.mem_singleton.1 hpending]
      exact ⟨hrun, hrunItems⟩
    · simpa [Waiting.items, hruns] using SameTies.refl run
  · rename_i last rest hruns
    simp only [Id.run_bind]
    generalize hcollapsed : (collapse below _ _ w).run = collapsed
    obtain ⟨hready, hsame⟩ : Keeps key items w collapsed :=
      hcollapsed ▸ collapse_keeps horders _ _ h
    have hall := hsame.append (SameTies.refl run)
    split
    · rename_i last' rest' hruns'
      constructor
      · intro pending hpending
        rcases List.mem_cons.1 hpending with rfl | hpending
        · exact ⟨hrun, hrunItems⟩
        · rcases List.mem_cons.1 hpending with rfl | hpending
          · exact hready last' (by simp [hruns'])
          · exact hready pending (by simp [hruns', hpending])
      · simpa [Waiting.items, hruns'] using hall
    · rename_i hruns'
      constructor
      · intro pending hpending
        rw [List.mem_singleton.1 hpending]
        exact ⟨hrun, hrunItems⟩
      · simpa [Waiting.items, hruns'] using hall

theorem addRuns_keeps {size fuel : Nat} (hfuel : xs.length ≤ fuel) (hxs : xs ⊆ items)
    {w : Waiting α} (h : w.IsReady key items) :
    (addRuns below size fuel xs w).run.IsReady key items ∧
      SameTies key (addRuns below size fuel xs w).run.items (w.items ++ xs) := by
  induction fuel generalizing xs w with
  | zero =>
    obtain rfl : xs = [] := List.eq_nil_of_length_eq_zero (by omega)
    refine ⟨h, ?_⟩
    rw [List.append_nil]
    exact .refl _
  | succ fuel ih =>
    unfold addRuns
    split
    · rename_i hempty
      obtain rfl := List.isEmpty_iff.1 hempty
      refine ⟨h, ?_⟩
      rw [List.append_nil]
      exact .refl _
    · rename_i hsome
      obtain ⟨hsorted, hsame⟩ := runOf_isCutOff horders (leastRun size) hxs
      -- A run is never empty, which is why the fuel is enough for what it leaves.
      have hfirst := runOf_ne_nil below (leastRun size) (mt List.isEmpty_iff.2 hsome)
      have hlength := (runOf_perm below (leastRun size) xs).length_eq
      simp only [Id.run_bind]
      generalize (runOf below (leastRun size) xs).run = found at hsorted hsame hfirst hlength ⊢
      obtain ⟨run, rest⟩ := found
      have hshorter : rest.length ≤ fuel := by
        have hpos := List.length_pos_iff.2 hfirst
        simp only [List.length_append] at hlength hpos
        omega
      have hfound : run ++ rest ⊆ items := fun x hx => hxs (hsame.mem_iff.1 hx)
      obtain ⟨hrunItems, hrestItems⟩ := List.append_subset.1 hfound
      obtain ⟨hadded, hties⟩ := Waiting.add_keeps horders size h hsorted hrunItems
      obtain ⟨hready, hall⟩ := ih hshorter hrestItems hadded
      have hwhole : SameTies key (w.items ++ run ++ rest) (w.items ++ xs) := by
        rw [List.append_assoc]
        exact (SameTies.refl w.items).append hsame
      exact ⟨hready, hall.trans ((hties.append (SameTies.refl rest)).trans hwhole)⟩

theorem mergeAll_isSorted {fuel : Nat} {w : Waiting α} (hfuel : w.runs.length ≤ fuel)
    (h : w.IsReady key items) :
    IsSorted key (mergeAll below fuel w).run ∧ SameTies key (mergeAll below fuel w).run w.items := by
  induction fuel generalizing w with
  | zero =>
    obtain ⟨runs, patience⟩ := w
    obtain rfl : runs = [] := List.eq_nil_of_length_eq_zero (Nat.le_zero.1 hfuel)
    exact ⟨.nil, .refl _⟩
  | succ fuel ih =>
    -- Whichever two runs are joined in a round, one fewer waits after it.
    have hnext {w' : Waiting α} (hfewer : w'.runs.length ≤ fuel) (hkeeps : Keeps key items w w') :
        IsSorted key (mergeAll below fuel w').run ∧
          SameTies key (mergeAll below fuel w').run w.items := by
      obtain ⟨hsorted, hsame⟩ := ih hfewer hkeeps.isReady
      exact ⟨hsorted, hsame.trans hkeeps.sameTies⟩
    obtain ⟨runs, patience⟩ := w
    unfold mergeAll
    split
    · rename_i hruns
      obtain rfl : runs = [] := hruns
      exact ⟨.nil, .refl _⟩
    · rename_i run hruns
      obtain rfl : runs = [run] := hruns
      refine ⟨(h run (by simp)).1, ?_⟩
      simpa [Waiting.items] using SameTies.refl run.items.toList
    · rename_i last before hruns
      obtain rfl : runs = [last, before] := hruns
      simp only [Id.run_bind]
      exact hnext (by simpa using hfuel) (Waiting.IsReady.join horders [] h _)
    · rename_i last before first rest hruns
      obtain rfl : runs = last :: before :: first :: rest := hruns
      simp only [List.length_cons] at hfuel
      split
      · simp only [Id.run_bind]
        exact hnext (by simpa using hfuel) (Waiting.IsReady.join horders [last] h _)
      · simp only [Id.run_bind]
        exact hnext (by simpa using hfuel) (Waiting.IsReady.join horders [] h _)

/-- By a comparison of keys, sorting gives the stable order. -/
theorem sortBy_eq_mergeSort : (sortBy below items).run = items.mergeSort (atMost key) := by
  have hnone : Waiting.IsReady key items {} := nofun
  obtain ⟨hready, hsame⟩ := addRuns_keeps horders (Nat.le_refl items.length)
    (List.Subset.refl items) hnone
  obtain ⟨hsorted, hall⟩ := mergeAll_isSorted horders (Nat.le_refl _) hready
  simp only [sortBy, Id.run_bind]
  exact eq_mergeSort (hall.trans hsame) hsorted

end Montage.Sorting
