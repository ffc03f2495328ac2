import Montage.Proofs.Sorting.Order
import Montage.Proofs.Sorting.Search

/-!
# Merging two runs

However a merge walks and gallops, it ends with the two runs merged (`mergeRuns_eq`): what it has
taken and what is still to merge are together the same at each step (`Merging.whole`), because every
block that it takes comes before all that is left.
-/

namespace Montage.Sorting

variable {α κ : Type} [LinearOrder κ] {key : α → κ} {below : α → α → Id Bool}
  {items xs ys : List α}

/-- A comparison that compares the keys of some items. -/
def Orders (below : α → α → Id Bool) (key : α → κ) (items : List α) : Prop :=
  ∀ x ∈ items, ∀ y ∈ items, (below x y).run = decide (key x < key y)

/-- A test that stays true once it is true cuts a list in two. -/
theorem exists_border {behind : α → Id Bool} (p : α → Bool)
    (hbehind : ∀ x ∈ xs, (behind x).run = p x)
    (hmono : xs.Pairwise fun x y => p x = true → p y = true) :
    ∃ before after, xs = before ++ after ∧ (∀ x ∈ before, p x = false) ∧
      (∀ x ∈ after, p x = true) ∧ IsBorder behind xs.toArray before.length := by
  have hbefore : ∀ x ∈ xs.takeWhile (!p ·), p x = false := fun x hx => by
    simpa using List.all_eq_true.1 List.all_takeWhile x hx
  have hafter : ∀ x ∈ xs.dropWhile (!p ·), p x = true := by
    have hpairwise := hmono.sublist (List.dropWhile_sublist (!p ·))
    cases hdrop : xs.dropWhile (!p ·) with
    | nil => exact nofun
    | cons x rest =>
      have hx : p x = true := by
        have hhead := List.head?_dropWhile_not (!p ·) xs
        simpa [hdrop] using hhead
      rw [hdrop] at hpairwise
      exact List.forall_mem_cons.2 ⟨hx, fun y hy => (List.pairwise_cons.1 hpairwise).1 y hy hx⟩
  have hsplit : xs = xs.takeWhile (!p ·) ++ xs.dropWhile (!p ·) :=
    List.takeWhile_append_dropWhile.symm
  refine ⟨_, _, hsplit, hbefore, hafter, ?_, fun i x hx => ?_⟩
  · rw [List.size_toArray]
    exact (List.takeWhile_sublist _).length_le
  · rw [List.getElem?_toArray] at hx
    rw [hbehind x (List.mem_of_getElem? hx)]
    rw [hsplit] at hx
    by_cases hi : (xs.takeWhile (!p ·)).length ≤ i
    · rw [List.getElem?_append_right hi] at hx
      rw [hafter x (List.mem_of_getElem? hx), decide_eq_true hi]
    · rw [List.getElem?_append_left (by omega)] at hx
      rw [hbefore x (List.mem_of_getElem? hx), decide_eq_false hi]

/-- Galloping from any place finds the same cut. -/
theorem gallop_eq_length {behind : α → Id Bool} (p : α → Bool)
    (hbehind : ∀ x ∈ xs, (behind x).run = p x)
    (hmono : xs.Pairwise fun x y => p x = true → p y = true) {hint : Nat}
    (hhint : hint < xs.length) :
    ∃ before after, xs = before ++ after ∧ (∀ x ∈ before, p x = false) ∧
      (∀ x ∈ after, p x = true) ∧ (gallop behind xs.toArray hint).run = before.length := by
  obtain ⟨before, after, hsplit, hbefore, hafter, hborder⟩ := exists_border p hbehind hmono
  exact ⟨before, after, hsplit, hbefore, hafter, hborder.gallop_eq (by simpa using hhint)⟩

theorem Side.other_other (side : Side) : side.other.other = side := by cases side <;> rfl

namespace Merging

variable {s : Merging α} {side : Side}

/-- A run that ends, on the side that the merge takes from, in a block. -/
def Cuts (s : Merging α) (side : Side) (block rest : List α) : Prop :=
  (s.run side).toList = if s.fromBack then rest ++ block else block ++ rest

/-- All items in order, if those taken so far are at their places. -/
def whole (key : α → κ) (s : Merging α) : List α :=
  if s.fromBack then merged key s.left.toList s.right.toList ++ s.taken
  else s.taken.reverse ++ merged key s.left.toList s.right.toList

/-- Whether an item of a side is taken before one of the other side. -/
def Beats (key : α → κ) (s : Merging α) : Side → α → α → Prop
  | .left, x, y => if s.fromBack then key y < key x else key x ≤ key y
  | .right, y, x => if s.fromBack then key x ≤ key y else key y < key x

/-- Two sorted runs of which the one that is not eager has the last item to be taken. -/
structure IsReady (key : α → κ) (items : List α) (s : Merging α) : Prop where
  left_sorted : IsSorted key s.left.toList
  right_sorted : IsSorted key s.right.toList
  left_subset : s.left.toList ⊆ items
  right_subset : s.right.toList ⊆ items
  edge : if s.fromBack then ∀ y ∈ s.right.toList.head?, ∀ x ∈ s.left.toList, key y < key x
    else ∀ x ∈ s.left.toList.getLast?, ∀ y ∈ s.right.toList, key y < key x

/-! ### Taking blocks -/

theorem take_front_left (xs ys zs taken : List α) :
    (Merging.mk false (xs ++ ys).toArray zs.toArray taken).take .left xs.length =
      ⟨false, ys.toArray, zs.toArray, xs.reverse ++ taken⟩ := by
  simp [take, run]

theorem take_front_right (xs ys zs taken : List α) :
    (Merging.mk false zs.toArray (xs ++ ys).toArray taken).take .right xs.length =
      ⟨false, zs.toArray, ys.toArray, xs.reverse ++ taken⟩ := by
  simp [take, run]

theorem take_back_left (xs ys zs taken : List α) :
    (Merging.mk true (ys ++ xs).toArray zs.toArray taken).take .left xs.length =
      ⟨true, ys.toArray, zs.toArray, xs ++ taken⟩ := by
  simp [take, run]

theorem take_back_right (xs ys zs taken : List α) :
    (Merging.mk true zs.toArray (ys ++ xs).toArray taken).take .right xs.length =
      ⟨true, zs.toArray, ys.toArray, xs ++ taken⟩ := by
  simp [take, run]

theorem next?_eq (s : Merging α) (side : Side) : s.next? side =
    if s.fromBack then (s.run side).toList.getLast? else (s.run side).toList.head? := by
  unfold next?
  split
  · rw [Array.getLast?_toList]
  · rw [List.head?_eq_getElem?, Array.getElem?_toList]

/-- What a merge does when it takes a block that comes before all that is left. -/
structure Takes (key : α → κ) (items : List α) (s t : Merging α) (side : Side) (rest : List α) :
    Prop where
  isReady : IsReady key items t
  whole_eq : t.whole key = s.whole key
  fromBack_eq : t.fromBack = s.fromBack
  run_eq : (t.run side).toList = rest
  other_eq : t.run side.other = s.run side.other

theorem IsReady.takes (h : IsReady key items s) {block rest : List α}
    (hcut : s.Cuts side block rest)
    (hbeats : ∀ z ∈ block, ∀ w ∈ s.next? side.other, s.Beats key side z w) :
    Takes key items s (s.take side block.length) side rest := by
  rw [next?_eq] at hbeats
  obtain ⟨fromBack, ⟨left⟩, ⟨right⟩, taken⟩ := s
  obtain ⟨hleft, hright, hleftItems, hrightItems, hedge⟩ := h
  cases fromBack <;> cases side
  · obtain rfl : left = block ++ rest := hcut
    rw [take_front_left block rest right taken]
    refine ⟨⟨hleft.sublist (List.sublist_append_right _ _), hright,
      List.Subset.trans (List.subset_append_right _ _) hleftItems, hrightItems, ?_⟩, ?_, rfl, rfl, rfl⟩
    · intro x hx
      refine hedge x ?_
      rw [List.getLast?_append, Option.mem_def.1 hx]
      rfl
    · change (block.reverse ++ taken).reverse ++ merged key rest right =
        taken.reverse ++ merged key (block ++ rest) right
      have hfirst : ∀ x ∈ block, ∀ y ∈ right.head?, key x ≤ key y := hbeats
      rw [merged_append_left hfirst, List.reverse_append, List.reverse_reverse, List.append_assoc]
  · obtain rfl : right = block ++ rest := hcut
    rw [take_front_right block rest left taken]
    refine ⟨⟨hleft, hright.sublist (List.sublist_append_right _ _), hleftItems,
      List.Subset.trans (List.subset_append_right _ _) hrightItems, ?_⟩, ?_, rfl, rfl, rfl⟩
    · exact fun x hx y hy => hedge x hx y (List.mem_append_right _ hy)
    · change (block.reverse ++ taken).reverse ++ merged key left rest =
        taken.reverse ++ merged key left (block ++ rest)
      have hfirst : ∀ y ∈ block, ∀ x ∈ left.head?, key y < key x := hbeats
      rw [merged_append_right hfirst, List.reverse_append, List.reverse_reverse, List.append_assoc]
  · obtain rfl : left = rest ++ block := hcut
    rw [take_back_left block rest right taken]
    refine ⟨⟨hleft.sublist (List.sublist_append_left _ _), hright,
      List.Subset.trans (List.subset_append_left _ _) hleftItems, hrightItems, ?_⟩, ?_, rfl, rfl, rfl⟩
    · exact fun y hy x hx => hedge y hy x (List.mem_append_left _ hx)
    · change merged key rest right ++ (block ++ taken) = merged key (rest ++ block) right ++ taken
      have hbelow : ∀ x ∈ block, ∀ y ∈ right, key y < key x := by
        intro x hx y hy
        obtain ⟨last, hlast, hle⟩ := IsSorted.exists_getLast? hright hy
        exact lt_of_le_of_lt hle (hbeats x hx last hlast)
      rw [merged_left_append hbelow, List.append_assoc]
  · obtain rfl : right = rest ++ block := hcut
    rw [take_back_right block rest left taken]
    refine ⟨⟨hleft, hright.sublist (List.sublist_append_left _ _), hleftItems,
      List.Subset.trans (List.subset_append_left _ _) hrightItems, ?_⟩, ?_, rfl, rfl, rfl⟩
    · intro y hy
      refine hedge y ?_
      rw [List.head?_append, Option.mem_def.1 hy]
      rfl
    · change merged key left rest ++ (block ++ taken) = merged key left (rest ++ block) ++ taken
      have habove : ∀ y ∈ block, ∀ x ∈ left, key x ≤ key y := by
        intro y hy x hx
        obtain ⟨last, hlast, hle⟩ := IsSorted.exists_getLast? hleft hx
        exact le_trans hle (hbeats y hy last hlast)
      rw [merged_right_append habove, List.append_assoc]

theorem exists_cuts {z : α} (hz : s.next? side = some z) : ∃ rest, s.Cuts side [z] rest := by
  rw [next?_eq] at hz
  unfold Cuts
  cases hback : s.fromBack with
  | true =>
    rw [hback, if_pos rfl] at hz
    obtain ⟨rest, hrest⟩ := List.getLast?_eq_some_iff.1 hz
    exact ⟨rest, by simpa using hrest⟩
  | false =>
    rw [hback, if_neg (by simp)] at hz
    obtain ⟨rest, hrest⟩ := List.head?_eq_some_iff.1 hz
    exact ⟨rest, by simpa using hrest⟩

def size (s : Merging α) : Nat := s.left.size + s.right.size

theorem size_eq (s : Merging α) (side : Side) :
    s.size = (s.run side).size + (s.run side.other).size := by
  cases side with
  | left => rfl
  | right => exact Nat.add_comm _ _

theorem Cuts.size_eq {block rest : List α} (h : s.Cuts side block rest) :
    (s.run side).size = block.length + rest.length := by
  rw [← Array.length_toList, h]
  split
  · rw [List.length_append, Nat.add_comm]
  · rw [List.length_append]

theorem Takes.size_add {t : Merging α} {block rest : List α} (h : Takes key items s t side rest)
    (hcut : s.Cuts side block rest) : t.size + block.length = s.size := by
  have hrun : (t.run side).size = rest.length := by rw [← Array.length_toList, h.run_eq]
  rw [t.size_eq side, s.size_eq side, hcut.size_eq, h.other_eq, hrun]
  omega

/-- The next item of a side is taken when it comes before the next one of the other side. -/
theorem IsReady.takes_one (h : IsReady key items s) {z : α} (hz : s.next? side = some z)
    (hbeats : ∀ w ∈ s.next? side.other, s.Beats key side z w) :
    IsReady key items (s.take side 1) ∧ (s.take side 1).whole key = s.whole key ∧
      (s.take side 1).size + 1 = s.size := by
  obtain ⟨rest, hcut⟩ := exists_cuts hz
  have htakes := h.takes hcut fun y hy => by rwa [List.mem_singleton.1 hy]
  exact ⟨htakes.isReady, htakes.whole_eq, htakes.size_add hcut⟩

/-! ### The end of a merge -/

theorem isOver_eq_false : s.isOver = false ↔
    0 < (s.run s.eager).size ∧ 2 ≤ (s.run s.eager.other).size := by
  simp [isOver, Nat.pos_iff_ne_zero]
  omega

theorem exists_next? (hsize : 0 < (s.run side).size) : ∃ z, s.next? side = some z := by
  rw [next?_eq]
  have hne : (s.run side).toList ≠ [] := by
    rw [← List.length_pos_iff, Array.length_toList]
    exact hsize
  split
  · exact Option.isSome_iff_exists.1 (List.getLast?_isSome.2 hne)
  · exact Option.isSome_iff_exists.1 (List.isSome_head?.2 hne)

theorem exists_next?_of_not_isOver (h : s.isOver = false) (side : Side) :
    ∃ z, s.next? side = some z := by
  obtain ⟨heager, hother⟩ := isOver_eq_false.1 h
  refine exists_next? ?_
  cases hback : s.fromBack <;> cases side <;> simp_all [eager, Side.other] <;> omega

theorem eq_nil_or_singleton {left : List α} (h : left.length ≤ 1) : left = [] ∨ ∃ x, left = [x] := by
  match left with
  | [] => exact .inl rfl
  | [x] => exact .inr ⟨x, rfl⟩
  | _ :: _ :: _ => simp at h

theorem IsReady.items_eq (h : IsReady key items s) (hover : s.isOver = true) :
    s.items = s.whole key := by
  obtain ⟨fromBack, ⟨left⟩, ⟨right⟩, taken⟩ := s
  obtain ⟨-, -, -, -, hedge⟩ := h
  rcases Bool.or_eq_true_iff.1 hover with hnone | hfew
  · cases fromBack with
    | false =>
      obtain rfl : right = [] := by simpa [run, eager] using hnone
      change taken.reverse ++ [] ++ left = taken.reverse ++ merged key left []
      rw [merged_nil, List.append_nil]
    | true =>
      obtain rfl : left = [] := by simpa [run, eager] using hnone
      change right ++ [] ++ taken = merged key [] right ++ taken
      rw [nil_merged, List.append_nil]
  · cases fromBack with
    | false =>
      have hlength : left.length ≤ 1 := by simpa [run, eager, Side.other] using hfew
      change taken.reverse ++ right ++ left = taken.reverse ++ merged key left right
      have hlast : ∀ y ∈ right, ∀ x ∈ left, key y < key x := by
        intro y hy x hx
        rcases eq_nil_or_singleton hlength with rfl | ⟨z, rfl⟩
        · cases hx
        · rw [List.mem_singleton.1 hx]
          exact hedge z rfl y hy
      rw [merged_eq_append hlast, List.append_assoc]
    | true =>
      have hlength : right.length ≤ 1 := by simpa [run, eager, Side.other] using hfew
      change right ++ left ++ taken = merged key left right ++ taken
      have hfirst : ∀ y ∈ right, ∀ x ∈ left, key y < key x := by
        intro y hy x hx
        rcases eq_nil_or_singleton hlength with rfl | ⟨z, rfl⟩
        · cases hy
        · rw [List.mem_singleton.1 hy]
          exact hedge z rfl x hx
      rw [merged_eq_append hfirst]

theorem IsReady.run_sorted (h : IsReady key items s) (side : Side) :
    IsSorted key (s.run side).toList := by
  cases side with
  | left => exact h.left_sorted
  | right => exact h.right_sorted

theorem IsReady.run_subset (h : IsReady key items s) (side : Side) :
    (s.run side).toList ⊆ items := by
  cases side with
  | left => exact h.left_subset
  | right => exact h.right_subset

theorem mem_run_of_next? {z : α} (hz : s.next? side = some z) : z ∈ (s.run side).toList := by
  rw [next?_eq] at hz
  split at hz
  · exact List.mem_of_getLast? hz
  · exact List.mem_of_mem_head? hz

theorem IsReady.mem_of_next? (h : IsReady key items s) {z : α} (hz : s.next? side = some z) :
    z ∈ items := h.run_subset side (mem_run_of_next? hz)

theorem beats_congr {t : Merging α} (h : t.fromBack = s.fromBack) (side : Side) (z w : α) :
    t.Beats key side z w ↔ s.Beats key side z w := by
  cases side <;> simp [Beats, h]

/-! ### Walking and galloping -/

variable (horders : Orders below key items)
include horders

theorem IsReady.rightIsBelow_eq (h : IsReady key items s) {x y : α} (hx : s.next? .left = some x)
    (hy : s.next? .right = some y) : (s.rightIsBelow below).run = decide (key y < key x) := by
  rw [rightIsBelow, hx, hy]
  exact horders y (h.mem_of_next? hy) x (h.mem_of_next? hx)

omit horders

/-- Whether an item of a side comes after the next one of the other side. -/
def behindNext (below : α → α → Id Bool) (side : Side) (w y : α) : Id Bool :=
  match side with
  | .left => below w y
  | .right => do return !(← below y w)

def isAfter (key : α → κ) (side : Side) (w y : α) : Bool :=
  match side with
  | .left => decide (key w < key y)
  | .right => decide (key w ≤ key y)

theorem lead_eq {w : α} (hw : s.next? side.other = some w) :
    (s.lead below side).run = if s.fromBack then (s.run side).size -
        (gallop (behindNext below side w) (s.run side) ((s.run side).size - 1)).run
      else (gallop (behindNext below side w) (s.run side) 0).run := by
  unfold lead
  rw [hw]
  dsimp only
  split <;> rfl

include horders

theorem behindNext_eq {w y : α} (hw : w ∈ items) (hy : y ∈ items) :
    (behindNext below side w y).run = isAfter key side w y := by
  cases side with
  | left => exact horders w hw y hy
  | right =>
    change (!(below y w).run) = _
    rw [horders y hy w hw, isAfter, ← decide_not]
    exact decide_eq_decide.2 not_lt

omit horders in
theorem isAfter_mono {w : α} (hsorted : IsSorted key xs) :
    xs.Pairwise fun x y => isAfter key side w x = true → isAfter key side w y = true := by
  refine hsorted.imp fun hxy hx => ?_
  cases side with
  | left => exact decide_eq_true (lt_of_lt_of_le (of_decide_eq_true hx) hxy)
  | right => exact decide_eq_true (le_trans (of_decide_eq_true hx) hxy)

omit horders in
theorem beats_of_isAfter {w z : α} :
    (isAfter key side w z = s.fromBack → s.Beats key side z w) ∧
      (isAfter key side w z = !s.fromBack → s.Beats key side.other w z) := by
  cases hback : s.fromBack <;> cases side <;> simp [isAfter, Beats, Side.other, hback]

/-- What a leap finds: a block before the next item of the other side, which comes before the rest. -/
theorem IsReady.lead_spec (h : IsReady key items s) (hrun : 0 < (s.run side).size) {w : α}
    (hw : s.next? side.other = some w) :
    ∃ block rest, s.Cuts side block rest ∧ (s.lead below side).run = block.length ∧
      (∀ z ∈ block, s.Beats key side z w) ∧ ∀ z ∈ rest, s.Beats key side.other w z := by
  have hmem : w ∈ items := h.mem_of_next? hw
  have hbehind : ∀ y ∈ (s.run side).toList,
      (behindNext below side w y).run = isAfter key side w y :=
    fun y hy => behindNext_eq horders hmem (h.run_subset side hy)
  have hmono : (s.run side).toList.Pairwise fun x y =>
      isAfter key side w x = true → isAfter key side w y = true :=
    isAfter_mono (h.run_sorted side)
  have hcut := fun hint hhint =>
    @gallop_eq_length _ _ _ (isAfter key side w) hbehind hmono hint hhint
  rw [lead_eq hw]
  unfold Cuts
  cases hback : s.fromBack with
  | true =>
    obtain ⟨rest, block, hsplit, hrest, hblock, hgallop⟩ := hcut ((s.run side).size - 1) (by
      rw [Array.length_toList]
      omega)
    refine ⟨block, rest, hsplit, ?_, fun z hz => ?_, fun z hz => ?_⟩
    · have hlength := congrArg List.length hsplit
      rw [Array.length_toList, List.length_append] at hlength
      rw [if_pos rfl, hgallop]
      omega
    · exact beats_of_isAfter.1 (by rw [hblock z hz, hback])
    · exact beats_of_isAfter.2 (by rw [hrest z hz, hback]; rfl)
  | false =>
    obtain ⟨block, rest, hsplit, hblock, hrest, hgallop⟩ := hcut 0 (by
      rw [Array.length_toList]
      exact hrun)
    refine ⟨block, rest, hsplit, hgallop, fun z hz => ?_, fun z hz => ?_⟩
    · exact beats_of_isAfter.1 (by rw [hblock z hz, hback])
    · exact beats_of_isAfter.2 (by rw [hrest z hz, hback]; rfl)

/-- A leap takes a block and, unless the merge is over then, the item that comes after it. -/
theorem IsReady.leap_spec (h : IsReady key items s) (hover : s.isOver = false) (side : Side) :
    IsReady key items (s.leap below side).run.2 ∧
      (s.leap below side).run.2.whole key = s.whole key ∧
      ((s.leap below side).run.2.isOver = false → (s.leap below side).run.2.size < s.size) := by
  obtain ⟨w, hw⟩ := exists_next?_of_not_isOver hover side.other
  have hrun : 0 < (s.run side).size := by
    obtain ⟨heager, hother⟩ := isOver_eq_false.1 hover
    cases hback : s.fromBack <;> cases side <;> simp_all [eager, Side.other] <;> omega
  obtain ⟨block, rest, hcut, hlead, hblock, hrest⟩ := h.lead_spec horders hrun hw
  have htakes := h.takes hcut fun z hz w' hw' => by
    rw [hw] at hw'
    rw [← Option.some.inj hw']
    exact hblock z hz
  have hsize := htakes.size_add hcut
  simp only [leap, Id.run_bind, Id.run_pure, hlead]
  split
  · rename_i hdone
    exact ⟨htakes.isReady, htakes.whole_eq, fun hmore => by simp [hdone] at hmore⟩
  · have hnext : (s.take side block.length).next? side.other = some w := by
      rw [next?_eq, htakes.other_eq, htakes.fromBack_eq, ← next?_eq, hw]
    have hbeats : ∀ z ∈ (s.take side block.length).next? side.other.other,
        (s.take side block.length).Beats key side.other w z := by
      intro z hz
      rw [Side.other_other] at hz
      rw [beats_congr htakes.fromBack_eq]
      exact hrest z (htakes.run_eq ▸ mem_run_of_next? hz)
    obtain ⟨hready, hwhole, hone⟩ := htakes.isReady.takes_one hnext hbeats
    exact ⟨hready, hwhole.trans htakes.whole_eq, fun _ => by omega⟩

omit horders in
/-- The eager side comes first when the next item on the right is below the one on the left. -/
theorem exists_eager {x y : α} (hx : s.next? .left = some x) (hy : s.next? .right = some y)
    (hlt : key y < key x) : ∃ z, s.next? s.eager = some z ∧
      ∀ w ∈ s.next? s.eager.other, s.Beats key s.eager z w := by
  cases hback : s.fromBack with
  | false =>
    have heager : s.eager = .right := by simp [eager, hback]
    rw [heager]
    refine ⟨y, hy, fun w hw => ?_⟩
    obtain rfl := Option.some.inj (hx.symm.trans hw)
    simpa [Beats, hback] using hlt
  | true =>
    have heager : s.eager = .left := by simp [eager, hback]
    rw [heager]
    refine ⟨x, hx, fun w hw => ?_⟩
    obtain rfl := Option.some.inj (hy.symm.trans hw)
    simpa [Beats, hback] using hlt

omit horders in
theorem exists_other {x y : α} (hx : s.next? .left = some x) (hy : s.next? .right = some y)
    (hle : key x ≤ key y) : ∃ z, s.next? s.eager.other = some z ∧
      ∀ w ∈ s.next? s.eager.other.other, s.Beats key s.eager.other z w := by
  cases hback : s.fromBack with
  | false =>
    have heager : s.eager = .right := by simp [eager, hback]
    rw [heager]
    refine ⟨x, hx, fun w hw => ?_⟩
    obtain rfl := Option.some.inj (hy.symm.trans hw)
    simpa [Beats, Side.other, hback] using hle
  | true =>
    have heager : s.eager = .left := by simp [eager, hback]
    rw [heager]
    refine ⟨y, hy, fun w hw => ?_⟩
    obtain rfl := Option.some.inj (hx.symm.trans hw)
    simpa [Beats, Side.other, hback] using hle

/-- With so much fuel, a merge that walks on ends with all items in order. -/
def Walks (below : α → α → Id Bool) (key : α → κ) (items : List α) (fuel : Nat) : Prop :=
  ∀ (patience eagerWins otherWins : Nat) (s : Merging α), IsReady key items s → s.size ≤ fuel →
    (walk below fuel patience eagerWins otherWins s).run.2.items = s.whole key

/-- With so much fuel, a merge that gallops on ends with all items in order. -/
def Leaps (below : α → α → Id Bool) (key : α → κ) (items : List α) (fuel : Nat) : Prop :=
  ∀ (patience : Nat) (s : Merging α), IsReady key items s → s.isOver = false → s.size ≤ fuel →
    (leaps below fuel patience s).run.2.items = s.whole key

omit horders in
theorem size_pos (hover : s.isOver = false) : 0 < s.size := by
  obtain ⟨heager, -⟩ := isOver_eq_false.1 hover
  rw [s.size_eq s.eager]
  omega

omit horders in
theorem walks_zero : Walks below key items 0 := by
  intro patience eagerWins otherWins s hready hsize
  refine hready.items_eq ?_
  by_contra hover
  have hpos := size_pos (Bool.eq_false_iff.2 hover)
  omega

omit horders in
theorem leaps_zero : Leaps below key items 0 := by
  intro patience s hready hover hsize
  have hpos := size_pos hover
  omega

omit horders in
/-- After one item was taken, the merge walks on or gallops on. -/
theorem IsReady.items_after {fuel : Nat} (h : IsReady key items s) (hwalk : Walks below key items fuel)
    (hleaps : Leaps below key items fuel) (hsize : s.size ≤ fuel + 1) {z : α}
    (hz : s.next? side = some z) (hbeats : ∀ w ∈ s.next? side.other, s.Beats key side z w)
    (patience wins eagerWins otherWins : Nat) :
    (if patience ≤ wins && !(s.take side 1).isOver then leaps below fuel patience (s.take side 1)
      else walk below fuel patience eagerWins otherWins (s.take side 1)).run.2.items =
      s.whole key := by
  obtain ⟨htaken, hwhole, hone⟩ := h.takes_one hz hbeats
  split
  · rename_i hgallops
    have hover : (s.take side 1).isOver = false := by
      simpa using (Bool.and_eq_true_iff.1 hgallops).2
    rw [hleaps _ _ htaken hover (by omega), hwhole]
  · rw [hwalk _ _ _ _ htaken (by omega), hwhole]

theorem walks_succ {fuel : Nat} (hwalk : Walks below key items fuel)
    (hleaps : Leaps below key items fuel) : Walks below key items (fuel + 1) := by
  intro patience eagerWins otherWins s hready hsize
  simp only [walk]
  split
  · rename_i hover
    exact hready.items_eq hover
  · rename_i hover
    have hmore := Bool.eq_false_iff.2 hover
    obtain ⟨x, hx⟩ := exists_next?_of_not_isOver hmore .left
    obtain ⟨y, hy⟩ := exists_next?_of_not_isOver hmore .right
    simp only [Id.run_bind, hready.rightIsBelow_eq horders hx hy, decide_eq_true_eq]
    -- The eager side wins when the item on the right is below the one on the left.
    split
    · rename_i hlt
      obtain ⟨z, hz, hbeats⟩ := exists_eager hx hy hlt
      exact hready.items_after hwalk hleaps hsize hz hbeats _ _ _ _
    · rename_i hle
      obtain ⟨z, hz, hbeats⟩ := exists_other hx hy (not_lt.1 hle)
      exact hready.items_after hwalk hleaps hsize hz hbeats _ _ _ _

theorem leaps_succ {fuel : Nat} (hwalk : Walks below key items fuel)
    (hleaps : Leaps below key items fuel) : Leaps below key items (fuel + 1) := by
  intro patience s hready hover hsize
  simp only [leaps, Id.run_bind]
  obtain ⟨hleft, hleftWhole, hleftSize⟩ := hready.leap_spec horders hover .left
  split
  · rename_i hdone
    exact (hleft.items_eq hdone).trans hleftWhole
  · rename_i hmore
    have hover' := Bool.eq_false_iff.2 hmore
    obtain ⟨hright, hrightWhole, hrightSize⟩ := hleft.leap_spec horders hover' .right
    have hwhole := hrightWhole.trans hleftWhole
    simp only [Id.run_bind]
    split
    · rename_i hdone
      exact (hright.items_eq hdone).trans hwhole
    · rename_i hmore'
      have hover'' := Bool.eq_false_iff.2 hmore'
      have hless := hleftSize hover'
      have hless' := hrightSize hover''
      split
      · exact (hleaps _ _ hright hover'' (by omega)).trans hwhole
      · exact (hwalk _ _ _ _ hright (by omega)).trans hwhole

/-- However a merge goes on, it ends with all items in order. -/
theorem walks_and_leaps (fuel : Nat) : Walks below key items fuel ∧ Leaps below key items fuel := by
  induction fuel with
  | zero => exact ⟨walks_zero, leaps_zero⟩
  | succ fuel ih =>
    exact ⟨walks_succ horders ih.1 ih.2, leaps_succ horders ih.1 ih.2⟩

theorem IsReady.finish_eq (h : IsReady key items s) (patience : Nat) {x y : α}
    (hx : s.next? .left = some x) (hy : s.next? .right = some y) (hlt : key y < key x) :
    (s.finish below patience).run.2 = s.whole key := by
  obtain ⟨z, hz, hbeats⟩ := exists_eager hx hy hlt
  obtain ⟨hready, hwhole, hsize⟩ := h.takes_one hz hbeats
  simp only [finish, Id.run_bind, Id.run_pure]
  have hfuel : (s.take s.eager 1).size ≤ 2 * (s.left.size + s.right.size) + 2 := by
    unfold size at hsize ⊢
    omega
  rw [(walks_and_leaps horders _).1 _ _ _ _ hready hfuel, hwhole]

/-- Runs that overlap: the first item on the right is below all on the left, and the last one on the
left above all on the right. -/
theorem finish_overlap {left right : List α} (hleft : IsSorted key left)
    (hright : IsSorted key right) (hleftItems : left ⊆ items) (hrightItems : right ⊆ items)
    {first last : α} (hfirst : right.head? = some first) (hlast : left.getLast? = some last)
    (habove : ∀ x ∈ left, key first < key x) (hbelow : ∀ y ∈ right, key y < key last)
    (fromBack : Bool) (patience : Nat) :
    (finish below patience ⟨fromBack, left.toArray, right.toArray, []⟩).run.2 =
      merged key left right := by
  have hready : IsReady key items ⟨fromBack, left.toArray, right.toArray, []⟩ := by
    refine ⟨hleft, hright, hleftItems, hrightItems, ?_⟩
    cases fromBack with
    | true =>
      intro y hy x hx
      obtain rfl := Option.some.inj (hfirst.symm.trans hy)
      exact habove x hx
    | false =>
      intro x hx y hy
      obtain rfl := Option.some.inj (hlast.symm.trans hx)
      exact hbelow y hy
  cases fromBack with
  | true =>
    obtain ⟨y, hy⟩ := Option.isSome_iff_exists.1
      (List.getLast?_isSome.2 (List.ne_nil_of_mem (List.mem_of_mem_head? hfirst)))
    have hlt : key y < key last := hbelow y (List.mem_of_getLast? hy)
    have hnextLeft := (next?_eq ⟨true, left.toArray, right.toArray, []⟩ .left).trans hlast
    have hnextRight := (next?_eq ⟨true, left.toArray, right.toArray, []⟩ .right).trans hy
    exact (hready.finish_eq horders patience hnextLeft hnextRight hlt).trans (List.append_nil _)
  | false =>
    obtain ⟨x, hx⟩ := Option.isSome_iff_exists.1
      (List.isSome_head?.2 (List.ne_nil_of_mem (List.mem_of_getLast? hlast)))
    have hlt : key first < key x := habove x (List.mem_of_mem_head? hx)
    have hnextLeft := (next?_eq ⟨false, left.toArray, right.toArray, []⟩ .left).trans hx
    have hnextRight := (next?_eq ⟨false, left.toArray, right.toArray, []⟩ .right).trans hfirst
    exact hready.finish_eq horders patience hnextLeft hnextRight hlt

end Merging

/-- What stands on the left before the overlap of two runs is not above the first item on the right. -/
theorem exists_start (horders : Orders below key items) {left : List α} (hleft : IsSorted key left)
    (hitems : left ⊆ items) {first : α} (hfirst : first ∈ items) (hsize : 0 < left.length) :
    ∃ before overlap, left = before ++ overlap ∧
      (gallop (fun y => below first y) left.toArray 0).run = before.length ∧
      (∀ x ∈ before, key x ≤ key first) ∧ ∀ x ∈ overlap, key first < key x := by
  obtain ⟨before, overlap, hsplit, hbefore, hoverlap, hstart⟩ := gallop_eq_length
    (fun y => decide (key first < key y)) (fun y hy => horders first hfirst y (hitems hy))
    (hleft.imp fun hxy hx => decide_eq_true (lt_of_lt_of_le (of_decide_eq_true hx) hxy)) hsize
  exact ⟨before, overlap, hsplit, hstart, fun x hx => not_lt.1 (of_decide_eq_false (hbefore x hx)),
    fun x hx => of_decide_eq_true (hoverlap x hx)⟩

/-- What stands on the right after the overlap of two runs is not below the last item on the left. -/
theorem exists_stop (horders : Orders below key items) {right : List α}
    (hright : IsSorted key right) (hitems : right ⊆ items) {last : α} (hlast : last ∈ items)
    (hsize : 0 < right.length) :
    ∃ inside after, right = inside ++ after ∧
      (gallop (fun y => do return !(← below y last)) right.toArray (right.length - 1)).run =
        inside.length ∧
      (∀ y ∈ inside, key y < key last) ∧ ∀ y ∈ after, key last ≤ key y := by
  have hreached : ∀ y ∈ right,
      (do return !(← below y last) : Id Bool).run = decide (key last ≤ key y) := by
    intro y hy
    change (!(below y last).run) = _
    rw [horders y (hitems hy) last hlast, ← decide_not]
    exact decide_eq_decide.2 not_lt
  obtain ⟨inside, after, hsplit, hinside, hafter, hstop⟩ := gallop_eq_length
    (fun y => decide (key last ≤ key y)) hreached
    (hright.imp fun hxy hx => decide_eq_true (le_trans (of_decide_eq_true hx) hxy))
    (Nat.sub_lt hsize Nat.one_pos)
  exact ⟨inside, after, hsplit, hstop, fun y hy => not_le.1 (of_decide_eq_false (hinside y hy)),
    fun y hy => of_decide_eq_true (hafter y hy)⟩

/-- Two sorted runs are merged, whatever the merge tries first. -/
theorem mergeRuns_eq (horders : Orders below key items) (patience : Nat) {left right : List α}
    (hleft : IsSorted key left) (hright : IsSorted key right) (hleftItems : left ⊆ items)
    (hrightItems : right ⊆ items) :
    (mergeRuns below patience left.toArray right.toArray).run.2.toList = merged key left right := by
  cases hhead : right.head? with
  | none =>
    obtain rfl := List.head?_eq_none_iff.1 hhead
    rw [merged_nil]
    rfl
  | some first =>
    have hfirst : right.toArray[0]? = some first := by
      rw [List.getElem?_toArray, ← List.head?_eq_getElem?, hhead]
    have hfirstItems : first ∈ items := hrightItems (List.mem_of_mem_head? hhead)
    have hrightSize : 0 < right.length := List.length_pos_of_mem (List.mem_of_mem_head? hhead)
    unfold mergeRuns
    rw [hfirst]
    simp only [Id.run_bind]
    rcases Nat.eq_zero_or_pos left.length with hnone | hleftSize
    · obtain rfl := List.eq_nil_of_length_eq_zero hnone
      simp
    · -- The items of the left run that come before the right one stay where they are.
      obtain ⟨before, overlap, rfl, hstart, hbefore, hoverlap⟩ :=
        exists_start horders hleft hleftItems hfirstItems hleftSize
      have hextract : (before ++ overlap).toArray.extract before.length
          (before ++ overlap).toArray.size = overlap.toArray := by
        simp
      have hback : overlap.toArray.back? = overlap.getLast? := by simp
      have hbefore' : ∀ x ∈ before, ∀ y ∈ right.head?, key x ≤ key y := by
        intro x hx y hy
        obtain rfl := Option.some.inj (hhead.symm.trans hy)
        exact hbefore x hx
      rw [hstart, hextract, hback]
      cases hlast : overlap.getLast? with
      | none =>
        obtain rfl := List.getLast?_eq_none_iff.1 hlast
        have hall : merged key (before ++ []) right = before ++ merged key [] right :=
          merged_append_left hbefore'
        rw [hall, nil_merged]
        simp
      | some last =>
        -- So do the items of the right run that come after the left one; what overlaps is merged.
        have hlastItems : last ∈ items :=
          hleftItems (List.mem_append_right _ (List.mem_of_getLast? hlast))
        have hoverlapSorted := hleft.sublist (List.sublist_append_right before overlap)
        obtain ⟨inside, after, rfl, hstop, hinside, hafter⟩ :=
          exists_stop horders hright hrightItems hlastItems hrightSize
        have hafter' : ∀ y ∈ after, ∀ x ∈ overlap, key x ≤ key y := fun y hy x hx =>
          le_trans (IsSorted.le_getLast? hoverlapSorted hlast hx) (hafter y hy)
        rw [merged_around hbefore' hafter']
        simp only [Id.run_bind, List.size_toArray, hstop]
        split
        · rename_i hzero
          obtain rfl := List.eq_nil_of_length_eq_zero hzero
          simp
        · rename_i hsome
          have hinsideHead : inside.head? = some first := by
            cases inside with
            | nil => exact absurd rfl hsome
            | cons y inside => exact hhead
          have hfinish := Merging.finish_overlap horders hoverlapSorted
            (hright.sublist (List.sublist_append_left inside after))
            (List.Subset.trans (List.subset_append_right before overlap) hleftItems)
            (List.Subset.trans (List.subset_append_left inside after) hrightItems)
            hinsideHead hlast hoverlap hinside
          simp [hfinish]

end Montage.Sorting
