import Montage.Sorting.Run

/-!
Merging two neighbouring runs, from their front or from their back. Items are taken one by one until
one run has won often enough in a row; from then on the merge gallops, which means that it looks ahead
in growing strides for the next item of the other run. How often is enough changes with its success.
-/

namespace Montage.Sorting

variable {m : Type → Type} [Monad m] {α : Type} (below : α → α → m Bool)

/-! Galloping -/

def itemAt (items : Array α) (n : Nat) (test : α → m Bool) : m Bool :=
  match items[n]? with
  | some x => test x
  | none => return false

/-- Strides of one, three, seven and so on, as long as they may go on: the last stride that was made,
and the one that went too far, or the limit. -/
def strides (goesOn : Nat → m Bool) (limit : Nat) : Nat → Nat → Nat → m (Nat × Nat)
  | 0, last, stride => return (last, min stride limit)
  | fuel + 1, last, stride => do
    if limit ≤ stride then return (last, limit)
    if ← goesOn stride then strides goesOn limit fuel stride (2 * stride + 1)
    else return (last, stride)

/-- The first place whose item lies behind what is looked for, searched from a hint on. -/
def gallop (behind : α → m Bool) (items : Array α) (hint : Nat) : m Nat := do
  let size := items.size
  if ← itemAt items hint behind then
    let (last, stride) ← strides (fun n => itemAt items (hint - n) behind) (hint + 1) size 0 1
    bisect behind items size (hint + 1 - stride) (hint - last)
  else
    let isBefore (n : Nat) : m Bool := itemAt items (hint + n) fun x => return !(← behind x)
    let (last, stride) ← strides isBefore (size - hint) size 0 1
    bisect behind items size (hint + last + 1) (hint + stride)

/-! Merging -/

/-- Two runs that are being merged. -/
structure Merging (α : Type) where
  /-- whether the largest items come first -/
  fromBack : Bool
  left : Array α
  right : Array α
  /-- the items taken so far, the last one first -/
  taken : List α := []

inductive Side where
  | left
  | right
  deriving DecidableEq

def Side.other : Side → Side
  | left => right
  | right => left

namespace Merging

def run (s : Merging α) : Side → Array α
  | .left => s.left
  | .right => s.right

def next? (s : Merging α) (side : Side) : Option α :=
  if s.fromBack then (s.run side).back? else (s.run side)[0]?

/-- Takes items from a side. -/
def take (s : Merging α) (side : Side) (n : Nat) : Merging α :=
  let items := s.run side
  let kept := items.size - n
  let (moved, rest) := if s.fromBack then
      ((items.extract kept items.size).toList, items.extract 0 kept)
    else ((items.extract 0 n).toList.reverse, items.extract n items.size)
  let s := { s with taken := moved ++ s.taken }
  match side with
  | .left => { s with left := rest }
  | .right => { s with right := rest }

/-- The side whose items come before equal ones that were not taken yet. -/
def eager (s : Merging α) : Side := if s.fromBack then .left else .right

/-- One run is used up, or the other one has no more than its last item. -/
def isOver (s : Merging α) : Bool :=
  (s.run s.eager).isEmpty || (s.run s.eager.other).size ≤ 1

/-- The items in order, when the merge is over. -/
def items (s : Merging α) : List α :=
  if s.fromBack then s.right.toList ++ s.left.toList ++ s.taken
  else s.taken.reverse ++ s.right.toList ++ s.left.toList

/-- Whether the next item on the right is below the next one on the left. -/
def rightIsBelow (s : Merging α) : m Bool :=
  match s.next? .left, s.next? .right with
  | some x, some y => below y x
  | _, _ => return false

/-- How many items of a side come before the next one of the other side. -/
def lead (s : Merging α) (side : Side) : m Nat := do
  let items := s.run side
  let some x := s.next? side.other | return 0
  let behind (y : α) : m Bool := match side with
    | .left => below x y
    | .right => return !(← below y x)
  if s.fromBack then return items.size - (← gallop behind items (items.size - 1))
  else gallop behind items 0

/-- Takes the items of a side that come before the next one of the other side, and that one; with how
many they were. -/
def leap (s : Merging α) (side : Side) : m (Nat × Merging α) := do
  let n ← s.lead below side
  let s := s.take side n
  return (n, if s.isOver then s else s.take side.other 1)

/-- How many items in a row are many. -/
def usualPatience : Nat := 7

mutual

/-- Takes items one by one, given how often each side has won in a row. The first number bounds how
many items there are, and the second one says how often is enough. -/
def walk : Nat → Nat → Nat → Nat → Merging α → m (Nat × Merging α)
  | 0, patience, _, _, s => return (patience, s)
  | fuel + 1, patience, eagerWins, otherWins, s => do
    if s.isOver then return (patience, s)
    if ← s.rightIsBelow below then
      let s := s.take s.eager 1
      if patience ≤ eagerWins + 1 && !s.isOver then leaps fuel patience s
      else walk fuel patience (eagerWins + 1) 0 s
    else
      let s := s.take s.eager.other 1
      if patience ≤ otherWins + 1 && !s.isOver then leaps fuel patience s
      else walk fuel patience 0 (otherWins + 1) s

/-- Gallops as long as it is worth it. -/
def leaps : Nat → Nat → Merging α → m (Nat × Merging α)
  | 0, patience, s => return (patience, s)
  | fuel + 1, patience, s => do
    let (lefts, s) ← s.leap below .left
    if s.isOver then return (patience, s)
    let (rights, s) ← s.leap below .right
    if s.isOver then return (patience, s)
    if usualPatience ≤ lefts || usualPatience ≤ rights then leaps fuel (max 1 (patience - 1)) s
    else walk fuel (patience + 1) 0 0 s

end

/-- Merges two runs that overlap, of which the next item of the eager side comes first. -/
def finish (patience : Nat) (s : Merging α) : m (Nat × List α) := do
  let fuel := 2 * (s.left.size + s.right.size) + 2
  let (patience, s) ← walk below fuel patience 0 0 (s.take s.eager 1)
  return (patience, s.items)

end Merging

/-- Two neighbouring runs as one, and how often is enough from now on. What lies in front of the second
run or behind the first one stays where it is, and the smaller part of the rest is taken out. -/
def mergeRuns (patience : Nat) (left right : Array α) : m (Nat × Array α) := do
  let some first := right[0]? | return (patience, left)
  let start ← gallop (below first) left 0
  let overlap := left.extract start left.size
  let some last := overlap.back? | return (patience, left ++ right)
  let stop ← gallop (fun y => return !(← below y last)) right (right.size - 1)
  if stop = 0 then return (patience, left ++ right)
  let s : Merging α :=
    { fromBack := stop < overlap.size, left := overlap, right := right.extract 0 stop }
  let (patience, merged) ← s.finish below patience
  return (patience,
    left.extract 0 start ++ merged.toArray ++ right.extract stop right.size)

end Montage.Sorting
