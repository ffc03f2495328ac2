import Montage.Sorting.Merge

/-!
Sorting by a comparison that may fail or contradict itself. The list is cut into runs, which are merged
so that the tree of merges is nearly balanced. Where the comparison is an order, the result is the
stable order.
-/

namespace Montage.Sorting

variable {m : Type → Type} [Monad m] {α : Type} (below : α → α → m Bool)

/-- The least length of a run in a list of the given length: the length itself if it is short, else
its highest bits, rounded up. -/
def leastRun (size : Nat) : Nat :=
  let rec halve : Nat → Nat → Nat → Nat
    | 0, n, extra => n + extra
    | fuel + 1, n, extra =>
      if n < 64 then n + extra else halve fuel (n / 2) (if n % 2 = 1 then 1 else extra)
  halve size size 0

/-- The depth of the border between two runs in a balanced tree over the whole list: the first binary
place in which the middles of the runs differ, as parts of the list. `a` and `b` are twice the middles. -/
def borderDepth (size : Nat) : Nat → Nat → Nat → Nat
  | 0, _, _ => 0
  | fuel + 1, a, b =>
    if size ≤ a then borderDepth size fuel (2 * (a - size)) (2 * (b - size)) + 1
    else if size ≤ b then 1
    else borderDepth size fuel (2 * a) (2 * b) + 1

/-- A run that waits to be merged. -/
structure Pending (α : Type) where
  start : Nat
  items : Array α
  /-- the depth of the border behind it, once there is a run behind it -/
  depth : Nat := 0

/-- Runs that wait, the last one first, and how often a side has to win before a merge gallops. -/
structure Waiting (α : Type) where
  runs : List (Pending α) := []
  patience : Nat := Merging.usualPatience

def joinPending (patience : Nat) (left right : Pending α) : m (Nat × Pending α) := do
  let (patience, items) ← mergeRuns below patience left.items right.items
  return (patience, { right with start := left.start, items })

/-- Merges the last runs whose borders lie deeper than a new one. -/
def collapse (depth : Nat) : Nat → Waiting α → m (Waiting α)
  | 0, w => return w
  | fuel + 1, w => do
    match w.runs with
    | last :: before :: rest =>
      if before.depth ≤ depth then return w
      let (patience, joined) ← joinPending below w.patience before last
      collapse depth fuel ⟨joined :: rest, patience⟩
    | _ => return w

/-- Adds a run at the end. -/
def Waiting.add (size : Nat) (w : Waiting α) (run : Array α) : m (Waiting α) := do
  match w.runs with
  | [] => return { w with runs := [⟨0, run, 0⟩] }
  | last :: _ =>
    let a := 2 * last.start + last.items.size
    let b := a + last.items.size + run.size
    let depth := borderDepth size (size + 1) a b
    let next : Pending α := ⟨last.start + last.items.size, run, 0⟩
    let w ← collapse below depth w.runs.length w
    match w.runs with
    | last :: rest => return { w with runs := next :: { last with depth } :: rest }
    | [] => return { w with runs := [next] }

/-- Cuts a list into runs; the first number bounds how many there are. -/
def addRuns (size : Nat) : Nat → List α → Waiting α → m (Waiting α)
  | 0, _, w => return w
  | fuel + 1, items, w => do
    if items.isEmpty then return w
    let (run, rest) ← runOf below (leastRun size) items
    addRuns size fuel rest (← w.add below size run.toArray)

/-- Merges all runs that wait, a shorter one in front of the last two first. -/
def mergeAll : Nat → Waiting α → m (List α)
  | 0, w => return w.runs.reverse.flatMap (·.items.toList)
  | fuel + 1, w => do
    match w.runs with
    | [] => return []
    | [run] => return run.items.toList
    | [last, before] =>
      let (patience, joined) ← joinPending below w.patience before last
      mergeAll fuel ⟨[joined], patience⟩
    | last :: before :: first :: rest =>
      if first.items.size < last.items.size then
        let (patience, joined) ← joinPending below w.patience first before
        mergeAll fuel ⟨last :: joined :: rest, patience⟩
      else
        let (patience, joined) ← joinPending below w.patience before last
        mergeAll fuel ⟨joined :: first :: rest, patience⟩

/-- The items in ascending order. -/
def sortBy (items : List α) : m (List α) := do
  let size := items.length
  let w ← addRuns below size size items {}
  mergeAll below w.runs.length w

end Montage.Sorting
