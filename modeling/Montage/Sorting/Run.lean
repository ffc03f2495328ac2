/-!
Runs: stretches of a list that are in order as they stand. The comparison may fail or contradict
itself. A run at the front is kept, or turned round when it goes down, and further items are inserted
into it by bisection, behind the items that they are not below.
-/

namespace Montage.Sorting

variable {m : Type → Type} [Monad m] {α : Type} (below : α → α → m Bool)

/-- The items that go on with a run, upward or down, and what is left. -/
def runFrom (down : Bool) (last : α) : List α → m (List α × List α)
  | [] => return ([], [])
  | x :: rest => do
    if (← below x last) = down then
      let (run, left) ← runFrom down x rest
      return (x :: run, left)
    else return ([], x :: rest)

/-- The run at the front of a list in ascending order, and what is left. -/
def frontRun : List α → m (List α × List α)
  | x :: y :: rest => do
    let down ← below y x
    let (run, left) ← runFrom below down y rest
    let run := x :: y :: run
    return (if down then run.reverse else run, left)
  | items => return (items, [])

/-- The first place between two places whose item lies behind what is looked for; the first number
bounds how often the interval is halved. -/
def bisect (behind : α → m Bool) (items : Array α) : Nat → Nat → Nat → m Nat
  | 0, low, _ => return low
  | steps + 1, low, high => do
    if high ≤ low then return low
    let middle := low + (high - low) / 2
    match items[middle]? with
    | none => return low
    | some y =>
      if ← behind y then bisect behind items steps low middle
      else bisect behind items steps (middle + 1) high

def insertSorted (sorted : List α) (x : α) : m (List α) := do
  let size := sorted.length
  return sorted.insertIdx (← bisect (below x) sorted.toArray size 0 size) x

/-- A run of at least so many items, if there are that many, and what is left. -/
def runOf (least : Nat) (items : List α) : m (List α × List α) := do
  let (run, left) ← frontRun below items
  let missing := least - run.length
  return (← (left.take missing).foldlM (insertSorted below) run, left.drop missing)

end Montage.Sorting
