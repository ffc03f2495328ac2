import Montage.Cutting.Arrange

/-!
Positions of any kind, as a snapshot gives them. A number that equals a whole number but is none
cannot take an item out of a list, and what is no number is no position at all.
-/

namespace Montage.Cutting

mutual

/-- Whether a value comes before another one; lists are compared by the first items that differ. -/
def valueBelow : Value → Value → Except Fault Bool
  | .list xs, .list ys => listBelow xs ys
  | .text s, .text t => return s < t
  | x, y =>
    match x.number?, y.number? with
    | some m, some n => return m.isBelow n
    | _, _ => throw (.misuse .kind)

def listBelow : List Value → List Value → Except Fault Bool
  | _, [] => return false
  | [], _ => return true
  | x :: xs, y :: ys => if x.same y then listBelow xs ys else valueBelow x y

end

def reorderBy (cuts : List Cut) (order : Value) : Except Fault (List Cut) := do
  let items ← order.items
  let _ ← Sorting.sortBy valueBelow items
  match items.mapM (·.number?.bind (·.whole?)) with
  | none => throw (.rejected .clipOrder)
  | some order =>
    let reordered ← reorder cuts order
    if items.all (·.int?.isSome) then return reordered else throw (.misuse .kind)

/-- Whether a number lies between one and the count. -/
def numberInRange (count : Nat) (x : Value.Number) : Bool :=
  x.compareInt 1 ≠ some .lt && x.compareInt count ≠ some .gt

def moveBy (cuts : List Cut) (position offset : Value) : Except Fault (List Cut) := do
  match position.int?, offset.int? with
  | some position, some offset => return move cuts position offset
  | _, _ =>
    let some place := position.number? | throw (.misuse .kind)
    if offset.number?.isNone then throw (.misuse .kind)
    let target := (← position.toBinary64) + (← offset.toBinary64)
    if numberInRange cuts.length place && numberInRange cuts.length (.float target) then
      throw (.misuse .kind)
    return cuts

def removeBy (cuts : List Cut) (position : Value) : Except Fault (List Cut) := do
  let some place := position.number? | throw (.misuse .kind)
  if !numberInRange cuts.length place then
    throw (.rejected (.clipPosition position.display))
  match place.whole? with
  | some position => remove cuts position
  | none => return renumber cuts

/-- The value under a key that an entry must have. -/
def fieldOf (entry : Value) (key : String) : Except Fault Value :=
  match entry.get? key with
  | some v => .ok v
  | none => .error (.misuse (if entry.isMapping then .key else .kind))

/-- How many entries a collection or a text has. -/
def sizeOf? : Value → Option Nat
  | .list items => some items.length
  | .mapping entries => some entries.length
  | .text s => some s.length
  | _ => none

/-- The entry of a list with a number from zero on. The entries of a mapping have no numbers. -/
def entryAt (entries index : Value) : Except Fault Value := do
  if entries.isMapping then throw (.misuse .key)
  match entries, index.int? with
  | .list items, some n => return items.getD n.toNat .null
  | _, _ => throw (.misuse .kind)

/-- The segment of one entry of a list, by its number from zero on. -/
def segmentAt (entries relevance index : Value) : Except Fault Segment := do
  let refusal : Fault := .rejected (.segmentRange index.display)
  let some n := index.number? | throw (.misuse .kind)
  if n.compareInt 0 = some .lt then throw refusal
  let some size := sizeOf? entries | throw (.misuse .kind)
  if [some .eq, some .gt].contains (n.compareInt size) then throw refusal
  let entry ← entryAt entries index
  let start ← fieldOf entry "start"
  let finish ← fieldOf entry "end"
  return {
    index
    start := ← start.toBinary64
    finish := ← finish.toBinary64
    text := (entry.getD "text" "").orNone.getD ""
    relevance := relevance.orNone.getD "" }

def segmentsAt (entries indices relevance : Value) : Except Fault (List Segment) := do
  (← indices.items).mapM (segmentAt entries relevance)

end Montage.Cutting
