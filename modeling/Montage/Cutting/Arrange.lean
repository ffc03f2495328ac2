import Montage.Cutting.Merge

/-!
Changes to a list of clips by position, from one on. A change that is refused leaves the list as it
is, and one that is made numbers the clips anew.
-/

namespace Montage.Cutting

/-- The positions of a list with so many entries. -/
def positions (count : Nat) : List Int := (List.range' 1 count).map Int.ofNat

/-- The entry at a position. -/
def atPosition? {α : Type} (items : List α) (position : Int) : Option α :=
  if position < 1 then none else items[position.toNat - 1]?

def inRange (cuts : List Cut) (position : Int) : Bool :=
  1 ≤ position && position ≤ cuts.length

/-- Puts the clips into an order that names each position once. -/
def reorder (cuts : List Cut) (order : List Int) : Except Fault (List Cut) :=
  if order.isPerm (positions cuts.length) then
    return renumber (order.filterMap (atPosition? cuts))
  else throw (.rejected .clipOrder)

def swap {α : Type} (items : List α) (i j : Nat) : List α :=
  match items[i]?, items[j]? with
  | some x, some y => (items.set i y).set j x
  | _, _ => items

/-- Swaps the clip at a position with the one so many places further on, when there is one. -/
def move (cuts : List Cut) (position offset : Int) : List Cut :=
  let target := position + offset
  if inRange cuts position && inRange cuts target then
    renumber (swap cuts (position.toNat - 1) (target.toNat - 1))
  else cuts

def remove (cuts : List Cut) (position : Int) : Except Fault (List Cut) :=
  if inRange cuts position then return renumber (cuts.eraseIdx (position.toNat - 1))
  else throw (.rejected (.clipPosition (toString position)))

end Montage.Cutting
