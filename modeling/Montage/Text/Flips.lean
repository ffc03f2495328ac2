/-!
Sets of code points written as the ascending list of the places where membership changes.
-/

namespace Montage.Text

/-- Membership changes at each entry, starting from outside. -/
def inFlips (flips : List Nat) (c : Char) : Bool :=
  (flips.takeWhile (· ≤ c.toNat)).length % 2 = 1

end Montage.Text
