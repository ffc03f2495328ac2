/-!
Quotients of whole numbers rounded to a whole number: `halfEven` sends a tie to the even
neighbour, `halfUp` to the larger one, for every sign.
-/

namespace Montage.Rounding

/-- The whole number nearest to `n / d`; a tie goes to the even neighbour. -/
def halfEven (n d : Nat) : Nat :=
  let q := n / d
  let r := n % d
  if 2 * r < d then q
  else if d < 2 * r then q + 1
  else if q % 2 = 0 then q else q + 1

/-- The whole number nearest to `n / d`; a tie goes to the larger neighbour. -/
def halfUp (n : Int) (d : Nat) : Int :=
  let whole := n.fdiv d
  let rest := n - whole * d
  if (d : Int) ≤ rest * 2 then whole + 1 else whole

end Montage.Rounding
