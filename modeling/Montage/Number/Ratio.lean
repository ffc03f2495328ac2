import Montage.Number.Scientific

/-!
Exact ratios written as text: a quotient of whole numbers, or a decimal literal.
-/

namespace Montage

/-- The ratio `numerator / denominator`. -/
structure Ratio where
  numerator : Int
  denominator : Nat
  deriving DecidableEq, Repr

namespace Ratio

inductive Error where
  | malformed
  | zeroDenominator
  deriving DecidableEq

/-- The nearest whole number; a tie goes up. -/
def round (x : Ratio) : Int := Rounding.halfUp x.numerator x.denominator

def ofScientific (x : Scientific) : Ratio :=
  let n : Int := if x.negative then -x.coefficient else x.coefficient
  if 0 ≤ x.exponent then ⟨n * Nat.pow 10 x.exponent.toNat, 1⟩ else ⟨n, Nat.pow 10 (-x.exponent).toNat⟩

/-- A quotient `a/b`, or a decimal literal whose first character after the sign is a digit or a
point with a digit after it. -/
def read (s : String) : Except Error Ratio :=
  match (Text.literal? Text.isBlank s).filter (Text.rowsFit 0) with
  | none => .error .malformed
  | some cs =>
    match Text.breakOn '/' cs with
    | (numerator, some denominator) =>
      if denominator.isEmpty || !denominator.all Char.isDigit then .error .malformed
      else match Scientific.readSigned? numerator with
        | none => .error .malformed
        | some n =>
          let d := Scientific.digitsValue denominator
          if d = 0 then .error .zeroDenominator else .ok ⟨n, d⟩
    | (_, none) =>
      match Scientific.read? cs with
      | none => .error .malformed
      | some x => .ok (ofScientific x)

end Ratio

end Montage
