import Montage.Number.Rounding

/-!
Numbers of the 64-bit binary format. Every finite number is a whole multiple of the unit
`2 ^ (-1074)`, so the format is a set of integers (`Representable`) with a sign for zero, and
order, sums and products are those of integers followed by one rounding (`Binary64.ofQuotient`).
-/

namespace Montage

/-- How many units make `2 ^ 1024`. -/
def unitLimit : Nat := Nat.pow 2 2098

/-- Multiples of the unit that the format holds: at most 53 significant bits, below the limit. -/
def Representable (units : Nat) : Prop :=
  units < unitLimit ∧ Nat.pow 2 (units.log2 - 52) ∣ units

instance (units : Nat) : Decidable (Representable units) :=
  inferInstanceAs (Decidable (_ ∧ _))

theorem representable_zero : Representable 0 := by
  refine ⟨?_, ?_⟩
  · unfold unitLimit
    apply Nat.pow_pos; decide
  · exact Nat.dvd_zero _

inductive Binary64 where
  | nan
  | infinite (negative : Bool)
  | finite (negative : Bool) (units : Nat) (representable : Representable units)
  deriving DecidableEq

namespace Binary64

/-- How many units make one. -/
def one : Nat := Nat.pow 2 1074

/-- The number with the given magnitude, or infinity when the format has no such number. -/
def ofUnits (negative : Bool) (units : Nat) : Binary64 :=
  if h : Representable units then finite negative units h else infinite negative

/-- The number nearest to `n / d` units; a tie goes to the even significand, and magnitudes from
halfway past the largest number on become infinite. -/
def ofQuotient (negative : Bool) (n d : Nat) : Binary64 :=
  let step := Nat.pow 2 ((n / d).log2 - 52)
  ofUnits negative (Rounding.halfEven n (d * step) * step)

def zero : Binary64 := finite false 0 representable_zero

instance : Inhabited Binary64 := ⟨zero⟩

/-- The number nearest to the exact value `n / d`. -/
def ofRatio (n : Int) (d : Nat) : Binary64 :=
  ofQuotient (n < 0) (n.natAbs * one) d

def ofInt (n : Int) : Binary64 := ofRatio n 1

instance (n : Nat) : OfNat Binary64 n := ⟨ofInt n⟩

/-- The exact value of a finite number, in units. -/
def toUnits? : Binary64 → Option Int
  | finite true units _ => some (-(units : Int))
  | finite false units _ => some units
  | _ => none

def isNaN : Binary64 → Bool
  | nan => true
  | _ => false

def isFinite : Binary64 → Bool
  | finite .. => true
  | _ => false

def neg : Binary64 → Binary64
  | nan => nan
  | infinite s => infinite !s
  | finite s u h => finite (!s) u h

instance : Neg Binary64 := ⟨neg⟩

/-- A sum that is exactly zero is negative only when both terms are. -/
def add : Binary64 → Binary64 → Binary64
  | nan, _ | _, nan => nan
  | infinite s, infinite t => if s = t then infinite s else nan
  | infinite s, finite .. | finite .., infinite s => infinite s
  | finite s a _, finite t b _ =>
    if s = t then ofQuotient s (a + b) 1
    else if a = b then zero
    else if a < b then ofQuotient t (b - a) 1
    else ofQuotient s (a - b) 1

instance : Add Binary64 := ⟨add⟩

def sub (x y : Binary64) : Binary64 := x + -y

instance : Sub Binary64 := ⟨sub⟩

def mul : Binary64 → Binary64 → Binary64
  | nan, _ | _, nan => nan
  | infinite s, infinite t => infinite (s != t)
  | infinite s, finite t u _ | finite t u _, infinite s =>
    if u = 0 then nan else infinite (s != t)
  | finite s a _, finite t b _ => ofQuotient (s != t) (a * b) one

instance : Mul Binary64 := ⟨mul⟩

def div : Binary64 → Binary64 → Binary64
  | nan, _ | _, nan => nan
  | infinite _, infinite _ => nan
  | infinite s, finite t _ _ => infinite (s != t)
  | finite s _ _, infinite t => finite (s != t) 0 representable_zero
  | finite s a _, finite t b _ =>
    if b = 0 then if a = 0 then nan else infinite (s != t)
    else ofQuotient (s != t) (a * one) b

instance : Div Binary64 := ⟨div⟩

/-- Strictly below; false when either side is not a number. -/
def lt : Binary64 → Binary64 → Bool
  | nan, _ | _, nan => false
  | infinite s, infinite t => s && !t
  | infinite s, finite .. => s
  | finite .., infinite t => !t
  | finite s a _, finite t b _ =>
    match s, t with
    | true, true => b < a
    | true, false => 0 < a || 0 < b
    | false, true => false
    | false, false => a < b

/-- Equal as values: both zeros are equal, and nothing equals what is not a number. -/
def same : Binary64 → Binary64 → Bool
  | nan, _ | _, nan => false
  | infinite s, infinite t => s = t
  | infinite _, finite .. | finite .., infinite _ => false
  | finite s a _, finite t b _ => a = b && (s = t || a = 0)

def le (x y : Binary64) : Bool := lt x y || same x y

/-- The first argument unless the second is strictly larger. -/
def max (x y : Binary64) : Binary64 := if lt x y then y else x

/-- The first argument unless the second is strictly smaller. -/
def min (x y : Binary64) : Binary64 := if lt y x then y else x

/-- The whole part of a finite number, toward zero. -/
def truncate? : Binary64 → Option Int
  | finite true u _ => some (-((u / one : Nat) : Int))
  | finite false u _ => some ((u / one : Nat) : Int)
  | _ => none

/-- The largest whole number not above a finite number. -/
def floor : Binary64 → Binary64
  | finite false u _ => ofUnits false (u / one * one)
  | finite true u _ => ofUnits true ((u + one - 1) / one * one)
  | x => x

/-- What a whole number of `y`s leaves of `x`, for finite `x` and positive `y`. -/
def remainder : Binary64 → Binary64 → Binary64
  | finite s a _, finite _ b _ => if b = 0 then nan else ofUnits s (a % b)
  | finite s a h, infinite _ => finite s a h
  | _, _ => nan

/-- How many whole `y`s fit into `x`, for positive `y`. -/
def floorDiv (x y : Binary64) : Binary64 :=
  let rest := remainder x y
  let count := (x - rest) / y
  let count := if lt rest zero then count - ofInt 1 else count
  let whole := floor count
  if lt (ofRatio 1 2) (count - whole) then whole + ofInt 1 else whole

end Binary64

end Montage
