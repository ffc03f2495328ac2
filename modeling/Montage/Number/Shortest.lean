import Montage.Number.Scientific

/-!
Decimal text of binary numbers: `Binary64.shortest` finds the fewest digits that read back,
`Binary64.repr` writes them, and `Binary64.fixed` writes a given number of places.
-/

namespace Montage.Binary64

/-- The place of the first decimal digit of a positive magnitude: `10 ^ place` is the largest
power of ten not above it. -/
def leadingPlace (units : Nat) : Int :=
  if one ≤ units then (Text.decimal (units / one)).length - 1
  else (Text.decimal (units * Nat.pow 10 330 / one)).length - 331

/-- The nearest magnitude to `digits · 10 ^ place`, in units. -/
def unitsOfDecimal (digits : Nat) (place : Int) : Option Nat :=
  match Scientific.toBinary64 ⟨false, digits, place⟩ with
  | finite _ units _ => some units
  | _ => none

/-- Of the two neighbours of the magnitude on the grid of step `10 ^ place`, the one that reads
back as the magnitude; of two the nearer, and on a tie the even one. -/
def onGrid? (units : Nat) (place : Int) : Option Nat :=
  let n := if 0 ≤ place then units else units * Nat.pow 10 (-place).toNat
  let d := if 0 ≤ place then one * Nat.pow 10 place.toNat else one
  let below := n / d
  let nearest := Rounding.halfEven n d
  let other := if nearest = below then below + 1 else below
  if unitsOfDecimal nearest place = some units then some nearest
  else if unitsOfDecimal other place = some units then some other
  else none

/-- Searches the grids with one, two, … digits and falls back on the last. -/
def searchGrids (units : Nat) (leading : Int) : Nat → Nat → Nat × Int
  | digits, 0 => ((onGrid? units (leading - digits)).getD 0, leading - digits)
  | digits, more + 1 =>
    match onGrid? units (leading - digits) with
    | some n => (n, leading - digits)
    | none => searchGrids units leading (digits + 1) more

/-- The fewest digits that read back as a positive magnitude, and the place of the last. -/
def shortest (units : Nat) : Nat × Int :=
  searchGrids units (leadingPlace units) 0 16

/-- Digits with the point after the first `point` of them, and at least one digit on each side. -/
def positional (digits : List Char) (point : Int) : List Char :=
  if point ≤ 0 then '0' :: '.' :: (List.replicate (-point).toNat '0' ++ digits)
  else if digits.length ≤ point.toNat then
    digits ++ List.replicate (point.toNat - digits.length) '0' ++ ['.', '0']
  else digits.take point.toNat ++ '.' :: digits.drop point.toNat

/-- One digit before the point, and an exponent of at least two digits with its sign. -/
def exponential (digits : List Char) (exponent : Int) : List Char :=
  let mantissa := match digits with
    | [] => ['0']
    | [d] => [d]
    | d :: rest => d :: '.' :: rest
  mantissa ++ 'e' :: (if exponent < 0 then '-' else '+') :: Text.decimalPadded 2 exponent.natAbs

def signText (negative : Bool) : List Char := if negative then ['-'] else []

/-- The shortest text that reads back: positional from `1e-4` to below `1e16`, with an exponent
outside, and always with a point or an exponent. -/
def repr (x : Binary64) : String :=
  .ofList <| match x with
  | nan => "nan".toList
  | infinite s => signText s ++ "inf".toList
  | finite s 0 _ => signText s ++ "0.0".toList
  | finite s units _ =>
    let (n, place) := shortest units
    let zeros := ((Text.decimal n).reverse.takeWhile (· = '0')).length
    let digits := (Text.decimal n).take ((Text.decimal n).length - zeros)
    let exponent : Int := (Text.decimal n).length - 1 + place
    signText s ++
      if -4 ≤ exponent && exponent < 16 then positional digits (exponent + 1)
      else exponential digits exponent

/-- The exact value rounded to a number of decimal places, a tie to the even last digit. -/
def fixed (places : Nat) (x : Binary64) : String :=
  .ofList <| match x with
  | nan => "nan".toList
  | infinite s => signText s ++ "inf".toList
  | finite s units _ =>
    let digits := Text.decimalPadded (places + 1) (Rounding.halfEven (units * Nat.pow 10 places) one)
    let whole := digits.length - places
    signText s ++ digits.take whole ++ if places = 0 then [] else '.' :: digits.drop whole

end Montage.Binary64
