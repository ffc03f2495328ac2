import Montage.Number.Scientific

/-!
Decimal numbers of any length: literals are exact, sums and products are rounded to the digits of
a context. Every step that is not defined in the context is an error of its own.
-/

namespace Montage

inductive Decimal where
  | finite (negative : Bool) (coefficient : Nat) (exponent : Int)
  | infinite (negative : Bool)
  | nan (negative signaling : Bool) (payload : Nat)
  deriving DecidableEq

namespace Decimal

inductive Error where
  | invalid
  | overflow
  deriving DecidableEq

structure Context where
  precision : Nat
  maxExponent : Int
  minExponent : Int

/-- Arithmetic with 28 significant digits. -/
def Context.standard : Context := ⟨28, 999999, -999999⟩

/-- The largest context; literals have to fit into it. -/
def Context.widest : Context := ⟨999999999999999999, 999999999999999999, -999999999999999999⟩

/-- The exponent of the last digit that the context can hold. -/
def Context.lastExponent (ctx : Context) : Int := ctx.minExponent - ctx.precision + 1

def digitCount (n : Nat) : Nat := (Text.decimal n).length

/-- Drops `k` digits at the end of the coefficient, rounding half to even. -/
def dropDigits (k n : Nat) : Nat :=
  if digitCount n + 1 < k then 0 else Rounding.halfEven n (Nat.pow 10 k)

/-- Fits an exact result into a context: too many digits are rounded, exponents of zero are
clamped, too large a result is an error and too small a one loses digits. -/
def finalize (ctx : Context) (negative : Bool) (n : Nat) (e : Int) : Except Error Decimal :=
  if n = 0 then
    .ok (finite negative 0 (max ctx.lastExponent (min ctx.maxExponent e)))
  else
    let excess := digitCount n - ctx.precision
    let drop := max excess (ctx.lastExponent - e).toNat
    let rounded := if drop = 0 then n else dropDigits drop n
    let carried := ctx.precision < digitCount rounded
    let n := if carried then rounded / 10 else rounded
    let e := e + drop + if carried then 1 else 0
    if ctx.maxExponent < digitCount n + e - 1 then .error .overflow
    else .ok (finite negative n e)

/-- A quiet not-a-number among the operands is the result, with the digits of its payload that
fit; a signaling one is an error. -/
def propagate (ctx : Context) (x y : Decimal) : Except Error Decimal :=
  match x, y with
  | nan _ true _, _ | _, nan _ true _ => .error .invalid
  | nan s _ payload, _ | _, nan s _ payload => .ok (nan s false (payload % Nat.pow 10 ctx.precision))
  | _, _ => .error .invalid

def mul (ctx : Context) : Decimal → Decimal → Except Error Decimal
  | finite s a d, finite t b e => finalize ctx (s != t) (a * b) (d + e)
  | infinite s, infinite t => .ok (infinite (s != t))
  | infinite s, finite t b _ => if b = 0 then .error .invalid else .ok (infinite (s != t))
  | finite s a _, infinite t => if a = 0 then .error .invalid else .ok (infinite (s != t))
  | x, y => propagate ctx x y

/-- The exact sum of signed coefficients at one exponent; an exact zero is negative only when both
terms are. -/
def addAligned (ctx : Context) (s : Bool) (a : Nat) (t : Bool) (b : Nat) (e : Int) :
    Except Error Decimal :=
  if s = t then finalize ctx s (a + b) e
  else if a = b then finalize ctx false 0 e
  else if a < b then finalize ctx t (b - a) e
  else finalize ctx s (a - b) e

/-- Adds a number to one with an exponent at least as large. A term too small to matter is replaced
by a single digit just below the last place that the context keeps. -/
def addOrdered (ctx : Context) (s : Bool) (a : Nat) (d : Int) (t : Bool) (b : Nat) (e : Int) :
    Except Error Decimal :=
  if a = 0 then addAligned ctx s 0 t b e
  else
    let spare : Int := if ctx.precision < digitCount a then 0 else digitCount a - ctx.precision - 1
    let floor := d - 1 + spare
    if digitCount b + e - 1 < floor then
      addAligned ctx s (a * Nat.pow 10 (d - floor).toNat) t (if b = 0 then 0 else 1) floor
    else addAligned ctx s (a * Nat.pow 10 (d - e).toNat) t b e

def add (ctx : Context) : Decimal → Decimal → Except Error Decimal
  | finite s a d, finite t b e =>
    if e ≤ d then addOrdered ctx s a d t b e else addOrdered ctx t b e s a d
  | infinite s, infinite t => if s = t then .ok (infinite s) else .error .invalid
  | infinite s, finite .. | finite .., infinite s => .ok (infinite s)
  | x, y => propagate ctx x y

def ofInt (n : Int) : Decimal := finite (n < 0) n.natAbs 0

/-- A literal of finite size; one outside the widest context is invalid. -/
def ofScientific (x : Scientific) : Except Error Decimal :=
  let ctx := Context.widest
  let size : Int := digitCount x.coefficient + x.exponent - 1
  if x.coefficient = 0 then
    if ctx.maxExponent < x.exponent || x.exponent < ctx.lastExponent then .error .invalid
    else .ok (finite x.negative 0 x.exponent)
  else if ctx.maxExponent < size || x.exponent < ctx.lastExponent then .error .invalid
  else .ok (finite x.negative x.coefficient x.exponent)

def dropName? (name : String) (cs : List Char) : Option (List Char) :=
  if (cs.take name.length).map Char.toLower = name.toList then some (cs.drop name.length) else none

/-- The names of infinity, and of a not-a-number with a row of digits after it. -/
def readSpecial? (cs : List Char) : Option Decimal :=
  let (negative, name) := Scientific.takeSign cs
  let payload? (signaling : Bool) (digits : List Char) : Option Decimal :=
    if digits.all Char.isDigit then
      some (nan negative signaling (Scientific.digitsValue digits))
    else none
  if dropName? "inf" name = some [] || dropName? "infinity" name = some [] then
    some (infinite negative)
  else match dropName? "nan" name with
    | some digits => payload? false digits
    | none => (dropName? "snan" name).bind (payload? true)

/-- A decimal literal with blanks around it, digits of any script, and underscores anywhere. -/
def read (s : List Char) : Except Error Decimal :=
  let cs := ((Text.trimBlank s).map Scientific.plainDigit).filter (· ≠ '_')
  match Scientific.read? cs with
  | some x => ofScientific x
  | none => match readSpecial? cs with
    | some x => .ok x
    | none => .error .invalid

/-- Scientific text: positional while the exponent is not positive and at most five zeros follow
the point. -/
def toText (x : Decimal) : String :=
  let sign (s : Bool) := if s then ['-'] else []
  .ofList <| match x with
  | infinite s => sign s ++ "Infinity".toList
  | nan s signaling payload =>
    sign s ++ (if signaling then ['s'] else []) ++ "NaN".toList ++
      if payload = 0 then [] else Text.decimal payload
  | finite s n e =>
    let digits := Text.decimal n
    let left : Int := e + digits.length
    let point : Int := if e ≤ 0 && -6 < left then left else 1
    let mantissa :=
      if point ≤ 0 then '0' :: '.' :: (List.replicate (-point).toNat '0' ++ digits)
      else if digits.length ≤ point.toNat then
        digits ++ List.replicate (point.toNat - digits.length) '0'
      else digits.take point.toNat ++ '.' :: digits.drop point.toNat
    let exponent := left - point
    sign s ++ mantissa ++
      if exponent = 0 then []
      else 'E' :: (if exponent < 0 then '-' else '+') :: Text.decimal exponent.natAbs

/-- The nearest binary number; none for a signaling not-a-number. -/
def toBinary64? : Decimal → Option Binary64
  | finite s n e => some (Scientific.toBinary64 ⟨s, n, e⟩)
  | infinite s => some (.infinite s)
  | nan _ signaling _ => if signaling then none else some .nan

end Decimal

end Montage
