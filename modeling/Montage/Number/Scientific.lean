import Montage.Number.Binary64
import Montage.Text.Blank
import Montage.Text.Digit

/-!
Number literals in text. `Scientific.read?` reads sign, digits, point and exponent; the wrappers
below it say which blanks, underscores and scripts each kind of literal admits.
-/

namespace Montage

/-- The number `± coefficient · 10 ^ exponent`, as written. -/
structure Scientific where
  negative : Bool
  coefficient : Nat
  exponent : Int
  deriving DecidableEq, Repr

namespace Scientific

/-- The digit of any script as the digit `0` to `9`; other characters stay. -/
def plainDigit (c : Char) : Char :=
  match Text.digit? c with
  | some d => Char.ofNat (0x30 + d)
  | none => c

/-- The number that a row of plain digits stands for. -/
def digitsValue (cs : List Char) : Nat :=
  cs.foldl (fun n c => n * 10 + (c.toNat - 0x30)) 0

def takeSign : List Char → Bool × List Char
  | '-' :: rest => (true, rest)
  | '+' :: rest => (false, rest)
  | cs => (false, cs)

/-- A sign and at least one digit, and nothing else. -/
def readSigned? (cs : List Char) : Option Int :=
  let (negative, digits) := takeSign cs
  if digits.isEmpty || !digits.all Char.isDigit then none
  else if negative then some (-(digitsValue digits : Int)) else some (digitsValue digits)

/-- Sign, digits with at most one point and at least one digit, and an exponent after `e`. -/
def read? (cs : List Char) : Option Scientific :=
  let (negative, cs) := takeSign cs
  let whole := cs.takeWhile Char.isDigit
  let rest := cs.dropWhile Char.isDigit
  let (fraction, rest) := match rest with
    | '.' :: rest => (rest.takeWhile Char.isDigit, rest.dropWhile Char.isDigit)
    | _ => ([], rest)
  if whole.isEmpty && fraction.isEmpty then none
  else
    let exponent? := match rest with
      | [] => some 0
      | c :: rest => if c = 'e' || c = 'E' then readSigned? rest else none
    exponent?.map fun exponent =>
      ⟨negative, digitsValue (whole ++ fraction), exponent - fraction.length⟩

/-- The nearest number of the binary format. Exponents far outside its range are not expanded. -/
def toBinary64 (x : Scientific) : Binary64 :=
  let size : Int := (Text.decimal x.coefficient).length + x.exponent
  if x.coefficient = 0 || size < -400 then .finite x.negative 0 representable_zero
  else if 400 < size then .infinite x.negative
  else if 0 ≤ x.exponent then
    .ofQuotient x.negative (x.coefficient * Nat.pow 10 x.exponent.toNat * Binary64.one) 1
  else .ofQuotient x.negative (x.coefficient * Binary64.one) (Nat.pow 10 (-x.exponent).toNat)

end Scientific

namespace Text

/-- Underscores stand between digits only; then the text without them. -/
def dropDigitGroups? (cs : List Char) : Option (List Char) :=
  let rec go (afterDigit : Bool) : List Char → Option (List Char)
    | [] => some []
    | '_' :: c :: rest => if afterDigit && c.isDigit then go false (c :: rest) else none
    | ['_'] => none
    | c :: rest => (go c.isDigit rest).map (c :: ·)
  go false cs

/-- Blanks that may stand around a number; the information separators are not among them. -/
def isMargin (c : Char) : Bool := isBlank c && !(0x1c ≤ c.toNat && c.toNat ≤ 0x1f)

/-- The characters of a number literal between blanks of a class: digits of any script made plain,
and underscores between digits dropped. -/
def literal? (blank : Char → Bool) (s : String) : Option (List Char) :=
  dropDigitGroups? ((trim blank s.toList).map Scientific.plainDigit)

/-- The most digits that a whole number in decimal notation may have. -/
def maxIntDigits : Nat := 4300

/-- Whether no row of digits is too long; `before` digits stand in front of the text. -/
def rowsFit (before : Nat) : List Char → Bool
  | [] => true
  | c :: rest =>
    if c.isDigit then before < maxIntDigits && rowsFit (before + 1) rest else rowsFit 0 rest

/-- A whole number in decimal notation. -/
def readInt? (s : String) : Option Int :=
  ((literal? isMargin s).filter (rowsFit 0)).bind Scientific.readSigned?

/-- Infinity or not-a-number, by one of their names in any case, with an optional sign. -/
def readSpecial? (cs : List Char) : Option Binary64 :=
  let (negative, name) := Scientific.takeSign cs
  let name := String.ofList (name.map Char.toLower)
  if name = "inf" || name = "infinity" then some (.infinite negative)
  else if name = "nan" then some .nan
  else none

/-- A number of the binary format: the one nearest to a decimal literal, infinity or
not-a-number. -/
def readBinary64? (s : String) : Option Binary64 :=
  (literal? isMargin s).bind fun cs => ((Scientific.read? cs).map (·.toBinary64)).or (readSpecial? cs)

end Text

end Montage
