import Montage.Number.Decimal
import Montage.Value

/-!
Points in time, in seconds. `Timecode.read` reads numbers and timecodes exactly, `seconds` rounds
them once to the binary format, and the three texts are those of a graph statement, of a clock and
of a subtitle.
-/

namespace Montage.Timecode

def liftDecimal {α : Type} : Except Decimal.Error α → Except Fault α
  | .ok x => .ok x
  | .error .invalid => .error (.misuse .invalidDecimal)
  | .error .overflow => .error (.misuse .decimalOverflow)

/-- `hours · 3600 + minutes · 60 + seconds`, each step rounded to the standard context. -/
def combine (hours minutes seconds : Decimal) : Except Decimal.Error Decimal := do
  let ctx := Decimal.Context.standard
  let fromHours ← Decimal.mul ctx hours (.ofInt 3600)
  let fromMinutes ← Decimal.mul ctx minutes (.ofInt 60)
  Decimal.add ctx (← Decimal.add ctx fromHours fromMinutes) seconds

/-- Fields between colons, from the last: seconds, minutes and hours. -/
def readFields : List (List Char) → Except Decimal.Error Decimal
  | [] => .error .invalid
  | [seconds] => Decimal.read seconds
  | seconds :: minutes :: more => do
    let seconds ← Decimal.read seconds
    let minutes ← Decimal.read minutes
    let hours ← match more with
      | [] => pure (Decimal.ofInt 0)
      | hours :: _ => Decimal.read hours
    combine hours minutes seconds

/-- The decimal literal that stands for a binary number in text. -/
def ofBinary64 (x : Binary64) : Except Decimal.Error Decimal := Decimal.read x.repr.toList

/-- A number, or a text with one literal or with fields between colons. -/
def read : Value → Except Fault Decimal
  | .null => .error (.rejected .timeRequired)
  | .int n => .ok (.ofInt n)
  | .float x => liftDecimal (ofBinary64 x)
  | .text s => liftDecimal (readFields (Text.splitOn ':' (Text.trimBlank s.toList)).reverse)
  | _ => .error (.rejected .timeKind)

/-- A timecode in seconds. -/
def seconds (v : Value) : Except Fault Binary64 := do
  match (← read v).toBinary64? with
  | some x => .ok x
  | none => .error (.misuse .value)

/-- The ratio that the shortest text of a number stands for. -/
def ratio? (x : Binary64) : Option Ratio := (Ratio.read x.repr).toOption

/-- The whole number nearest to the shortest text of a number; a tie goes up. -/
def round (x : Binary64) : Except Fault Int :=
  match ratio? x with
  | some r => .ok r.round
  | none => .error (.misuse .value)

def milliseconds (x : Binary64) : Except Fault Int := round (x * .ofInt 1000)

/-- Three decimal places, without a sign on zero. -/
def graphText (x : Binary64) : String :=
  let s := x.fixed 3
  if s = "-0.000" then "0.000" else s

/-- Two digits, with a zero in front of one. -/
def twoDigits (n : Nat) : String := .ofList (Text.decimalPadded 2 n)

/-- Whole seconds from zero on, toward zero. -/
def wholeSeconds (x : Binary64) : Except Fault Nat := do
  return (← (Value.float (.max .zero x)).toInt).toNat

/-- `M:SS`, or `H:MM:SS` from one hour on. -/
def clockText (x : Binary64) : Except Fault String := do
  let total ← wholeSeconds x
  let hours := total / 3600
  let minutes := total % 3600 / 60
  if 0 < hours then return s!"{hours}:{twoDigits minutes}:{twoDigits (total % 60)}"
  else return s!"{minutes}:{twoDigits (total % 60)}"

/-- `HH:MM:SS,mmm` of the nearest millisecond, from zero on. -/
def subtitleText (x : Binary64) : Except Fault String := do
  let millis := (← milliseconds (.max .zero x)).toNat
  let hours := twoDigits (millis / 3600000)
  let minutes := twoDigits (millis % 3600000 / 60000)
  let secs := twoDigits (millis % 60000 / 1000)
  let rest := String.ofList (Text.decimalPadded 3 (millis % 1000))
  return s!"{hours}:{minutes}:{secs},{rest}"

end Montage.Timecode
