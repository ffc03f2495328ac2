import Montage.Number.Shortest
import Montage.Value

/-!
Spans of time for the terminal: seconds with one decimal place, below minutes and hours when there
are any.
-/

namespace Montage.Terminal

def sixty : Binary64 := .ofInt 60

/-- Seconds with one decimal place, in at least four characters. -/
def paddedSeconds (x : Binary64) : String := .ofList (Text.padLeft 4 '0' (x.fixed 1).toList)

/-- `M` and `SS.s`, or `H`, `MM` and `SS.s`. -/
def minutesText (minutes : Nat) (rest : Binary64) : String :=
  let seconds := paddedSeconds rest
  if minutes < 60 then s!"{minutes}m {seconds}s"
  else
    let rest := String.ofList (Text.decimalPadded 2 (minutes % 60))
    s!"{minutes / 60}h {rest}m {seconds}s"

/-- `S.s`, or minutes and seconds, or hours, minutes and seconds. A span without an end has no minutes,
and the seconds in the minutes of a span have to be a number of the format. -/
def durationText (x : Binary64) : Except Fault String := do
  if x.lt sixty then return x.fixed 1 ++ "s"
  let minutes ← (Value.float (x.floorDiv sixty)).toInt
  let whole ← (Value.int (minutes * 60)).toBinary64
  return minutesText minutes.toNat (x - whole)

/-- The duration that a numeric value stands for; a whole number of minutes is exact, and its hours must
not have too many digits. -/
def durationOf (v : Value) : Except Fault String :=
  match v.number? with
  | none => .error (.misuse .kind)
  | some (.float x) => durationText x
  | some (.int n) =>
    if n < 60 then do durationText (← (Value.int n).toBinary64)
    else if (Value.int (n / 3600)).hasText then .ok (minutesText (n / 60).toNat (.ofInt (n % 60)))
    else .error (.misuse .value)

end Montage.Terminal
