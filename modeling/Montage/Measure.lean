import Montage.Timecode

/-!
Numbers shown to people and placed on the canvas: percentages of a length, the progress of a run,
and the sizes of files.
-/

namespace Montage.Measure

/-- The pixel at `percent` hundredths of a length; a tie goes up. -/
def ofPercent (percent : Ratio) (length : Int) : Int :=
  Rounding.halfUp (percent.numerator * length) (percent.denominator * 100)

/-- The pixel at a percentage whose text is a number. -/
def percentOf (percent : Value) (length : Int) : Except Fault Int := do
  return ofPercent (← percent.toRatio) length

/-- As `percentOf`, for a length of any kind, which has to be a whole number. -/
def percentOfLength (percent length : Value) : Except Fault Int := do
  let ratio ← percent.toRatio
  match length.number? with
  | some (.int n) => percentOf percent n
  | some (.float _) =>
    let share := Binary64.ofRatio ratio.numerator (ratio.denominator * 100)
    throw (.misuse (if share.isFinite then .operation else .range))
  | none => throw (.misuse .kind)

/-- A fraction of the work as a whole percentage between 0 and 100. -/
def progressOf (fraction : Binary64) : Int :=
  let percent := fraction * .ofInt 100
  if fraction.isNaN || percent.le .zero then 0
  else if (Binary64.ofInt 100).le percent then 100
  else (Timecode.round percent).toOption.getD 0

/-- As `progressOf`; what is no number counts as no progress. -/
def progress (fraction : Value) : Except Fault Int :=
  match fraction.toBinary64 with
  | .ok x => .ok (progressOf x)
  | .error (.misuse .range) => .error (.misuse .range)
  | .error _ => .ok 0

/-- Divides by 1024 while the number is that large and a larger unit is left. -/
def scaleSize : Binary64 → String → List String → Binary64 × String
  | x, unit, [] => (x, unit)
  | x, unit, next :: units =>
    if (Binary64.ofInt 1024).le x then scaleSize (x / .ofInt 1024) next units else (x, unit)

def sizeText (x : Binary64) : String :=
  if x.le .zero then "0 B"
  else
    let (x, unit) := scaleSize x "B" ["KB", "MB", "GB"]
    x.fixed 2 ++ " " ++ unit

def fileSize (bytes : Nat) : String := sizeText (.ofInt bytes)

/-- The size that a numeric value stands for. -/
def fileSizeOf (v : Value) : Except Fault String :=
  match v.number? with
  | none => .error (.misuse .kind)
  | some (.float x) => .ok (sizeText x)
  | some (.int n) =>
    if n ≤ 0 then .ok "0 B" else do return sizeText (← (Value.int n).toBinary64)

end Montage.Measure
