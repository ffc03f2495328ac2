import Montage.Markup.Resolve
import Montage.Number.Scientific
import Montage.Value

/-!
Dates and times of a document, checked against the calendar, and the two ways to write them.
-/

namespace Montage.Markup

def isLeap (year : Nat) : Bool := year % 4 = 0 && (year % 100 ≠ 0 || year % 400 = 0)

def daysOfMonth (year month : Nat) : Nat :=
  if month = 2 then (if isLeap year then 29 else 28)
  else if [4, 6, 9, 11].contains month then 30
  else 31

structure Date where
  year : Nat
  month : Nat
  day : Nat

def Date.valid (d : Date) : Bool :=
  1 ≤ d.year && 1 ≤ d.month && d.month ≤ 12 && 1 ≤ d.day && d.day ≤ daysOfMonth d.year d.month

/-- The days before a date, from the first day of the first year on. -/
def Date.dayNumber (d : Date) : Nat :=
  let years := d.year - 1
  let months := ((List.range' 1 (d.month - 1)).map (daysOfMonth d.year)).foldl Nat.add 0
  365 * years + years / 4 - years / 100 + years / 400 + months + d.day

def numberOf (digits : List Char) : Nat := Scientific.digitsValue digits

def padded (width n : Nat) : String := .ofList (Text.decimalPadded width n)

def Date.text (d : Date) : String := s!"{padded 4 d.year}-{padded 2 d.month}-{padded 2 d.day}"

/-- A time of day; the offset to world time is in minutes. -/
structure Clock where
  hour : Nat
  minute : Nat
  second : Nat
  micros : Nat
  offset : Option Int

def Clock.valid (c : Clock) : Bool :=
  c.hour < 24 && c.minute < 60 && c.second < 60 && (c.offset.getD 0).natAbs < 24 * 60

def microsOf (fraction : List Char) : Nat :=
  let digits := fraction.take 6
  numberOf (digits ++ List.replicate (6 - digits.length) '0')

/-- The offset that a zone stands for, in minutes. -/
def offsetOf (zone : List Char) : Option Int :=
  match zone with
  | [] => none
  | sign :: rest =>
    let minutes : Nat := match Text.splitOn ':' rest with
      | [hours, minutes] => numberOf hours * 60 + numberOf minutes
      | _ => numberOf rest * 60
    some (if sign = '-' then -(minutes : Int) else if sign = '+' then minutes else 0)

def Clock.ofText (c : ClockText) : Clock :=
  ⟨numberOf c.hour, numberOf c.minute, numberOf c.second, microsOf c.fraction, offsetOf c.zone⟩

/-- The instant of a time that says its distance from world time, in microseconds. -/
def Clock.instant? (d : Date) (c : Clock) : Option Int :=
  c.offset.map fun offset =>
    let minutes : Int := (d.dayNumber * 24 + c.hour) * 60 + c.minute - offset
    (minutes * 60 + c.second) * 1000000 + c.micros

def offsetText : Option Int → String
  | none => ""
  | some minutes =>
    let n := minutes.natAbs
    let sign := if minutes < 0 then "-" else "+"
  s!"{sign}{padded 2 (n / 60)}:{padded 2 (n % 60)}"

def Clock.text (c : Clock) : String :=
  let micros := if c.micros = 0 then "" else "." ++ padded 6 c.micros
  s!"{padded 2 c.hour}:{padded 2 c.minute}:{padded 2 c.second}" ++ micros ++ offsetText c.offset

/-- A list of numbers without the zeros at its end, as far as the fixed part allows. -/
def dropZeros (fixed : Nat) (numbers : List Nat) : List Nat :=
  numbers.take fixed ++ ((numbers.drop fixed).reverse.dropWhile (· = 0)).reverse

def offsetArgument : Option Int → String
  | none => ""
  | some minutes =>
    if minutes = 0 then ", tzinfo=datetime.timezone.utc"
    else
      let span := if minutes < 0 then s!"days=-1, seconds={(minutes + 24 * 60) * 60}"
        else s!"seconds={minutes * 60}"
      s!", tzinfo=datetime.timezone(datetime.timedelta({span}))"

/-- A date or time as a value; a date that is not in the calendar is out of domain. -/
def stampOf (t : TimestampText) : Except Fault Value :=
  let d : Date := ⟨numberOf t.year, numberOf t.month, numberOf t.day⟩
  let clock := t.clock.map Clock.ofText
  if !d.valid || !(clock.map (·.valid)).getD true then .error (.misuse .value)
  else match clock with
    | none => .ok (.stamp d.text s!"datetime.date({d.year}, {d.month}, {d.day})" none)
    | some c =>
      let numbers := dropZeros 5 [d.year, d.month, d.day, c.hour, c.minute, c.second, c.micros]
      let arguments := ", ".intercalate (numbers.map toString) ++ offsetArgument c.offset
      .ok (.stamp (d.text ++ " " ++ c.text) s!"datetime.datetime({arguments})" (c.instant? d))

end Montage.Markup
