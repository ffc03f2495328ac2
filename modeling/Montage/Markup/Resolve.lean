import Montage.Text.Blank

/-!
The tags of nodes, and which tag the text of a plain scalar has: words for truth values and null,
whole numbers in four bases and in sixties, numbers with a point, and times.
-/

namespace Montage.Markup

inductive Tag where
  | null
  | bool
  | int
  | float
  | str
  | timestamp
  | binary
  | seq
  | map
  | set
  /-- a sequence of mappings with one entry each -/
  | pairs
  /-- the key whose value is merged into the mapping -/
  | merge
  /-- the key `=`, which is a text only as a key -/
  | equals
  /-- a tag that no value has -/
  | unknown
  deriving DecidableEq, Repr

def Tag.ofName (name : String) : Tag :=
  match name with
  | "tag:yaml.org,2002:null" => null
  | "tag:yaml.org,2002:bool" => bool
  | "tag:yaml.org,2002:int" => int
  | "tag:yaml.org,2002:float" => float
  | "tag:yaml.org,2002:str" => str
  | "tag:yaml.org,2002:timestamp" => timestamp
  | "tag:yaml.org,2002:binary" => binary
  | "tag:yaml.org,2002:seq" => seq
  | "tag:yaml.org,2002:map" => map
  | "tag:yaml.org,2002:set" => set
  | "tag:yaml.org,2002:omap" => pairs
  | "tag:yaml.org,2002:pairs" => pairs
  | "tag:yaml.org,2002:merge" => merge
  | "tag:yaml.org,2002:value" => equals
  | _ => unknown

/-- Whether values of the tag are collections. -/
def Tag.isCollection (t : Tag) : Bool := [seq, map, set, pairs].contains t

def trueWords : List String :=
  ["yes", "Yes", "YES", "true", "True", "TRUE", "on", "On", "ON"]

def falseWords : List String :=
  ["no", "No", "NO", "false", "False", "FALSE", "off", "Off", "OFF"]

def nullWords : List String := ["~", "null", "Null", "NULL", ""]

/-- Digits and underscores. -/
def isSpacedDigit (c : Char) : Bool := c.isDigit || c = '_'

def isBinaryDigit (c : Char) : Bool := c = '0' || c = '1' || c = '_'

def isOctalDigit (c : Char) : Bool := ('0' ≤ c && c ≤ '7') || c = '_'

def isHexDigit (c : Char) : Bool :=
  isSpacedDigit c || ('a' ≤ c && c ≤ 'f') || ('A' ≤ c && c ≤ 'F')

def dropSign : List Char → List Char
  | '-' :: rest => rest
  | '+' :: rest => rest
  | cs => cs

/-- One or more characters of a class. -/
def someOf (p : Char → Bool) (cs : List Char) : Bool := !cs.isEmpty && cs.all p

/-- One digit, or two of which the first is below six. -/
def isSixtieth : List Char → Bool
  | [a] => a.isDigit
  | [a, b] => '0' ≤ a && a ≤ '5' && b.isDigit
  | _ => false

/-- A whole number without its sign. -/
def isWhole (cs : List Char) : Bool :=
  match cs with
  | '0' :: 'b' :: rest => someOf isBinaryDigit rest
  | '0' :: 'x' :: rest => someOf isHexDigit rest
  | '0' :: rest => rest.all isOctalDigit
  | c :: _ =>
    match Text.splitOn ':' cs with
    | first :: sixtieths => c.isDigit && first.all isSpacedDigit && sixtieths.all isSixtieth
    | [] => false
  | [] => false

/-- A signed exponent, or nothing. -/
def isExponent : List Char → Bool
  | [] => true
  | e :: sign :: digits =>
    (e = 'e' || e = 'E') && (sign = '-' || sign = '+') && someOf Char.isDigit digits
  | _ => false

/-- Digits, underscores, and an exponent. -/
def isFraction (cs : List Char) : Bool := isExponent (cs.dropWhile isSpacedDigit)

/-- A number with a point, without its sign. -/
def isPointed (cs : List Char) : Bool :=
  match cs with
  | c :: _ =>
    match Text.breakOn '.' cs with
    | (whole, some fraction) =>
      match Text.splitOn ':' whole with
      | [digits] => c.isDigit && digits.all isSpacedDigit && isFraction fraction
      | first :: sixtieths =>
        c.isDigit && first.all isSpacedDigit && sixtieths.all isSixtieth &&
          fraction.all isSpacedDigit
      | [] => false
    | _ => false
  | [] => false

def isFloat (cs : List Char) : Bool :=
  isPointed (dropSign cs) ||
    (match cs with
    | '.' :: c :: rest => c.isDigit && isFraction rest
    | _ => false) ||
    [".inf", ".Inf", ".INF"].contains (String.ofList (dropSign cs)) ||
    [".nan", ".NaN", ".NAN"].contains (String.ofList cs)

/-! Times -/

/-- A row of exactly so many digits, and what follows it. -/
def takeDigits? (n : Nat) (cs : List Char) : Option (List Char × List Char) :=
  let digits := cs.take n
  if digits.length = n && digits.all Char.isDigit then some (digits, cs.drop n) else none

/-- One or two digits, as many as there are, and what follows them. -/
def takeShort? (cs : List Char) : Option (List Char × List Char) :=
  (takeDigits? 2 cs).orElse fun _ => takeDigits? 1 cs

def takeChar? (c : Char) : List Char → Option (List Char)
  | d :: rest => if d = c then some rest else none
  | [] => none

/-- The parts of a time of day. -/
structure ClockText where
  hour : List Char
  minute : List Char
  second : List Char
  fraction : List Char
  zone : List Char

/-- The parts of a date, with a time of day or without. -/
structure TimestampText where
  year : List Char
  month : List Char
  day : List Char
  clock : Option ClockText

/-- `Z`, or a sign and hours with or without minutes. -/
def isZone (cs : List Char) : Bool :=
  match cs with
  | ['Z'] => true
  | sign :: rest =>
    (sign = '-' || sign = '+') && match Text.splitOn ':' rest with
      | [hours] => someOf Char.isDigit hours && hours.length ≤ 2
      | [hours, minutes] =>
        someOf Char.isDigit hours && hours.length ≤ 2 && minutes.all Char.isDigit &&
          minutes.length = 2
      | _ => false
  | [] => false

def isGap (c : Char) : Bool := c = ' ' || c = '\t'

/-- The time of day behind a date: `T` or blanks, then hours, minutes and seconds. -/
def clockText? (cs : List Char) : Option ClockText := do
  let cs ← match cs with
    | 'T' :: rest => some rest
    | 't' :: rest => some rest
    | c :: rest => if isGap c then some (rest.dropWhile isGap) else none
    | [] => none
  let (hour, cs) ← takeShort? cs
  let (minute, cs) ← takeDigits? 2 (← takeChar? ':' cs)
  let (second, cs) ← takeDigits? 2 (← takeChar? ':' cs)
  let (fraction, cs) := match cs with
    | '.' :: rest => (rest.takeWhile Char.isDigit, rest.dropWhile Char.isDigit)
    | _ => ([], cs)
  let zone := cs.dropWhile isGap
  if cs.isEmpty || isZone zone then some ⟨hour, minute, second, fraction, zone⟩ else none

/-- A text without one line feed at its end. -/
def dropLastBreak (cs : List Char) : List Char := if cs.getLast? = some '\n' then cs.dropLast else cs

/-- A date, with a time of day or without. -/
def timestampText? (cs : List Char) : Option TimestampText := do
  let (year, cs) ← takeDigits? 4 (dropLastBreak cs)
  let (month, cs) ← takeShort? (← takeChar? '-' cs)
  let (day, cs) ← takeShort? (← takeChar? '-' cs)
  if cs.isEmpty then some ⟨year, month, day, none⟩
  else some ⟨year, month, day, ← clockText? cs⟩

/-- Whether a text is a time by its looks; without a time of day, months and days have two digits. -/
def isTimestamp (cs : List Char) : Bool :=
  match timestampText? cs with
  | some t => t.clock.isSome || (t.month.length = 2 && t.day.length = 2)
  | none => false

/-- The tag that a text has by its looks. A line feed at its end does not count. -/
def Tag.ofPlain (s : String) : Tag :=
  let cs := dropLastBreak s.toList
  let s := if cs.isEmpty then s else String.ofList cs
  if trueWords.contains s || falseWords.contains s then bool
  else if isFloat cs then float
  else if isWhole (dropSign cs) then int
  else if s = "<<" then merge
  else if nullWords.contains s then null
  else if isTimestamp cs then timestamp
  else if s = "=" then equals
  else if ["!", "&", "*"].contains s then unknown
  else str

end Montage.Markup
