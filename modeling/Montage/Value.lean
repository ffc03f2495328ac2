import Montage.Fault
import Montage.Number.Shortest
import Montage.Number.Ratio

/-!
Values of a snapshot before their shape is known: what a markup or JSON document holds. A collection
may contain itself, and is opened step by step. `Value.get?` looks a key up, `Value.display` and
`Value.quoted` write a value, and the `to…` functions are the conversions that the rest of the
library uses.
-/

namespace Montage

inductive Value where
  | null
  | bool (b : Bool)
  | int (n : Int)
  | float (x : Binary64)
  | text (s : String)
  | list (items : List Value)
  | mapping (entries : List (Value × Value))
  /-- A calendar date or time, by its plain text and by its text inside a list, with the instant that
  it names if it says its distance from world time. -/
  | stamp (plain inside : String) (instant : Option Int)
  | bytes (data : List UInt8)
  | pair (first second : Value)
  | set (members : List Value)
  /-- A collection that contains itself, as `again` of the same number. -/
  | loop (number : Nat) (body : Value)
  /-- The mapping or list of a number, inside of itself. -/
  | again (number : Nat) (isMapping : Bool)
  deriving Inhabited

namespace Value

instance : Coe String Value := ⟨text⟩
instance : Coe Bool Value := ⟨bool⟩
instance : Coe Binary64 Value := ⟨float⟩
instance : Coe Int Value := ⟨int⟩

/-- A mapping with textual keys. -/
def record (fields : List (String × Value)) : Value :=
  mapping (fields.map fun (key, v) => (text key, v))

def texts (items : List String) : Value := list (items.map text)

/-- A bytes literal: printable characters of the plain set stand for themselves. -/
def bytesText (data : List UInt8) : String :=
  let cs := data.map fun b => Char.ofNat b.toNat
  let quote := Text.quoteFor cs
  let one (c : Char) : List Char :=
    if 0x7f ≤ c.toNat then '\\' :: 'x' :: Text.hexPadded 2 c.toNat else Text.escapeChar quote c
  .ofList ('b' :: quote :: (cs.flatMap one ++ [quote]))

def isMapping : Value → Bool
  | mapping _ => true
  | loop _ body => body.isMapping
  | again _ isMapping => isMapping
  | _ => false

/-- What is written for a collection inside of itself. -/
def ellipsis (isMapping : Bool) : String := if isMapping then "\x7b...\x7d" else "[...]"

mutual

/-- A value as it is written inside of the collections with the given numbers. -/
def quotedWithin (outer : List Nat) : Value → String
  | null => "None"
  | bool b => if b then "True" else "False"
  | int n => toString n
  | float x => x.repr
  | text s => Text.quoted s
  | list items => "[" ++ ", ".intercalate (quotedItems outer items) ++ "]"
  | mapping entries => "\x7b" ++ ", ".intercalate (quotedEntries outer entries) ++ "\x7d"
  | stamp _ inside _ => inside
  | bytes data => bytesText data
  | pair first second =>
    "(" ++ quotedWithin outer first ++ ", " ++ quotedWithin outer second ++ ")"
  | set members =>
    if members.isEmpty then "set()"
    else "\x7b" ++ ", ".intercalate (quotedItems outer members) ++ "\x7d"
  | loop number body =>
    if outer.contains number then ellipsis body.isMapping else quotedWithin (number :: outer) body
  | again _ isMapping => ellipsis isMapping

def quotedItems (outer : List Nat) : List Value → List String
  | [] => []
  | v :: rest => quotedWithin outer v :: quotedItems outer rest

def quotedEntries (outer : List Nat) : List (Value × Value) → List String
  | [] => []
  | (k, v) :: rest =>
    (quotedWithin outer k ++ ": " ++ quotedWithin outer v) :: quotedEntries outer rest

end

/-- A value as it is written inside a list or mapping. -/
def quoted (v : Value) : String := quotedWithin [] v

/-- A value as text: text stands for itself. -/
def display : Value → String
  | text s => s
  | stamp plain _ _ => plain
  | v => v.quoted

mutual

/-- Whether a value can be written: a whole number must not have too many digits. -/
def hasText : Value → Bool
  | int n => n.natAbs < Nat.pow 10 Text.maxIntDigits
  | list items => itemsHaveText items
  | mapping entries => entriesHaveText entries
  | pair first second => hasText first && hasText second
  | set members => itemsHaveText members
  | loop _ body => hasText body
  | _ => true

def itemsHaveText : List Value → Bool
  | [] => true
  | v :: rest => hasText v && itemsHaveText rest

def entriesHaveText : List (Value × Value) → Bool
  | [] => true
  | (k, v) :: rest => hasText k && hasText v && entriesHaveText rest

end

/-- The text of a value that can be written. -/
def toText (v : Value) : Except Fault String :=
  if v.hasText then .ok v.display else .error (.misuse .value)

mutual

/-- Puts a whole collection in the places where it is met again. -/
def fill (number : Nat) (whole : Value) : Value → Value
  | again n isMapping => if n = number then whole else again n isMapping
  | list items => list (fillItems number whole items)
  | mapping entries => mapping (fillEntries number whole entries)
  | pair first second => pair (fill number whole first) (fill number whole second)
  | loop n body => loop n (fill number whole body)
  | v => v

def fillItems (number : Nat) (whole : Value) : List Value → List Value
  | [] => []
  | v :: rest => fill number whole v :: fillItems number whole rest

def fillEntries (number : Nat) (whole : Value) : List (Value × Value) → List (Value × Value)
  | [] => []
  | (k, v) :: rest => (k, fill number whole v) :: fillEntries number whole rest

end

/-- A collection that contains itself, with its content in sight. -/
def opened : Value → Value
  | loop number body => body.fill number (loop number body)
  | v => v

/-- Empty, zero and absent values count as false. -/
def truthy : Value → Bool
  | null => false
  | bool b => b
  | int n => n ≠ 0
  | float x => !x.same .zero
  | text s => !s.isEmpty
  | list items => !items.isEmpty
  | mapping entries => !entries.isEmpty
  | stamp .. => true
  | bytes data => !data.isEmpty
  | set members => !members.isEmpty
  | pair .. | loop .. | again .. => true

def isNull : Value → Bool
  | null => true
  | _ => false

/-- The numbers among the values; truth values are zero and one. -/
inductive Number where
  | int (n : Int)
  | float (x : Binary64)

def number? : Value → Option Number
  | bool b => some (.int (if b then 1 else 0))
  | int n => some (.int n)
  | float x => some (.float x)
  | _ => none

/-- Exact comparison of a finite number with a whole number. -/
def Number.compareInt (x : Number) (m : Int) : Option Ordering :=
  match x with
  | .int n => some (compare n m)
  | .float x => match x with
    | .nan => none
    | .infinite negative => some (if negative then .lt else .gt)
    | .finite .. => x.toUnits?.map fun u => compare u (m * Binary64.one)

def Number.isInt (x : Number) (m : Int) : Bool := x.compareInt m = some .eq

/-- Exact comparison; nothing compares with what is not a number. -/
def Number.order : Number → Number → Option Ordering
  | .float x, .float y =>
    if x.lt y then some .lt else if x.same y then some .eq else if y.lt x then some .gt else none
  | x, .int n => x.compareInt n
  | .int n, y => (y.compareInt n).map (·.swap)

def Number.isBelow (x y : Number) : Bool := x.order y = some .lt

def Number.isAtMost (x y : Number) : Bool := x.order y = some .lt || x.order y = some .eq

/-- The whole number that a number equals. -/
def Number.whole? : Number → Option Int
  | .int n => some n
  | .float x => x.truncate?.filter (Number.float x).isInt

/-- A whole number or a truth value, as a whole number. -/
def int? (v : Value) : Option Int :=
  match v.number? with
  | some (.int n) => some n
  | _ => none

/-- Equality of mapping keys: numbers by value whatever their kind. -/
def sameKey (a b : Value) : Bool :=
  match a.number?, b.number? with
  | some (.int n), some y => y.isInt n
  | some x, some (.int n) => x.isInt n
  | some (.float x), some (.float y) => x.same y
  | none, none => match a, b with
    | null, null => true
    | text s, text t => s = t
    | stamp s _ none, stamp t _ none => s = t
    | stamp _ _ (some m), stamp _ _ (some n) => m = n
    | bytes s, bytes t => s = t
    | _, _ => false
  | _, _ => false

mutual

/-- Equality of values, numbers being equal whatever their kind. -/
def same : Value → Value → Bool
  | list xs, list ys => sameItems xs ys
  | mapping xs, mapping ys => xs.length = ys.length && sameEntries xs ys
  | x, y => x.sameKey y

def sameItems : List Value → List Value → Bool
  | [], [] => true
  | x :: xs, y :: ys => same x y && sameItems xs ys
  | _, _ => false

/-- Whether the second mapping has all entries of the first one. -/
def sameEntries : List (Value × Value) → List (Value × Value) → Bool
  | [], _ => true
  | (k, v) :: rest, entries =>
    (match entries.find? (·.1.sameKey k) with
      | some (_, w) => same v w
      | none => false) && sameEntries rest entries

end

/-- Replaces the value of an equal key in place, or appends the entry. -/
def insertEntry (key value : Value) : List (Value × Value) → List (Value × Value)
  | [] => [(key, value)]
  | (k, v) :: rest =>
    if k.sameKey key then (k, value) :: rest else (k, v) :: insertEntry key value rest

/-- The value under a textual key. -/
def get? (v : Value) (key : String) : Option Value :=
  match v.opened with
  | mapping entries =>
    (entries.find? fun e => match e.1 with
      | text k => k == key
      | _ => false).map (·.2)
  | _ => none

def get (v : Value) (key : String) : Value := (v.get? key).getD null

def getD (v : Value) (key : String) (default : Value) : Value := (v.get? key).getD default

/-- `none` for null. -/
def orNone : Value → Option Value
  | null => none
  | v => some v

/-- A value where text is expected. -/
def asText : Value → Except Fault String
  | text s => .ok s
  | _ => .error (.misuse .kind)

/-- The plain characters that bytes are; the characters that separate records are not among them. -/
def plainText? (data : List UInt8) : Option String :=
  if data.all fun b => b < 0x1c || (0x20 ≤ b && b < 0x80) then
    some (.ofList (data.map fun b => Char.ofNat b.toNat))
  else none

/-- The text of a text, or of bytes that are plain characters. -/
def numeral? : Value → Option String
  | text s => some s
  | bytes data => plainText? data
  | _ => none

/-- The nearest number of the binary format; a whole number may be too large for it. -/
def Number.toBinary64 : Number → Except Fault Binary64
  | .float x => .ok x
  | .int n =>
    let x := Binary64.ofInt n
    if x.isFinite then .ok x else .error (.misuse .range)

/-- The nearest number of the binary format. -/
def toBinary64 : Value → Except Fault Binary64
  | bool b => .ok (if b then .ofInt 1 else .zero)
  | int n => (Number.int n).toBinary64
  | float x => .ok x
  | v@(text _) | v@(bytes _) => match v.numeral?.bind Text.readBinary64? with
    | some x => .ok x
    | none => .error (.misuse .value)
  | _ => .error (.misuse .kind)

/-- The whole part of a number, or the whole number that a text stands for. -/
def toInt : Value → Except Fault Int
  | bool b => .ok (if b then 1 else 0)
  | int n => .ok n
  | float x => match x with
    | .nan => .error (.misuse .value)
    | .infinite _ => .error (.misuse .range)
    | x => .ok (x.truncate?.getD 0)
  | v@(text _) | v@(bytes _) => match v.numeral?.bind Text.readInt? with
    | some n => .ok n
    | none => .error (.misuse .value)
  | _ => .error (.misuse .kind)

/-- The exact ratio that the text of a value stands for. -/
def toRatio (v : Value) : Except Fault Ratio :=
  match Ratio.read v.display with
  | .ok r => .ok r
  | .error .malformed => .error (.misuse .value)
  | .error .zeroDenominator => .error (.misuse .zeroDivision)

/-- The quotient of two whole numbers, or what a single value without a divisor is exactly. -/
def quotient (v divisor : Value) : Except Fault Ratio :=
  match v, divisor with
  | float x, null =>
    if x.isNaN then .error (.misuse .value)
    else match x.toUnits? with
      | some units => .ok ⟨units, Binary64.one⟩
      | none => .error (.misuse .range)
  | text _, null => v.toRatio
  | _, _ =>
    match v.int?, if divisor.isNull then some 1 else divisor.int? with
    | some n, some d =>
      if d = 0 then .error (.misuse .zeroDivision) else .ok ⟨n * d.sign, d.natAbs⟩
    | _, _ => .error (.misuse .kind)

/-- The items that iteration over a value gives: those of a list, a pair or a set, the keys of a
mapping, the characters of a text. -/
def items (v : Value) : Except Fault (List Value) :=
  match v.opened with
  | list items => .ok items
  | mapping entries => .ok (entries.map (·.1))
  | text s => .ok (s.toList.map fun c => text (String.singleton c))
  | bytes data => .ok (data.map fun b => int b.toNat)
  | pair first second => .ok [first, second]
  | set members => .ok members
  | _ => .error (.misuse .kind)

/-- The items of a list. -/
def list? (v : Value) : Option (List Value) :=
  match v.opened with
  | list items => some items
  | _ => none

end Value

end Montage
