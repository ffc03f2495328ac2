import Montage.Markup.Excerpt
import Montage.Markup.Lexer
import Montage.Markup.Merge
import Montage.Markup.Timestamp
import Montage.Text.Base64

/-!
Marked-up documents as values. `Markup.read` decodes the bytes of a file and reads the one document
in it. A value is made once for each node, so that an alias costs nothing.
-/

namespace Montage.Markup

def withoutSpacers (s : String) : List Char := s.toList.filter (· ≠ '_')

/-- A digit up to `f`. -/
def digitOf? (base : Nat) (c : Char) : Option Nat := (hexDigit? c).filter (· < base)

/-- Digits in a base behind the mark of the base, if that stands there. -/
def dropMark (mark : Char) : List Char → List Char
  | '0' :: c :: rest => if c.toLower = mark then rest else '0' :: c :: rest
  | cs => cs

/-- A whole number in a base, at least one digit long, that may have a sign and the mark of the base
in front, and blanks around it. -/
def inBase (base : Nat) (mark : Char) (cs : List Char) : Except Fault Int :=
  let cs := (Text.trim Text.isMargin cs).map Scientific.plainDigit
  let (negative, cs) := Scientific.takeSign cs
  match (dropMark mark cs).mapM (digitOf? base) with
  | some (d :: more) =>
    let n : Nat := (d :: more).foldl (fun n d => n * base + d) 0
    .ok (if negative then -n else n)
  | _ => .error (.misuse .value)

def decimalInt (digits : List Char) : Except Fault Int :=
  match Text.readInt? (.ofList digits) with
  | some n => .ok n
  | none => .error (.misuse .value)

/-- A whole number without its sign: in base two, sixteen or eight, in sixties, or in base ten. -/
def unsignedInt (cs : List Char) : Except Fault Int :=
  match cs with
  | [] => .error (.misuse .index)
  | ['0'] => .ok 0
  | '0' :: 'b' :: digits => inBase 2 'b' digits
  | '0' :: 'x' :: digits => inBase 16 'x' digits
  | '0' :: _ => inBase 8 'o' cs
  | _ => do
    let fields ← (Text.splitOn ':' cs).mapM decimalInt
    return fields.foldl (fun n field => n * 60 + field) 0

def intOf (s : String) : Except Fault Value := do
  let (negative, cs) := Scientific.takeSign (withoutSpacers s)
  let n ← unsignedInt cs
  return .int (if negative then -n else n)

def decimalFloat (cs : List Char) : Except Fault Binary64 :=
  match Text.readBinary64? (.ofList cs) with
  | some x => .ok x
  | none => .error (.misuse .value)

/-- The sum of fields, from the last, each sixty times as heavy as the one behind it. -/
def sumSixties : Int → Binary64 → List Binary64 → Except Fault Binary64
  | _, sum, [] => return sum
  | weight, sum, x :: rest => do
    sumSixties (weight * 60) (sum + x * (← (Value.int weight).toBinary64)) rest

def unsignedFloat (cs : List Char) : Except Fault Binary64 :=
  match String.ofList cs with
  | ".inf" => .ok (.infinite false)
  | ".nan" => .ok .nan
  | _ => do
    match Text.splitOn ':' cs with
    | [_] => decimalFloat cs
    | fields => sumSixties 1 .zero (← fields.mapM decimalFloat).reverse

def floatOf (s : String) : Except Fault Value := do
  let cs := (withoutSpacers s).map Char.toLower
  if cs.isEmpty then throw (.misuse .index)
  let (negative, cs) := Scientific.takeSign cs
  let x ← unsignedFloat cs
  return .float (if negative then -x else x)

def boolOf (s : String) : Except Fault Value :=
  let word := Text.lower s
  if trueWords.contains word then .ok (.bool true)
  else if falseWords.contains word then .ok (.bool false)
  else .error (.misuse .key)

def scalarValue (tag : Tag) (text : String) : Except Fault Value :=
  match tag with
  | .null => .ok .null
  | .bool => boolOf text
  | .int => intOf text
  | .float => floatOf text
  | .str => .ok (.text text)
  | .timestamp => match timestampText? text.toList with
    | some t => stampOf t
    | none => .error (.misuse .operation)
  | .binary => match Text.base64? text.toList with
    | some data => .ok (.bytes data)
    | none => malformed
  | _ => malformed

/-! Values -/

/-- The text of a scalar; for a mapping, that under the key `=`. The first number bounds the mappings
inside one another. -/
def scalarText : Nat → Nodes → Nat → Except Fault String
  | 0, _, _ => .error (.misuse .depth)
  | fuel + 1, nodes, n =>
    match nodes.nodeAt n with
    | .scalar _ text => .ok text
    | .sequence .. => malformed
    | .mapping _ entries =>
      match entries.find? fun e => (nodes.nodeAt e.1).tag = .equals with
      | some (_, inside) => scalarText fuel nodes inside
      | none => malformed

/-- The value of a node that is no collection. -/
def leafValue (nodes : Nodes) (n : Nat) : Except Fault Value := do
  scalarValue (nodes.nodeAt n).tag (← scalarText (nodes.size + 1) nodes n)

/-- How far the values of a document are known. -/
structure Filling where
  nodes : Nodes
  /-- the values of leaves, and of collections that do not lie in themselves -/
  known : Array (Option Value)
  met : Array Bool
  /-- the collections that were met and are not filled, the last one first -/
  waiting : List Nat := []

abbrev Filler := StateT Filling (Except Fault)

namespace Filler

def nodeAt (n : Nat) : Filler Node := do
  return (← get).nodes.nodeAt n

/-- Meets a node: a leaf is read at once, and a collection is left to be filled. -/
def meet (n : Nat) : Filler Unit := do
  if (← get).met.getD n false then return
  modify fun s => { s with met := s.met.setIfInBounds n true }
  if (← nodeAt n).tag.isCollection then modify fun s => { s with waiting := n :: s.waiting }
  else
    let v ← leafValue (← get).nodes n
    modify fun s => { s with known := s.known.setIfInBounds n (some v) }

/-- Meets a key, which must not be a collection, and what stands under it. -/
def meetEntry (e : Nat × Nat) : Filler Unit := do
  meet e.1
  if (← nodeAt e.1).tag.isCollection then throw .markup
  meet e.2

/-- Meets all that a collection holds. The first number bounds the merge keys of the document. -/
def fill (merges n : Nat) : Filler Unit := do
  match ← nodeAt n with
  | .sequence .seq items => items.forM meet
  | .sequence .pairs items => items.forM fun item => do
    match ← nodeAt item with
    | .mapping _ [(key, inside)] =>
      meet key
      meet inside
    | _ => throw .markup
  | .mapping .map _ | .mapping .set _ =>
    let nodes ← modifyGet fun s => (s.nodes, { s with nodes := #[] })
    let (entries, nodes) ← (Merging.flatten (merges + 1) n []).run nodes
    modify ({ · with nodes })
    entries.forM meetEntry
  | _ => throw .markup

/-- Fills collections level by level, so that of several faults the one nearest to the root counts.
The first number bounds the levels. -/
def fillLevels (merges : Nat) : Nat → Filler Unit
  | 0 => return
  | fuel + 1 => do
    let level := (← get).waiting.reverse
    if level.isEmpty then return
    modify ({ · with waiting := [] })
    level.forM (fill merges)
    fillLevels merges fuel

/-- A value, with the numbers of the collections around it that it contains. -/
structure Part where
  value : Value
  around : List Nat := []

def isNan : Value → Bool
  | .float .nan => true
  | _ => false

/-- Whether two keys of a document are one: the same node, equal values, or both not a number. -/
def isSameKey (key : Nat) (k : Value) (key' : Nat) (k' : Value) : Bool :=
  key = key' || k.sameKey k' || (isNan k && isNan k')

/-- Puts an entry in its place: a key that is there already keeps its place. -/
def placeEntry (key : Nat) (k v : Value) : List (Nat × Value × Value) → List (Nat × Value × Value)
  | [] => [(key, k, v)]
  | (key', k', v') :: rest =>
    if isSameKey key k key' k' then (key', k', v) :: rest
    else (key', k', v') :: placeEntry key k v rest

/-- The order in which a set lists its members: whole numbers ascend. -/
def setOrder (members : List Value) : List Value :=
  if members.all fun v => v.int?.isSome then
    members.mergeSort fun a b => a.int?.getD 0 ≤ b.int?.getD 0
  else members

/-- What a collection holds, given the values of nodes. -/
def content (part : Nat → Filler Part) (n : Nat) : Filler Part := do
  let entryParts (entries : Entries) := entries.mapM fun (key, inside) => do
    return (key, ← part key, ← part inside)
  let aroundOf (parts : List (Nat × Part × Part)) : List Nat :=
    parts.flatMap fun (_, k, v) => k.around ++ v.around
  match ← nodeAt n with
  | .sequence .pairs items =>
    let parts ← entryParts (← items.flatMapM fun item => return (← get).nodes.entriesAt item)
    return ⟨.list (parts.map fun (_, k, v) => .pair k.value v.value), aroundOf parts⟩
  | .sequence _ items =>
    let parts ← items.mapM part
    return ⟨.list (parts.map (·.value)), parts.flatMap (·.around)⟩
  | .mapping tag entries =>
    let parts ← entryParts entries
    let placed := parts.foldl (fun done (key, k, v) => placeEntry key k.value v.value done) []
    let entries := placed.map (·.2)
    return ⟨if tag = .set then .set (setOrder (entries.map (·.1))) else .mapping entries,
      aroundOf parts⟩
  | .scalar .. => throw .markup

/-- The value of a node inside of others. The first number bounds how many there are. -/
def part : Nat → List Nat → Nat → Filler Part
  | 0, _, _ => throw .markup
  | fuel + 1, outer, n => do
    if let some v := (← get).known.getD n none then return ⟨v, []⟩
    if outer.contains n then
      let isMapping := match ← nodeAt n with
        | .mapping .. => true
        | _ => false
      return ⟨.again n isMapping, [n]⟩
    let inside ← content (part fuel (n :: outer)) n
    let v := if inside.around.contains n then .loop n inside.value else inside.value
    let around := (inside.around.filter (· ≠ n)).eraseDups
    if around.isEmpty then modify fun s => { s with known := s.known.setIfInBounds n (some v) }
    return ⟨v, around⟩

end Filler

/-- The value of a document. -/
def Document.value (d : Document) : Except Fault Value := do
  let size := d.nodes.size
  let read : Filler Value := do
    Filler.meet d.root
    Filler.fillLevels d.nodes.mergeCount (size + 1)
    return (← Filler.part (size + 1) [] d.root).value
  read.run' ⟨d.nodes, .replicate size none, .replicate size false, []⟩

/-- The value that the bytes of a file hold; an empty stream is null. -/
def read (data : ByteArray) : Except Fault Value := do
  let excerpt := Excerpt.ofBytes data
  match ← Document.ofTokens? (Tokens.ofText excerpt.text excerpt.behind) with
  | some d => d.value
  | none => return .null

end Montage.Markup
