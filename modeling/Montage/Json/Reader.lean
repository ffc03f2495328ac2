import Montage.Json.Error
import Montage.Number.Scientific
import Montage.Value

/-!
JSON documents as values. `Json.read` reads one document; not-a-number and the infinities are
numbers too, and of several members with one name the last counts.
-/

namespace Montage.Json

def fail {α : Type} (problem : Problem) (rest : List Char) : Except Error α :=
  .error (.malformed problem rest.length)

def isSpace (c : Char) : Bool := c = ' ' || c = '\t' || c = '\n' || c = '\r'

def skipSpace (cs : List Char) : List Char := cs.dropWhile isSpace

def hexDigit? (c : Char) : Option Nat :=
  if c.isDigit then some (c.toNat - 0x30)
  else if 'a' ≤ c && c ≤ 'f' then some (c.toNat - 0x57)
  else if 'A' ≤ c && c ≤ 'F' then some (c.toNat - 0x37)
  else none

/-- The number that four hexadecimal digits stand for. -/
def hexUnit? (a b c d : Char) : Option Nat := do
  return (((← hexDigit? a) * 16 + (← hexDigit? b)) * 16 + (← hexDigit? c)) * 16 + (← hexDigit? d)

/-- The character that a letter after a backslash stands for. -/
def escape? : Char → Option Char
  | '"' => some '"'
  | '\\' => some '\\'
  | '/' => some '/'
  | 'b' => some '\x08'
  | 'f' => some '\x0c'
  | 'n' => some '\n'
  | 'r' => some '\r'
  | 't' => some '\t'
  | _ => none

/-- A string that has no end, whose content would be the given characters. -/
def unterminated {α : Type} (content : List Char) : Except Error α :=
  .error (.malformed .unterminated (content.length + 1))

/-- The code units of a string up to its closing quote; `content` is what follows the opening quote. -/
def readUnits (content : List Char) : List Char → Except Error (List Nat × List Char)
  | [] => unterminated content
  | '"' :: rest => .ok ([], rest)
  | ['\\'] => unterminated content
  | '\\' :: 'u' :: a :: b :: c :: d :: e :: rest =>
    match hexUnit? a b c d with
    | none => .error (.malformed .hexEscape (rest.length + 6))
    | some unit => do
      let (units, rest) ← readUnits content (e :: rest)
      return (unit :: units, rest)
  | '\\' :: 'u' :: rest => .error (.malformed .hexEscape (rest.length + 1))
  | '\\' :: c :: rest =>
    match escape? c with
    | none => .error (.malformed .escape (rest.length + 2))
    | some c => do
      let (units, rest) ← readUnits content rest
      return (c.toNat :: units, rest)
  | c :: rest => do
    if c.toNat < 0x20 then fail .control (c :: rest)
    let (units, rest) ← readUnits content rest
    return (c.toNat :: units, rest)

def isHighSurrogate (n : Nat) : Bool := 0xd800 ≤ n && n < 0xdc00

def isLowSurrogate (n : Nat) : Bool := 0xdc00 ≤ n && n < 0xe000

/-- The characters that code units stand for. A pair of surrogates is one character. A lone surrogate
is none: a reader whose texts are codes keeps it, in a text that then has no encoding, and here the
replacement character stands in for it. -/
def ofUnits : List Nat → List Char
  | [] => []
  | high :: low :: rest =>
    if isHighSurrogate high && isLowSurrogate low then
      Char.ofNat (0x10000 + (high - 0xd800) * 0x400 + (low - 0xdc00)) :: ofUnits rest
    else if isHighSurrogate high || isLowSurrogate high then '\ufffd' :: ofUnits (low :: rest)
    else Char.ofNat high :: ofUnits (low :: rest)
  | [unit] =>
    if isHighSurrogate unit || isLowSurrogate unit then ['\ufffd'] else [Char.ofNat unit]

/-- A string, from behind its opening quote on. -/
def readString (cs : List Char) : Except Error (String × List Char) := do
  let (units, rest) ← readUnits cs cs
  return (.ofList (ofUnits units), rest)

/-- The whole part of a number: one zero, or digits that begin with another one. -/
def takeWhole : List Char → List Char × List Char
  | '0' :: rest => (['0'], rest)
  | cs => (cs.takeWhile Char.isDigit, cs.dropWhile Char.isDigit)

/-- A point with digits behind it, when the text begins so. -/
def takeFraction (cs : List Char) : List Char × List Char :=
  match cs with
  | '.' :: rest =>
    let digits := rest.takeWhile Char.isDigit
    if digits.isEmpty then ([], cs) else ('.' :: digits, rest.dropWhile Char.isDigit)
  | _ => ([], cs)

/-- An exponent with at least one digit, when the text begins so. -/
def takeExponent (cs : List Char) : List Char × List Char :=
  match cs with
  | e :: rest =>
    if e ≠ 'e' && e ≠ 'E' then ([], cs)
    else
      let (sign, rest) := match rest with
        | '-' :: rest => (['-'], rest)
        | '+' :: rest => (['+'], rest)
        | _ => ([], rest)
      let digits := rest.takeWhile Char.isDigit
      if digits.isEmpty then ([], cs) else (e :: sign ++ digits, rest.dropWhile Char.isDigit)
  | [] => ([], cs)

/-- A number; without fraction and exponent it is a whole number. -/
def readNumber (cs : List Char) : Except Error (Value × List Char) :=
  let (sign, body) := match cs with
    | '-' :: rest => (['-'], rest)
    | _ => ([], cs)
  let (whole, rest) := takeWhole body
  if whole.isEmpty then fail .value cs
  else
    let (fraction, rest) := takeFraction rest
    let (exponent, rest) := takeExponent rest
    let literal := sign ++ whole ++ fraction ++ exponent
    if fraction.isEmpty && exponent.isEmpty then
      match Text.readInt? (.ofList literal) with
      | some n => .ok (.int n, rest)
      | none => .error .numberTooLong
    else
      match Scientific.read? literal with
      | some x => .ok (.float x.toBinary64, rest)
      | none => fail .value cs

/-- The words that stand for a value. -/
def words : List (String × Value) := [
  ("null", .null), ("true", .bool true), ("false", .bool false), ("NaN", .float .nan),
  ("Infinity", .float (.infinite false)), ("-Infinity", .float (.infinite true))]

def readWord? (cs : List Char) : Option (Value × List Char) :=
  words.findSome? fun (word, v) =>
    if word.toList.isPrefixOf cs then some (v, cs.drop word.length) else none

/-- How deep arrays and objects may lie inside one another. -/
def maxDepth : Nat := 990

mutual

/-- A value; the first argument bounds its length, and the second one its depth. -/
def readValue : Nat → Nat → List Char → Except Error (Value × List Char)
  | 0, _, cs => fail .value cs
  | fuel + 1, depth, cs =>
    match cs with
    | '"' :: rest => do
      let (s, rest) ← readString rest
      return (.text s, rest)
    | '\x7b' :: rest => readObject fuel depth (skipSpace rest)
    | '[' :: rest => readArray fuel depth (skipSpace rest)
    | _ => match readWord? cs with
      | some r => .ok r
      | none => readNumber cs

/-- An array, from behind its bracket on. -/
def readArray : Nat → Nat → List Char → Except Error (Value × List Char)
  | 0, _, cs => fail .value cs
  | _, 0, _ => .error .tooDeep
  | fuel + 1, depth + 1, cs =>
    match cs with
    | ']' :: rest => .ok (.list [], rest)
    | cs => readItems fuel depth [] cs

/-- The items of an array up to its end, behind those read so far. -/
def readItems : Nat → Nat → List Value → List Char → Except Error (Value × List Char)
  | 0, _, _, cs => fail .value cs
  | fuel + 1, depth, done, cs => do
    let (item, rest) ← readValue fuel depth cs
    match skipSpace rest with
    | ']' :: rest => return (.list (done ++ [item]), rest)
    | ',' :: rest => readItems fuel depth (done ++ [item]) (skipSpace rest)
    | rest => fail .comma rest

/-- An object, from behind its brace on. -/
def readObject : Nat → Nat → List Char → Except Error (Value × List Char)
  | 0, _, cs => fail .value cs
  | _, 0, _ => .error .tooDeep
  | fuel + 1, depth + 1, cs =>
    match cs with
    | '\x7d' :: rest => .ok (.mapping [], rest)
    | cs => readMembers fuel depth [] cs

/-- The members of an object up to its end, behind those read so far. -/
def readMembers : Nat → Nat → List (Value × Value) → List Char → Except Error (Value × List Char)
  | 0, _, _, cs => fail .value cs
  | fuel + 1, depth, done, cs =>
    match cs with
    | '"' :: rest => do
      let (name, rest) ← readString rest
      let ':' :: rest := skipSpace rest | fail .colon (skipSpace rest)
      let (v, rest) ← readValue fuel depth (skipSpace rest)
      let done := Value.insertEntry (.text name) v done
      match skipSpace rest with
      | '\x7d' :: rest => return (.mapping done, rest)
      | ',' :: rest => readMembers fuel depth done (skipSpace rest)
      | rest => fail .comma rest
    | cs => fail .name cs

end

/-- The one value of a document. -/
def readDocument (cs : List Char) : Except Error Value := do
  if cs.head? = some '\ufeff' then fail .byteOrderMark cs
  let (v, rest) ← readValue (3 * cs.length + 3) maxDepth (skipSpace cs)
  let rest := skipSpace rest
  if rest.isEmpty then return v else fail .extra rest

end Montage.Json
