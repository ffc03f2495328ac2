import Montage.Fault

/-!
A place in a marked-up text: the characters from there on, with their line and column. The classes
of characters that end a line, a word or a plain scalar are here too.
-/

namespace Montage.Markup

def byteOrderMark : Char := '\ufeff'

/-- Characters that may stand in a document. -/
def isAllowed (c : Char) : Bool :=
  let n := c.toNat
  n = 0x9 || n = 0xa || n = 0xd || (0x20 ≤ n && n ≤ 0x7e) || n = 0x85 ||
    (0xa0 ≤ n && n ≤ 0xfffd) || 0x10000 ≤ n

def isBreak (c : Char) : Bool :=
  c = '\n' || c = '\u0085' || c = '\u2028' || c = '\u2029'

def isSpace (c : Char) : Bool := c = ' ' || c = '\t'

/-- Spaces, tabs, breaks, and the end of the text. -/
def endsWord : Option Char → Bool
  | none => true
  | some c => isSpace c || isBreak c

/-- Breaks and the end of the text. -/
def endsLine : Option Char → Bool
  | none => true
  | some c => isBreak c

/-- Spaces, breaks and the end of the text. -/
def endsField : Option Char → Bool
  | none => true
  | some c => c = ' ' || isBreak c

/-- Letters, digits, `-` and `_`. -/
def isNameChar (c : Char) : Bool := c.isAlphanum || c = '-' || c = '_'

structure Cursor where
  rest : List Char
  /-- how many characters the text has from its beginning on -/
  size : Nat
  /-- what is at fault behind these characters, when the text does not end there -/
  behind : Option Fault := none
  index : Nat := 0
  line : Nat := 0
  column : Nat := 0

namespace Cursor

/-- The beginning of a text. -/
def start (text : List Char) (behind : Option Fault) : Cursor :=
  { rest := text, size := text.length, behind }

/-- More than there are characters left. -/
def bound (c : Cursor) : Nat := c.size - c.index + 1

/-- A reader needs more than what is left. -/
def exhausted {α : Type} (c : Cursor) : Except Fault α := .error (c.behind.getD .markup)

/-- Refuses to go on where the text does not end and what follows cannot be read. -/
def ensure (c : Cursor) : Except Fault Unit :=
  if c.rest.isEmpty && c.behind.isSome then c.exhausted else .ok ()

def peek (c : Cursor) : Option Char := c.rest.head?

def peekAt (c : Cursor) (n : Nat) : Option Char := c.rest[n]?

def next (c : Cursor) : Cursor :=
  match c.rest with
  | [] => c
  | x :: rest =>
    let c := { c with rest, index := c.index + 1 }
    if isBreak x then { c with line := c.line + 1, column := 0 }
    else if x = byteOrderMark then c
    else { c with column := c.column + 1 }

def skip (c : Cursor) : Nat → Cursor
  | 0 => c
  | n + 1 => c.next.skip n

/-- The characters of a class from here on, and the place behind them. -/
def span (c : Cursor) (p : Char → Bool) : List Char × Cursor :=
  let run := c.rest.takeWhile p
  (run, c.skip run.length)

def skipWhile (c : Cursor) (p : Char → Bool) : Cursor := (c.span p).2

def skipSpaces (c : Cursor) : Cursor := c.skipWhile (· = ' ')

/-- Skips a comment, when one begins here. -/
def skipComment (c : Cursor) : Cursor :=
  if c.peek = some '#' then c.skipWhile (!isBreak ·) else c

/-- The break that begins here, as it counts in a scalar, and the place behind it. -/
def takeBreak? (c : Cursor) : Option (Char × Cursor) :=
  match c.peek with
  | some x => if isBreak x then some (if x = '\u0085' then '\n' else x, c.next) else none
  | none => none

/-- Whether the marker of a start or end of a document begins here. -/
def atMarker (c : Cursor) (marker : String) : Bool :=
  marker.toList.isPrefixOf c.rest && endsWord (c.peekAt 3)

def atDocumentMarker (c : Cursor) : Bool := c.atMarker "---" || c.atMarker "..."

end Cursor

/-- The refusal of a malformed document. -/
def malformed {α : Type} : Except Fault α := .error .markup

end Montage.Markup
