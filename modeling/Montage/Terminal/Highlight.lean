import Montage.Terminal.Styled
import Montage.Text.Digit
import Montage.Text.Word
import Montage.Value

/-!
Highlighting of a command. Each kind of word has a rule for how many characters it takes at a place,
given the character before it, and a style; the kinds are marked one after the other, so that a
later mark may lie on an earlier one.
-/

namespace Montage.Terminal

/-- How many characters a word takes at a place, if one begins there. -/
abbrev WordRule := Option Char → List Char → Option Nat

def isAlphanumeric (c : Char) : Bool := c.isAlphanum

/-- Whether the character beside a place is part of a word. -/
def besideWord (c : Option Char) : Bool := c.any Text.isWord

/-- The number of characters of a text that stands at a place. -/
def fixedLength? (s : String) (cs : List Char) : Option Nat :=
  if s.toList.isPrefixOf cs then some s.length else none

def codecNames : List String := ["libx264", "aac", "yuv420p"]

/-- A name of a codec that stands on its own. -/
def codecRule : WordRule := fun before cs =>
  if besideWord before then none
  else codecNames.findSome? fun name =>
    (fixedLength? name cs).filter fun n => !besideWord (cs.drop n).head?

def isFlagChar (c : Char) : Bool := isAlphanumeric c || "_:-".toList.contains c

/-- The characters of a flag behind its dashes. -/
def flagName? : List Char → Option Nat
  | c :: cs => if isAlphanumeric c then some (1 + (cs.takeWhile isFlagChar).length) else none
  | [] => none

/-- One or two dashes and a name. -/
def flagRule : WordRule := fun _ cs =>
  match cs with
  | '-' :: '-' :: rest => (flagName? rest).map (· + 2)
  | '-' :: rest => (flagName? rest).map (· + 1)
  | _ => none

/-- The digits at a place. -/
def digitRun (cs : List Char) : List Char := cs.takeWhile Text.isDigit

/-- Digits on both sides of a point, with no word on either side. -/
def decimalRule : WordRule := fun before cs =>
  let whole := (digitRun cs).length
  if besideWord before || whole = 0 then none
  else match cs.drop whole with
    | '.' :: rest =>
      let places := (digitRun rest).length
      if places = 0 || besideWord (rest.drop places).head? then none
      else some (whole + 1 + places)
    | _ => none

/-- Whether a point and a digit stand at a place. -/
def continuesDecimal : List Char → Bool
  | '.' :: c :: _ => Text.isDigit c
  | _ => false

/-- Digits with no word on either side and no decimal places behind them. -/
def wholeRule : WordRule := fun before cs =>
  let digits := (digitRun cs).length
  let rest := cs.drop digits
  if besideWord before || digits = 0 || besideWord rest.head? || continuesDecimal rest then none
  else some digits

def isLabelChar (c : Char) : Bool := isAlphanumeric c || c = '_' || c = ':'

/-- A label between brackets. -/
def labelRule : WordRule := fun _ cs =>
  match cs with
  | '[' :: rest =>
    let name := (rest.takeWhile isLabelChar).length
    if 0 < name && (rest.drop name).head? = some ']' then some (name + 2) else none
  | _ => none

def isPathChar (c : Char) : Bool := Text.isWord c || c = '.' || c = '-'

def mediaEndings : List String := [".mp4", ".mov", ".png", ".jpg", ".txt", ".ttf"]

/-- The number of characters up to the end of the last media ending in a path, which has at least
one character before it. `taken` characters of the path come before those given. -/
def lastMediaEnd (taken : Nat) : List Char → Option Nat
  | [] => none
  | c :: cs =>
    let here := mediaEndings.findSome? fun ending =>
      (fixedLength? ending (c :: cs)).filter fun n => !besideWord ((c :: cs).drop n).head?
    let ends := if isPathChar c then lastMediaEnd (taken + 1) cs else none
    ends.or (if taken = 0 then none else here.map (taken + ·))

/-- The name of a media file, from the edge of a word on. -/
def pathRule : WordRule := fun before cs =>
  if besideWord before = besideWord cs.head? then none else lastMediaEnd 0 cs

/-- The places of all words of a kind, from left to right, none inside another; `skip` characters
belong to the last one. -/
def findWords (rule : WordRule) (place skip : Nat) (before : Option Char) :
    List Char → List (Nat × Nat)
  | [] => []
  | c :: cs =>
    match skip with
    | skip + 1 => findWords rule (place + 1) skip (some c) cs
    | 0 => match rule before (c :: cs) with
      | some n => (place, place + n) :: findWords rule (place + 1) (n - 1) (some c) cs
      | none => findWords rule (place + 1) 0 (some c) cs

/-- The kinds of words with their styles, in the order in which they are marked. -/
def wordStyles : List (WordRule × String) := [
  (codecRule, palette.foreground), (flagRule, palette.flag), (decimalRule, palette.number),
  (wholeRule, palette.number), (labelRule, palette.label), (pathRule, palette.path)]

def wordSpans (s : String) : List Span :=
  wordStyles.flatMap fun (rule, style) =>
    (findWords rule 0 0 none s.toList).map fun (start, finish) => ⟨start, finish, style⟩

/-- A command with its words marked. -/
def highlight (command : String) : Styled :=
  (wordSpans command).foldl .stylize (.ofText command (bold palette.command))

/-- What is highlighted of a value: nothing of an empty text or of null. -/
def highlighted? : Value → Except Fault (Option Styled)
  | .null => .ok none
  | .text s => .ok (if s.isEmpty then none else some (highlight s))
  | _ => .error (.misuse .operation)

end Montage.Terminal
