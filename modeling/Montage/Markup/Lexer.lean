import Montage.Markup.Scalar
import Montage.Markup.Token
import Montage.Number.Scientific

/-!
Marked-up text as tokens. Indentation opens and closes blocks, and a word turns out to be a key when
a colon follows it on its line, so that the tokens of a key are put in front of it afterwards.
-/

namespace Montage.Markup

/-- A place where a key may begin. -/
structure Candidate where
  /-- how many tokens come before it -/
  before : Nat
  /-- whether nothing but a key can stand there -/
  required : Bool
  place : Cursor

structure Lexer where
  place : Cursor
  /-- the tokens so far, the last one first -/
  tokens : List Token := []
  count : Nat := 0
  /-- the columns of the open blocks, the innermost first -/
  blocks : List Nat := []
  /-- a place for a key in each open flow collection and outside of them, the innermost first -/
  candidates : List (Option Candidate) := [none]
  keyAllowed : Bool := true

namespace Lexer

def inFlow (l : Lexer) : Bool := 1 < l.candidates.length

/-- The column of the innermost block, or -1. -/
def indent (l : Lexer) : Int :=
  match l.blocks with
  | column :: _ => column
  | [] => -1

def push (l : Lexer) (t : Token) : Lexer :=
  { l with tokens := t :: l.tokens, count := l.count + 1 }

/-- Puts a token behind the first `before` tokens. -/
def insert (l : Lexer) (before : Nat) (t : Token) : Lexer :=
  let later := l.count - before
  { l with
    tokens := l.tokens.take later ++ t :: l.tokens.drop later
    count := l.count + 1 }

/-- A token of so many characters. -/
def take (l : Lexer) (n : Nat) (t : Token) : Lexer :=
  { l.push t with place := l.place.skip n }

/-- Closes the blocks that are indented further than a column. -/
def closeBlocks (column : Int) : List Nat → List Token → Nat → List Nat × List Token × Nat
  | block :: blocks, tokens, count =>
    if column < block then closeBlocks column blocks (.blockEnd :: tokens) (count + 1)
    else (block :: blocks, tokens, count)
  | [], tokens, count => ([], tokens, count)

def unwind (l : Lexer) (column : Int) : Lexer :=
  if l.inFlow then l
  else
    let (blocks, tokens, count) := closeBlocks column l.blocks l.tokens l.count
    { l with blocks, tokens, count }

/-- Opens a block at a column, when it is indented further than the innermost one. -/
def openBlock (l : Lexer) (column before : Nat) (t : Token) : Lexer :=
  if l.indent < column then { l.insert before t with blocks := column :: l.blocks } else l

/-- Gives up the place for a key on this level. -/
def dropCandidate (l : Lexer) : Except Fault Lexer :=
  match l.candidates with
  | some c :: outer =>
    if c.required then malformed else .ok { l with candidates := none :: outer }
  | _ => .ok l

/-- Notes that a key may begin here. -/
def saveCandidate (l : Lexer) : Except Fault Lexer := do
  if !l.keyAllowed then return l
  let l ← l.dropCandidate
  let required := !l.inFlow && l.indent = l.place.column
  return { l with candidates := some ⟨l.count, required, l.place⟩ :: l.candidates.tail }

/-- A key lies on one line and within 1024 characters. -/
def isStale (here : Cursor) (c : Candidate) : Bool :=
  c.place.line ≠ here.line || 1024 < here.index - c.place.index

/-- Gives up the places for keys that are too far back. -/
def dropStale (l : Lexer) : Except Fault Lexer := do
  let candidates ← l.candidates.mapM fun candidate =>
    match candidate with
    | some c =>
      if isStale l.place c then (if c.required then malformed else pure none) else pure (some c)
    | none => pure none
  return { l with candidates }

/-- Skips blanks, comments and breaks; outside of flow collections a key may follow a break. -/
def skipBlank : Nat → Lexer → Lexer
  | 0, l => l
  | fuel + 1, l =>
    let c := l.place.skipSpaces.skipComment
    match c.takeBreak? with
    | some (_, c) => skipBlank fuel { l with place := c, keyAllowed := l.keyAllowed || !l.inFlow }
    | none => { l with place := c }

def toNextToken (l : Lexer) : Lexer :=
  let c := l.place
  let c := if c.index = 0 && c.peek = some byteOrderMark then c.next else c
  skipBlank c.bound { l with place := c }

/-! Directives -/

/-- The rest of a line that may hold a comment only. -/
def endLine (c : Cursor) : Except Fault Cursor :=
  let c := c.skipSpaces.skipComment
  if endsLine c.peek then .ok (((c.takeBreak?).map (·.2)).getD c) else malformed

def digits (c : Cursor) : Except Fault (Nat × Cursor) :=
  let (run, c) := c.span Char.isDigit
  if run.isEmpty then malformed
  else if !Text.rowsFit 0 run then .error (.misuse .value)
  else .ok (run.foldl (fun n d => n * 10 + (d.toNat - 0x30)) 0, c)

def versionDirective (c : Cursor) : Except Fault (Directive × Cursor) := do
  let (major, c) ← digits c.skipSpaces
  if c.peek ≠ some '.' then malformed
  let (minor, c) ← digits c.next
  if !endsField c.peek then malformed
  return (.version major minor, c)

/-- `!`, or a name between two of them. -/
def tagHandle (c : Cursor) : Except Fault (String × Cursor) := do
  if c.peek ≠ some '!' then malformed
  if c.peekAt 1 = some ' ' then return ("!", c.next)
  let (name, c) := c.next.span isNameChar
  if c.peek ≠ some '!' then malformed
  return (.ofList ('!' :: name ++ ['!']), c.next)

def isTagChar (c : Char) : Bool := isNameChar c || ";/?:@&=+$,_.!~*'()[]".toList.contains c

/-- A byte written as `%` and two hexadecimal digits. -/
def escapedByte? : List Char → Option UInt8
  | '%' :: a :: b :: _ => do
    return UInt8.ofNat ((← hexDigit? a) * 16 + (← hexDigit? b))
  | _ => none

/-- A row of escaped bytes. -/
def escapedBytes : Nat → List UInt8 → Cursor → Except Fault (List UInt8 × Cursor)
  | 0, done, c => .ok (done, c)
  | fuel + 1, done, c =>
    if c.peek ≠ some '%' then .ok (done, c)
    else match escapedByte? c.rest with
      | some b => escapedBytes fuel (done ++ [b]) (c.skip 3)
      | none => malformed

/-- The name of a tag, in which bytes may be escaped. -/
def tagName : Nat → List Char → Cursor → Except Fault (List Char × Cursor)
  | 0, done, c => .ok (done, c)
  | fuel + 1, done, c =>
    match c.peek with
    | some '%' => do
      let (bytes, c) ← escapedBytes c.bound [] c
      let some text := String.fromUTF8? ⟨bytes.toArray⟩ | malformed
      tagName fuel (done ++ text.toList) c
    | some x => if isTagChar x then tagName fuel (done ++ [x]) c.next else .ok (done, c)
    | none => .ok (done, c)

def tagSuffix (c : Cursor) : Except Fault (String × Cursor) := do
  let (name, c) ← tagName c.bound [] c
  if name.isEmpty then malformed
  return (.ofList name, c)

def tagDirective (c : Cursor) : Except Fault (Directive × Cursor) := do
  let (handle, c) ← tagHandle c.skipSpaces
  if c.peek ≠ some ' ' then malformed
  let (tagStart, c) ← tagSuffix c.skipSpaces
  if !endsField c.peek then malformed
  return (.tagHandle handle tagStart, c)

def directive (c : Cursor) : Except Fault (Directive × Cursor) := do
  let (name, c) := c.next.span isNameChar
  if name.isEmpty || !endsField c.peek then malformed
  let (d, c) ← if name = "YAML".toList then versionDirective c
    else if name = "TAG".toList then tagDirective c
    else pure (.unknown, c.skipWhile (!isBreak ·))
  return (d, ← endLine c)

/-! Names and tags -/

/-- What may follow the name of an anchor. -/
def endsAnchor : Option Char → Bool
  | none => true
  | some c => isSpace c || isBreak c || "?:,]\x7d%@\x60".toList.contains c

def anchorName (c : Cursor) : Except Fault (String × Cursor) := do
  let (name, c) := c.next.span isNameChar
  if name.isEmpty || !endsAnchor c.peek then malformed
  return (.ofList name, c)

/-- Whether an exclamation mark comes before the next blank. -/
def hasHandle (cs : List Char) : Bool :=
  (cs.takeWhile fun c => c ≠ ' ' && !isBreak c).contains '!'

def tag (c : Cursor) : Except Fault (Token × Cursor) := do
  let (t, c) ← if c.peekAt 1 = some '<' then do
      let (suffix, c) ← tagSuffix (c.skip 2)
      if c.peek ≠ some '>' then malformed
      pure (Token.tag none suffix, c.next)
    else if endsWord (c.peekAt 1) then pure (Token.tag none "!", c.next)
    else do
      let (handle, c) ← if hasHandle (c.rest.drop 1) then tagHandle c else pure ("!", c.next)
      let (suffix, c) ← tagSuffix c
      pure (Token.tag (some handle) suffix, c)
  if !endsField c.peek then malformed
  return (t, c)

/-! The next token -/

/-- A token that begins in the first column and ends all blocks. -/
def endBlocks (l : Lexer) : Except Fault Lexer := do
  return { ← (l.unwind (-1)).dropCandidate with keyAllowed := false }

def blockEntry (l : Lexer) : Except Fault Lexer := do
  if !l.inFlow && !l.keyAllowed then malformed
  let l := if l.inFlow then l else l.openBlock l.place.column l.count .blockSequenceStart
  return ({ ← l.dropCandidate with keyAllowed := true }).take 1 .blockEntry

def complexKey (l : Lexer) : Except Fault Lexer := do
  if !l.inFlow && !l.keyAllowed then malformed
  let l := if l.inFlow then l else l.openBlock l.place.column l.count .blockMappingStart
  return ({ ← l.dropCandidate with keyAllowed := !l.inFlow }).take 1 .key

/-- A colon: what was noted as a candidate is the key. -/
def valueMark (l : Lexer) : Except Fault Lexer := do
  match l.candidates with
  | some c :: outer =>
    let l := { l with candidates := none :: outer, keyAllowed := false }
    let l := l.insert c.before .key
    let l := if l.inFlow then l else l.openBlock c.place.column c.before .blockMappingStart
    return l.take 1 .value
  | _ =>
    if !l.inFlow && !l.keyAllowed then malformed
    let l := if l.inFlow then l else l.openBlock l.place.column l.count .blockMappingStart
    return ({ l with keyAllowed := !l.inFlow }).take 1 .value

def flowStart (l : Lexer) (t : Token) : Except Fault Lexer := do
  let l ← l.saveCandidate
  return ({ l with candidates := none :: l.candidates, keyAllowed := true }).take 1 t

def flowEnd (l : Lexer) (t : Token) : Except Fault Lexer := do
  if !l.inFlow then malformed
  let l ← l.dropCandidate
  return ({ l with candidates := l.candidates.tail, keyAllowed := false }).take 1 t

/-- A token that may be a key by itself. -/
def word (l : Lexer) (read : Cursor → Except Fault (Token × Cursor)) : Except Fault Lexer := do
  let l := { ← l.saveCandidate with keyAllowed := false }
  let (t, place) ← read l.place
  return { l.push t with place }

def quoted (double : Bool) (c : Cursor) : Except Fault (Token × Cursor) := do
  let (text, c) ← quotedScalar double c
  return (.scalar (.ofList text) false, c)

def block (l : Lexer) (folded : Bool) : Except Fault Lexer := do
  let l := { ← l.dropCandidate with keyAllowed := true }
  let (text, place) ← blockScalar folded l.indent l.place.next
  return { l.push (.scalar (.ofList text) false) with place }

def plain (l : Lexer) : Except Fault Lexer := do
  let l ← l.saveCandidate
  let s := plainScalar l.inFlow (l.indent + 1) l.place
  return { l.push (.scalar (.ofList s.text) true) with
    place := s.place
    keyAllowed := s.brokeLine }

/-- Characters that a plain scalar cannot begin with. -/
def indicators : List Char := "-?:,[]\x7b\x7d#&*!|>'\"%@\x60".toList

def beginsPlain (l : Lexer) (c : Char) : Bool :=
  !(isSpace c || isBreak c || indicators.contains c) ||
    (!endsWord (l.place.peekAt 1) && (c = '-' || (!l.inFlow && (c = '?' || c = ':'))))

/-- Reads the token that begins with a character. -/
def token (l : Lexer) (c : Char) : Except Fault Lexer := do
  let wordEnds := endsWord (l.place.peekAt 1)
  let first := l.place.column = 0
  if first && c = '%' then
    let l ← l.endBlocks
    let (d, place) ← directive l.place
    return { l.push (.directive d) with place }
  else if first && l.place.atMarker "---" then return (← l.endBlocks).take 3 .documentStart
  else if first && l.place.atMarker "..." then return (← l.endBlocks).take 3 .documentEnd
  else match c with
  | '[' => l.flowStart .flowSequenceStart
  | '\x7b' => l.flowStart .flowMappingStart
  | ']' => l.flowEnd .flowSequenceEnd
  | '\x7d' => l.flowEnd .flowMappingEnd
  | ',' => return ({ ← l.dropCandidate with keyAllowed := true }).take 1 .flowEntry
  | '*' => l.word fun c => do
    let (name, c) ← anchorName c
    return (.alias name, c)
  | '&' => l.word fun c => do
    let (name, c) ← anchorName c
    return (.anchor name, c)
  | '!' => l.word tag
  | '\'' => l.word (quoted false)
  | '"' => l.word (quoted true)
  | _ =>
    if c = '-' && wordEnds then l.blockEntry
    else if c = '?' && (l.inFlow || wordEnds) then l.complexKey
    else if c = ':' && (l.inFlow || wordEnds) then l.valueMark
    else if (c = '|' || c = '>') && !l.inFlow then l.block (c = '>')
    else if l.beginsPlain c then l.plain
    else malformed

/-- Reads the next token; at the end of the text there is none after it. -/
def step (l : Lexer) : Except Fault (Lexer × Bool) := do
  let l := l.toNextToken
  l.place.ensure
  let l ← l.dropStale
  let l := l.unwind l.place.column
  match l.place.peek with
  | none => return ((← l.endBlocks).push .streamEnd, false)
  | some c =>
    let l ← l.token c
    l.place.ensure
    return (l, true)

/-- How many tokens stay where they are: those in front of the first place for a key. -/
def settled (l : Lexer) : Nat :=
  let waiting := (l.candidates.filterMap id).filter (!isStale l.place ·)
  waiting.foldl (fun n c => min n c.before) l.count

/-- Reads tokens up to the end of the text, or up to a fault. -/
def run : Nat → Lexer → Tokens
  | 0, l => ⟨l.tokens.reverse, some .markup⟩
  | fuel + 1, l =>
    match l.step with
    | .ok (l, true) => run fuel l
    | .ok (l, false) => ⟨l.tokens.reverse, none⟩
    | .error e => ⟨l.tokens.reverse.take l.settled, some e⟩

end Lexer

/-- The tokens of a text, from the first to the end of the stream, or up to what is at fault in it or
behind it. -/
def Tokens.ofText (text : List Char) (behind : Option Fault) : Tokens :=
  let place := Cursor.start text behind
  Lexer.run place.bound { place }

end Montage.Markup
