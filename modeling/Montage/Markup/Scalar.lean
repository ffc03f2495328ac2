import Montage.Markup.Cursor

/-!
The three ways to write a scalar: plain, quoted, and as a block. Each reader returns the characters
of the scalar and the place behind it; line breaks inside a scalar are folded.
-/

namespace Montage.Markup

/-- Breaks folded into one piece of text: a single line feed is a space, and further breaks stay. -/
def foldBreaks (first : Char) (more : List Char) : List Char :=
  (if first ≠ '\n' then [first] else if more.isEmpty then [' '] else []) ++ more

/-! Quoted scalars -/

/-- Empty lines inside a quoted scalar, with the blanks that begin the next line. -/
def quotedBreaks : Nat → List Char → Cursor → Except Fault (List Char × Cursor)
  | 0, _, _ => malformed
  | fuel + 1, done, c =>
    if c.atDocumentMarker then malformed
    else
      let c := c.skipWhile isSpace
      match c.takeBreak? with
      | some (x, c) => quotedBreaks fuel (done ++ [x]) c
      | none => .ok (done, c)

/-- Blanks and breaks inside a quoted scalar, folded. -/
def quotedSpaces (c : Cursor) : Except Fault (List Char × Cursor) := do
  let (blanks, c) := c.span isSpace
  match c.takeBreak? with
  | some (x, c) =>
    let (more, c) ← quotedBreaks c.bound [] c
    return (foldBreaks x more, c)
  | none => return (blanks, c)

/-- The character that a letter after a backslash stands for. -/
def escape? : Char → Option Char
  | '0' => some '\x00'
  | 'a' => some '\x07'
  | 'b' => some '\x08'
  | 't' => some '\t'
  | '\t' => some '\t'
  | 'n' => some '\n'
  | 'v' => some '\x0b'
  | 'f' => some '\x0c'
  | 'r' => some '\r'
  | 'e' => some '\x1b'
  | ' ' => some ' '
  | '"' => some '"'
  | '\\' => some '\\'
  | '/' => some '/'
  | 'N' => some '\u0085'
  | '_' => some '\u00a0'
  | 'L' => some '\u2028'
  | 'P' => some '\u2029'
  | _ => none

/-- How many hexadecimal digits follow a letter after a backslash. -/
def escapeWidth? : Char → Option Nat
  | 'x' => some 2
  | 'u' => some 4
  | 'U' => some 8
  | _ => none

def hexDigit? (c : Char) : Option Nat :=
  if c.isDigit then some (c.toNat - 0x30)
  else if 'a' ≤ c && c ≤ 'f' then some (c.toNat - 0x57)
  else if 'A' ≤ c && c ≤ 'F' then some (c.toNat - 0x37)
  else none

/-- The character with a code; a code beyond the last character is out of domain, and one of 32 bits
is out of range. The code of a surrogate is no character. A reader whose texts are codes keeps it, and
then the text has no encoding: printing it or opening a file of that name raises a `ValueError`. Texts
here are characters, all of which can be encoded, and the replacement character stands in for it. -/
def charOfCode (n : Nat) : Except Fault Char :=
  if 0x80000000 ≤ n then .error (.misuse .range)
  else if 0x110000 ≤ n then .error (.misuse .value)
  else if 0xd800 ≤ n && n < 0xe000 then .ok '\ufffd'
  else .ok (Char.ofNat n)

def readHex (digits : List Char) : Except Fault Nat := do
  digits.foldlM (fun n c => match hexDigit? c with
    | some d => pure (n * 16 + d)
    | none => malformed) 0

/-- What an escape stands for, from behind the backslash on. -/
def escapeAt (c : Cursor) : Except Fault (List Char × Cursor) := do
  let some x := c.peek | c.exhausted
  if let some y := escape? x then return ([y], c.next)
  if let some width := escapeWidth? x then
    let digits := c.next.rest.take width
    let code ← readHex digits
    if digits.length < width then c.exhausted
    return ([← charOfCode code], c.next.skip width)
  match c.takeBreak? with
  | some (_, c) => quotedBreaks c.bound [] c
  | none => malformed

/-- A quoted scalar from behind its opening quote on; `done` holds, in reverse, what was read. -/
def quotedFrom (double : Bool) : Nat → List Char → Cursor → Except Fault (List Char × Cursor)
  | 0, _, _ => malformed
  | fuel + 1, done, c =>
    match c.peek with
    | none => c.exhausted
    | some x =>
      if isSpace x || isBreak x then do
        let (text, c) ← quotedSpaces c
        quotedFrom double fuel (text.reverse ++ done) c
      else if double && x = '\\' then do
        let (text, c) ← escapeAt c.next
        quotedFrom double fuel (text.reverse ++ done) c
      else if !double && x = '\'' && c.peekAt 1 = some '\'' then
        quotedFrom double fuel ('\'' :: done) (c.skip 2)
      else if x = (if double then '"' else '\'') then .ok (done.reverse, c.next)
      else quotedFrom double fuel (x :: done) c.next

/-- A quoted scalar, from its opening quote on. -/
def quotedScalar (double : Bool) (c : Cursor) : Except Fault (List Char × Cursor) :=
  quotedFrom double c.bound [] c.next

/-! Plain scalars -/

/-- The characters of a plain scalar up to a blank, a comment or an indicator. -/
def plainRun (inFlow : Bool) : List Char → List Char
  | [] => []
  | x :: rest =>
    let stops :=
      isSpace x || isBreak x ||
        (x = ':' && (endsWord rest.head? || (inFlow && rest.head?.any ",[]\x7b\x7d".toList.contains)))
        || (inFlow && ",?[]\x7b\x7d".toList.contains x)
    if stops then [] else x :: plainRun inFlow rest

/-- Breaks and blanks behind a break in a plain scalar; `none` before a marker of a document. -/
def plainBreaks : Nat → List Char → Cursor → Option (List Char) × Cursor
  | 0, done, c => (some done, c)
  | fuel + 1, done, c =>
    if c.peek = some ' ' then plainBreaks fuel done c.next
    else match c.takeBreak? with
      | some (x, c) =>
        if c.atDocumentMarker then (none, c) else plainBreaks fuel (done ++ [x]) c
      | none => (some done, c)

/-- What lies between two runs of a plain scalar. -/
structure Gap where
  text : List Char
  brokeLine : Bool
  place : Cursor

def plainGap (c : Cursor) : Gap :=
  let (blanks, c) := c.span (· = ' ')
  match c.takeBreak? with
  | none => ⟨blanks, false, c⟩
  | some (x, c) =>
    if c.atDocumentMarker then ⟨[], true, c⟩
    else match plainBreaks c.bound [] c with
      | (some more, c) => ⟨foldBreaks x more, true, c⟩
      | (none, c) => ⟨[], true, c⟩

/-- A scalar with the place behind it, and whether a key may begin there. -/
structure PlainScalar where
  text : List Char
  brokeLine : Bool
  place : Cursor

/-- A plain scalar whose further lines are indented by at least `indent`; `done` holds, in reverse,
what was read, and `spaces` what lies before the next run. -/
def plainFrom (inFlow : Bool) (indent : Int) :
    Nat → List Char → List Char → Bool → Cursor → PlainScalar
  | 0, done, _, broke, c => ⟨done.reverse, broke, c⟩
  | fuel + 1, done, spaces, broke, c =>
    let run := if c.peek = some '#' then [] else plainRun inFlow c.rest
    if run.isEmpty then ⟨done.reverse, broke, c⟩
    else
      let done := run.reverse ++ spaces.reverse ++ done
      let gap := plainGap (c.skip run.length)
      let c := gap.place
      if gap.text.isEmpty || c.peek = some '#' || (!inFlow && (c.column : Int) < indent) then
        ⟨done.reverse, gap.brokeLine, c⟩
      else plainFrom inFlow indent fuel done gap.text gap.brokeLine c

def plainScalar (inFlow : Bool) (indent : Int) (c : Cursor) : PlainScalar :=
  plainFrom inFlow indent c.bound [] [] false c

/-! Block scalars -/

/-- What becomes of the line breaks at the end of a block scalar. -/
inductive Chomping where
  | clip
  | strip
  | keep
  deriving DecidableEq, Repr

structure BlockHeader where
  chomping : Chomping := .clip
  increment : Option Nat := none

def takeChomping (c : Cursor) : Option (Chomping × Cursor) :=
  match c.peek with
  | some '+' => some (.keep, c.next)
  | some '-' => some (.strip, c.next)
  | _ => none

/-- A digit other than zero, when a digit comes next. -/
def takeIncrement (c : Cursor) : Except Fault (Option Nat × Cursor) :=
  match c.peek with
  | some x =>
    if x = '0' then malformed
    else if x.isDigit then .ok (some (x.toNat - 0x30), c.next)
    else .ok (none, c)
  | none => .ok (none, c)

/-- The indicators behind `|` or `>`, in either order, up to the end of their line. -/
def blockHeader (c : Cursor) : Except Fault (BlockHeader × Cursor) := do
  let (header, c) ← match takeChomping c with
    | some (chomping, c) => do
      let (increment, c) ← takeIncrement c
      pure ((⟨chomping, increment⟩ : BlockHeader), c)
    | none => do
      let (increment, c) ← takeIncrement c
      match increment, takeChomping c with
      | some _, some (chomping, c) => pure (⟨chomping, increment⟩, c)
      | _, _ => pure (⟨.clip, increment⟩, c)
  if !endsField c.peek then malformed
  let c := c.skipSpaces.skipComment
  if !endsLine c.peek then malformed
  return (header, ((c.takeBreak?).map (·.2)).getD c)

/-- The empty lines that begin a block scalar, and the widest indentation among them. -/
def blockIndentation : Nat → List Char → Nat → Cursor → List Char × Nat × Cursor
  | 0, done, widest, c => (done, widest, c)
  | fuel + 1, done, widest, c =>
    if c.peek = some ' ' then
      let c := c.next
      blockIndentation fuel done (max widest c.column) c
    else match c.takeBreak? with
      | some (x, c) => blockIndentation fuel (done ++ [x]) widest c
      | none => (done, widest, c)

/-- Skips the indentation of a line, as far as it goes. -/
def skipIndent (indent : Nat) (c : Cursor) : Cursor :=
  c.skip (min (indent - c.column) (c.rest.takeWhile (· = ' ')).length)

/-- Empty lines inside a block scalar. -/
def blockBreaks (indent : Nat) : Nat → List Char → Cursor → List Char × Cursor
  | 0, done, c => (done, c)
  | fuel + 1, done, c =>
    let c := skipIndent indent c
    match c.takeBreak? with
    | some (x, c) => blockBreaks indent fuel (done ++ [x]) c
    | none => (done, c)

/-- Whether a line of the block begins here. -/
def atBlockLine (indent : Nat) (c : Cursor) : Bool := c.column = indent && c.peek.isSome

/-- The lines of a block scalar; `done` holds, in reverse, what was read, and `breaks` the empty lines
before the next line. The result holds the text without its last break, that break, and the empty lines
at the end. -/
def blockLines (folded : Bool) (indent : Nat) :
    Nat → List Char → List Char → Cursor → List Char × List Char × List Char × Cursor
  | 0, done, breaks, c => (done.reverse, [], breaks, c)
  | fuel + 1, done, breaks, c =>
    let indented := c.peek.any isSpace
    let (run, c) := c.span (!isBreak ·)
    let done := run.reverse ++ breaks.reverse ++ done
    let (last, c) := match c.takeBreak? with
      | some (x, c) => ([x], c)
      | none => ([], c)
    let (breaks, c) := blockBreaks indent c.bound [] c
    if atBlockLine indent c then
      let folds := folded && last = ['\n'] && !indented && !c.peek.any isSpace
      let glue := if folds then (if breaks.isEmpty then [' '] else []) else last
      blockLines folded indent fuel (glue ++ done) breaks c
    else (done.reverse, last, breaks, c)

/-- A block scalar from behind `|` or `>` on, inside blocks that are indented by `outer`. -/
def blockScalar (folded : Bool) (outer : Int) (c : Cursor) : Except Fault (List Char × Cursor) := do
  let (header, c) ← blockHeader c
  let least := (outer + 1).toNat.max 1
  let (breaks, indent, c) := match header.increment with
    | none =>
      let (breaks, widest, c) := blockIndentation c.bound [] 0 c
      (breaks, least.max widest, c)
    | some n =>
      let indent := least + n - 1
      let (breaks, c) := blockBreaks indent c.bound [] c
      (breaks, indent, c)
  let (text, last, breaks, c) :=
    if atBlockLine indent c then blockLines folded indent c.bound [] breaks c
    else ([], [], breaks, c)
  let last := if header.chomping = .strip then [] else last
  let tail := if header.chomping = .keep then breaks else []
  return (text ++ last ++ tail, c)

end Montage.Markup
