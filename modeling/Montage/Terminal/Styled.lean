import Montage.Text.Blank

/-!
Text with styles on parts of it, as the terminal shows it. Characters that would move the cursor or
ring the bell are left out.
-/

namespace Montage.Terminal

/-- The colours of the terminal. -/
structure Palette where
  foreground : String
  dim : String
  command : String
  flag : String
  number : String
  path : String
  label : String
  problem : String

def palette : Palette where
  foreground := "#D8DEE9"
  dim := "#4C566A"
  command := "#ECEFF4"
  flag := "#81A1C1"
  number := "#B48EAD"
  path := "#A3BE8C"
  label := "#EBCB8B"
  problem := "#BF616A"

def bold (style : String) : String := "bold " ++ style

/-- A style on the characters from `start` to before `finish`. -/
structure Span where
  start : Nat
  finish : Nat
  style : String
  deriving DecidableEq, Repr

structure Styled where
  plain : String := ""
  style : String := ""
  spans : List Span := []
  deriving DecidableEq, Repr

def isControl (c : Char) : Bool := [0x07, 0x08, 0x0b, 0x0c, 0x0d].contains c.toNat

def withoutControls (s : String) : String := .ofList (s.toList.filter (!isControl ·))

namespace Styled

def ofText (s style : String) : Styled := { plain := withoutControls s, style }

/-- Appends a text, in a style of its own if one is given. -/
def append (t : Styled) (s : String) (style : Option String := none) : Styled :=
  if s.isEmpty then t
  else
    let shown := withoutControls s
    let start := t.plain.length
    { t with
      plain := t.plain ++ shown
      spans := t.spans ++ (style.map fun style => ⟨start, start + shown.length, style⟩).toList }

def newline (t : Styled) : Styled := t.append "\n"

/-- Puts a style on a part, as far as the text reaches. -/
def stylize (t : Styled) (span : Span) : Styled :=
  if t.plain.length ≤ span.start || span.finish ≤ span.start then t
  else { t with spans := t.spans ++ [{ span with finish := min t.plain.length span.finish }] }

/-- The characters under a span. -/
def covered (t : Styled) (span : Span) : String :=
  .ofList ((t.plain.toList.drop span.start).take (span.finish - span.start))

end Styled

end Montage.Terminal
