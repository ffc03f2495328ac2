import Montage.Graph.Statement
import Montage.Graph.Token
import Montage.Measure
import Montage.Timeline.Basic

/-!
Texts over the picture. The text itself goes into a file beside the inputs; font, size and colour
are replaced by defaults, with a warning, when they cannot stand in a statement.
-/

namespace Montage.Graph

structure Canvas where
  width : Int := 1920
  height : Int := 1080

def defaultFont : String := "Arial"

def defaultColor : String := "white"

def defaultFontSize : Int := 48

/-- A style in use, and a warning when it stands in for another. -/
structure Style (α : Type) where
  value : α
  warning : Option String := none

def fontFile (font : String) : String := s!"font{font}.ttf"

def captionFile (index : Nat) : String := s!"overlay_text_{index}.txt"

def isUnset : Value → Bool
  | .null => true
  | .text s => s.isEmpty
  | _ => false

def warnAbout (o : TextOverlay) (what : String) : String := s!"text overlay {o.id}: " ++ what

def fontOf (o : TextOverlay) : Style String :=
  if isUnset o.font then ⟨defaultFont, none⟩
  else match fontToken? o.font with
    | some font => ⟨font, none⟩
    | none => ⟨defaultFont, warnAbout o ("unsupported font name, using " ++ defaultFont)⟩

def colorOf (o : TextOverlay) : Style String :=
  match styleToken? o.color with
  | some color => ⟨color, none⟩
  | none => ⟨defaultColor, warnAbout o ("unsupported color, using " ++ defaultColor)⟩

/-- The size in whole pixels; no number, or none above zero, gives the default. -/
def fontSizeOf (o : TextOverlay) : Except Fault (Style Int) :=
  let fallback : Style Int :=
    ⟨defaultFontSize, warnAbout o s!"invalid font size, using {defaultFontSize}"⟩
  match o.fontSize.toBinary64 with
  | .error (.misuse .range) => throw (.misuse .range)
  | .error _ => return fallback
  | .ok x => match Timecode.round x with
    | .ok size => return if 0 < size then ⟨size, none⟩ else fallback
    | .error _ => return fallback

/-- The text of an overlay as the bytes of its file; no text is the empty text. -/
def captionData : Value → Except Fault ByteArray
  | .null => .ok "".toUTF8
  | .text s => .ok s.toUTF8
  | _ => .error (.misuse .operation)

/-- One overlay in the graph. -/
structure Caption where
  file : SideFile
  font : String
  filter : DrawText Binary64
  warnings : List String

def Caption.ofOverlay (canvas : Canvas) (index : Nat) (o : TextOverlay) : Except Fault Caption := do
  let file := ⟨captionFile index, ← captionData o.text⟩
  let font := fontOf o
  let x ← Measure.percentOf o.x canvas.width
  let y ← Measure.percentOf o.y canvas.height
  let size ← fontSizeOf o
  let color := colorOf o
  return {
    file
    font := font.value
    filter := {
      textFile := captionFile index
      fontFile := some (fontFile font.value)
      anchorX := x
      anchorY := y
      fontSize := size.value
      color := color.value
      window := ⟨o.start, o.finish, true⟩ }
    warnings := [font.warning, size.warning, color.warning].filterMap id }

end Montage.Graph
