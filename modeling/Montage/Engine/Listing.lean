import Montage.Text.Blank
import Montage.Text.Digit

/-!
The listing of streams that the engine prints for a file.
-/

namespace Montage.Engine

/-- A number in the digits of any script, taken off the front of a text. -/
def dropNumber? (cs : List Char) : Option (List Char) :=
  match cs with
  | c :: _ => if Text.isDigit c then some (cs.dropWhile Text.isDigit) else none
  | [] => none

/-- The characters behind a given text that begins a line. -/
def dropStart? (start : String) (cs : List Char) : Option (List Char) :=
  if start.toList.isPrefixOf cs then some (cs.drop start.length) else none

def audioMark : List Char := " Audio:".toList

/-- Whether a line names an audio stream: its numbers, a word that ends in a colon, and the kind. -/
def isAudioLine (line : String) : Bool :=
  let numbered := do
    let cs ← dropStart? "Stream #" (line.toList.dropWhile Text.isBlank)
    dropNumber? (← dropStart? ":" (← dropNumber? cs))
  match numbered with
  | none => false
  | some cs =>
    let word := cs.takeWhile (!Text.isBlank ·)
    word.getLast? = some ':' && audioMark.isPrefixOf (cs.drop word.length)

def isStreamLine (line : String) : Bool := Text.startsWith "Stream #" (Text.strip line)

/-- Whether the listing names an audio stream; a listing without any stream is taken to do so. -/
def listsAudio (listing : String) : Bool :=
  let lines := Text.lines listing
  !lines.any isStreamLine || lines.any isAudioLine

end Montage.Engine
