import Montage.Timeline.Source

/-!
The timeline of an edit: tracks of clips, and texts laid over the picture. Times are in seconds.
-/

namespace Montage

inductive TrackKind where
  | video
  | audio
  | text
  | image
  deriving DecidableEq, Repr

namespace TrackKind

def all : List TrackKind := [video, audio, text, image]

def name : TrackKind → String
  | video => "video"
  | audio => "audio"
  | text => "text"
  | image => "image"

def ofName? (s : String) : Option TrackKind := all.find? (·.name == s)

def ofValue? : Value → Option TrackKind
  | .text s => ofName? s
  | _ => none

end TrackKind

structure Clip where
  id : String
  start : Binary64
  duration : Binary64
  source : Option Source := none
  trimStart : Binary64 := .zero
  trimEnd : Binary64 := .zero
  hasAudio : Bool := true
  name : Value := .text id

def Clip.finish (c : Clip) : Binary64 := c.start + c.duration

structure Track where
  id : String
  kind : TrackKind
  clips : List Clip := []
  locked : Bool := false
  visible : Bool := true
  name : Value := .text id

/-- A text over the picture. Size, colour and font are what the snapshot gives; the graph judges
them. -/
structure TextOverlay where
  id : String
  text : Value
  start : Binary64
  duration : Binary64
  x : Binary64 := .ofInt 50
  y : Binary64 := .ofInt 50
  fontSize : Value := .int 48
  color : Value := .text "white"
  font : Value := .null

def TextOverlay.finish (o : TextOverlay) : Binary64 := o.start + o.duration

structure Timeline where
  tracks : List Track := []
  overlays : List TextOverlay := []
  minimumDuration : Binary64 := .ofInt 5

namespace Timeline

def clips (t : Timeline) : List Clip := t.tracks.flatMap (·.clips)

/-- The ends of all clips and overlays, in order. -/
def finishes (t : Timeline) : List Binary64 :=
  t.clips.map (·.finish) ++ t.overlays.map (·.finish)

/-- The minimum duration, or the latest end beyond it. -/
def totalDuration (t : Timeline) : Binary64 :=
  t.finishes.foldl .max t.minimumDuration

def tracksOfKind (t : Timeline) (kind : TrackKind) : List Track :=
  t.tracks.filter (·.kind = kind)

def clipCount (t : Timeline) : Nat := t.clips.length

end Timeline

end Montage
