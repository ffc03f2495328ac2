import Montage.Timecode
import Montage.Timeline.Basic

/-!
Timelines read from a snapshot. Entries keep their order, missing names and times take their
defaults, and the first entry that is malformed refuses the whole timeline.
-/

namespace Montage

/-- The time under a key; null is as if it were missing. -/
def Timecode.ofField (entry : Value) (key : String) (default : Value) : Except Fault Binary64 :=
  match entry.getD key default with
  | .null => .error (.rejected (.required key))
  | v => Timecode.seconds v

/-- The list under a key, empty when the key is missing. -/
def Value.listField (v : Value) (key : String) (refusal : Rejection) : Except Fault (List Value) :=
  match (v.getD key (.list [])).list? with
  | some items => .ok items
  | none => .error (.rejected refusal)

/-- Reads the entries of a list with their positions, from one on. -/
def readEntries {α : Type} (read : Value → Nat → Except Fault α) (entries : List Value) :
    Except Fault (List α) :=
  (entries.zipIdx 1).mapM fun (entry, position) => read entry position

namespace TrackKind

def defaultContentType : TrackKind → String
  | video => "video/mp4"
  | image => "image/jpeg"
  | audio => "audio/mpeg"
  | text => ""

/-- Clips of video and audio tracks are heard unless the snapshot says otherwise. -/
def audible (kind : TrackKind) : Bool := kind = video || kind = audio

end TrackKind

/-- The source of a clip: none on a text track, and none without address and storage path. -/
def Source.ofClip? (entry : Value) (kind : TrackKind) : Option Source :=
  let url := entry.getD "file_url" (entry.get "url")
  let storagePath := entry.get "storage_path"
  if kind = .text || (url.isNull && storagePath.isNull) then none
  else
    let contentType := entry.getD "file_type" (entry.get "content_type")
    some ⟨url, storagePath, contentType.orNone.getD (.text kind.defaultContentType)⟩

def Clip.ofValue (kind : TrackKind) (track : String) (entry : Value) (position : Nat) :
    Except Fault Clip := do
  if !entry.isMapping then throw (.rejected (.entriesNotMappings "track clips"))
  let id ← (entry.getD "id" (.text s!"{track}-{position}")).toText
  let start ← Timecode.ofField entry "start_time" (.int 0)
  let duration ← Timecode.ofField entry "duration" .null
  let trimStart ← Timecode.ofField entry "trim_start" (.int 0)
  let trimEnd ← Timecode.ofField entry "trim_end" (.int 0)
  return {
    id, start, duration, trimStart, trimEnd
    source := Source.ofClip? entry kind
    hasAudio := (entry.getD "audio" kind.audible).truthy
    name := (entry.getD "name" (entry.get "file_name")).orNone.getD (.text id) }

def Track.ofValue (entry : Value) (position : Nat) : Except Fault Track := do
  if !entry.isMapping then throw (.rejected (.entriesNotMappings "timeline.tracks entries"))
  let some kind := TrackKind.ofValue? (entry.getD "type" (entry.get "kind"))
    | throw (.rejected (.trackType position))
  let id ← (entry.getD "id" (.text s!"{kind.name}-{position}")).toText
  let clips ← readEntries (Clip.ofValue kind id) (← entry.listField "clips" (.trackClips id))
  return {
    id, kind, clips
    locked := (entry.getD "locked" false).truthy
    visible := (entry.getD "visible" true).truthy
    name := (entry.get "name").orNone.getD (.text id) }

def TextOverlay.ofValue (entry : Value) (position : Nat) : Except Fault TextOverlay := do
  if !entry.isMapping then throw (.rejected (.entriesNotMappings "timeline.text_overlays entries"))
  let some text := (entry.get "text").orNone | throw (.rejected (.overlayText position))
  let id ← (entry.getD "id" (.text s!"text-{position}")).toText
  let text ← text.toText
  let start ← Timecode.ofField entry "start_time" (.int 0)
  let duration ← Timecode.ofField entry "duration" .null
  let x ← (entry.getD "x" (.int 50)).toBinary64
  let y ← (entry.getD "y" (.int 50)).toBinary64
  return {
    id, start, duration, x, y
    text := .text text
    fontSize := entry.getD "font_size" (.int 48)
    color := entry.getD "color" (.text "white")
    font := entry.get "font" }

/-- A timeline from a snapshot; null is an empty one. A minimum duration from outside comes before
that of the snapshot. -/
def Timeline.ofValue (snapshot : Value) (minimumDuration : Value := .null) :
    Except Fault Timeline := do
  let snapshot := snapshot.orNone.getD (.mapping [])
  if !snapshot.isMapping then throw (.rejected (.notMapping "timeline"))
  let tracks ← snapshot.listField "tracks" (.notList "timeline.tracks")
  let overlays ← snapshot.listField "text_overlays" (.notList "timeline.text_overlays")
  let tracks ← readEntries Track.ofValue tracks
  let overlays ← readEntries TextOverlay.ofValue overlays
  let minimum := minimumDuration.orNone.getD (snapshot.getD "minimum_duration" (.int 5))
  return { tracks, overlays, minimumDuration := ← Timecode.seconds minimum }

end Montage
