import Montage.Cutting.Merge
import Montage.Cutting.Response
import Montage.Export.Request

/-!
Requests to cut clips out of a recording: the source, its transcript, and what is relevant of it,
given as records, as the answer of a query, or by the numbers of passages.
-/

namespace Montage.Cutting

structure CutRequest where
  file : String
  source : Source
  hasAudio : Bool := true
  transcript : List Passage
  segments : List Segment
  rule : MergeRule
  /-- the order of the clips, when it is not that of their times -/
  order : Option (List Int) := none
  joined : Bool := false
  subtitles : Bool := false
  outputDirectory : String
  stem : Value := .text "clip"
  quality : Value := .text "medium"
  storageRoot : Option String := none
  timeout : Value := .int 60
  engine : Value := defaultEngine

/-- The source of a recording, which has an address or a storage path. -/
def recordingSource (entry : Value) : Except Fault Source := do
  if !entry.isMapping then throw (.rejected (.notMapping "source"))
  let url := entry.get "url"
  let storagePath := entry.get "storage_path"
  if url.isNull && storagePath.isNull then throw (.rejected .noSource)
  return ⟨url, storagePath, entry.getD "content_type" "video/mp4"⟩

/-- The relevant segments, from the first of the three forms that is there. -/
def relevantSegments (data : Value) (transcript : List Passage) : Except Fault (List Segment) :=
  match data.get "matches", data.get "relevance_response", data.get "indices" with
  | .null, .null, .null => throw (.rejected .noMatches)
  | .null, .null, indices => do
    Segment.ofPassages transcript (← (← indices.items).mapM (·.toInt))
  | .null, response, _ => do Segment.ofResponse (← response.toText)
  | records, _, _ => Segment.ofRecords records

def orderOf (v : Value) : Except Fault (Option (List Int)) := do
  if v.isNull then return none
  let some positions := v.list? | throw (.rejected .orderShape)
  return some (← positions.mapM (·.toInt))

/-- Where the media are; unlike for an export, a timeout of null is refused. -/
def storageOf (base : String) : Value → Except Fault StorageChoice
  | .null => .ok {}
  | storage => do
    let some root := (storage.get "root").orNone | throw (.rejected (.required "storage.root"))
    let root ← pathFrom base root
    return { root := some root, timeout := .float (← (storage.getD "timeout" (.int 60)).toBinary64) }

namespace CutRequest

/-- A request from the data of a file. -/
def ofValue (directory file : String) (outputDirectory : Option String) (data : Value) :
    Except Fault CutRequest := do
  checkVersion data
  let base := baseOf directory file
  let source ← recordingSource (data.get "source")
  let transcript ← transcriptOf (data.get "segments")
  let segments ← relevantSegments data transcript
  let padding ← Timecode.seconds (data.getD "padding" (.float (.ofRatio 3 2)))
  let gap ← Timecode.seconds (data.getD "merge_gap" (.int 3))
  let order ← orderOf (data.get "order")
  let output := data.getD "output" (.mapping [])
  if !output.isMapping then throw (.rejected (.notMapping "output"))
  let outputDirectory ← outputPath base outputDirectory (output.getD "dir" "clips")
  let storage ← storageOf base (data.get "storage")
  return {
    file, source, transcript, segments, order, outputDirectory
    hasAudio := ((data.get "source").getD "audio" true).truthy
    rule := ⟨padding, gap⟩
    joined := (data.getD "merge" false).truthy
    subtitles := (output.getD "subtitles" false).truthy
    stem := output.getD "prefix" "clip"
    quality := output.getD "quality" "medium"
    storageRoot := storage.root
    timeout := storage.timeout
    engine := (data.get "engine").getD "binary" defaultEngine }

end CutRequest

end Montage.Cutting
