import Montage.Command.Screen
import Montage.Cutting.Arrange
import Montage.Cutting.Extract
import Montage.Cutting.Subtitle

/-!
The command that cuts the relevant parts out of a recording, each into a file of its own, with
subtitles beside it and all of them joined if that is asked for.
-/

namespace Montage.Command

open Cutting

structure CutArguments where
  file : Option String := none
  outputDirectory : Option String := none
  /-- whether to join the clips, when the request is not to decide it -/
  joined : Option Bool := none
  subtitles : Bool := false
  dryRun : Bool := false
  cacheDirectory : Option String := none
  keepTemp : Bool := false
  deriving DecidableEq, Repr

namespace CutArguments

def rules : List (OptionRule CutArguments) := [
  helpRule,
  { short := 'y', long := "yaml", required := true
    effect := .take [] fun s a => { a with file := s } },
  { short := 'o', long := "output-dir"
    effect := .take [] fun s a => { a with outputDirectory := some (s.getD "") } },
  { short := 'm', long := "merge", effect := .set ({ · with joined := some true }) },
  { short := 'M', long := "no-merge", effect := .set ({ · with joined := some false }) },
  { short := 's', long := "srt", effect := .set ({ · with subtitles := true }) },
  { short := 'n', long := "dry-run", effect := .set ({ · with dryRun := true }) },
  { short := 'c', long := "cache-dir"
    effect := .take [] fun s a => { a with cacheDirectory := some (s.getD "") } },
  { short := 'k', long := "keep-temp", effect := .set ({ · with keepTemp := true }) }]

def parse (arguments : List String) : Outcome CutArguments := Command.parse rules {} arguments

/-- A request with what the arguments change in it. -/
def amend (a : CutArguments) (r : CutRequest) : CutRequest :=
  { r with
    joined := a.joined.getD r.joined
    subtitles := a.subtitles || r.subtitles }

end CutArguments

/-- The most characters of a transcript that a table shows. -/
def transcriptWidth : Nat := 60

def shortened (transcript : String) : String :=
  if transcriptWidth < transcript.length then
    .ofList (transcript.toList.take (transcriptWidth - 3)) ++ "..."
  else transcript

def cutRow (c : Cut) : Except Fault (List String) := do
  let start ← Timecode.clockText c.start
  let finish ← Timecode.clockText c.finish
  return [toString c.index, start, finish, c.duration.fixed 1 ++ "s", toString c.segments.length,
    shortened (← c.transcript)]

def cutTable (cuts : List Cut) : Except Fault ConsoleEntry := do
  return .table s!"{cuts.length} clips"
    ["#", "start", "end", "length", "segments", "transcript"] (← cuts.mapM cutRow)

/-- The clips of a request in their order. -/
def cutsOf (r : CutRequest) : Except Fault (List Cut) :=
  let cuts := r.rule.merge r.segments
  match r.order with
  | none => .ok cuts
  | some order => reorder cuts order

/-- The file of an output whose name goes on with the given text. -/
def outputFile (r : CutRequest) (ending : String) : Session Screen String := do
  let stem ← Session.lift r.stem.toText
  return Path.join r.outputDirectory (stem ++ "_" ++ ending)

def writeSubtitles (r : CutRequest) (c : Cut) : Session Screen Unit := do
  let cues := c.cues r.transcript
  let file ← outputFile r s!"{c.index}.srt"
  Session.writeFile file (← Session.lift (subtitles cues)).toUTF8
  Session.say s!"wrote {file} ({cues.length} cues)"

/-- Writes a clip, or shows that it failed. -/
def writeCut (r : CutRequest) (o : CutOutput) : Session Screen Unit := do
  match o.ok, o.data with
  | true, some data =>
    let file ← outputFile r s!"{o.cut.index}.mp4"
    Session.writeFile file data
    Session.say ("wrote " ++ file)
    if r.subtitles then writeSubtitles r o.cut
  | _, _ => showMarkup (.line s!"clip {o.cut.index} failed" problemStyle)

/-- Joins the clips into one file; false when the engine fails. -/
def writeJoined (r : CutRequest) (e : Extractor Screen) (outputs : List CutOutput) :
    Session Screen Bool := do
  match ← Session.attempt (e.concatenate outputs) with
  | .ok data =>
    let file ← outputFile r "merged.mp4"
    Session.writeFile file data
    Session.say s!"wrote {file} ({Measure.fileSize data.size})"
    return true
  | .error (.engineRun problem logText status) =>
    showLine ("merge failed: " ++ (Fault.engineRun problem logText status).report) problemStyle
    return false
  | .error e => throw e

/-- Writes what was cut. The status says whether all of it could be written. -/
def writeOutputs (r : CutRequest) (e : Extractor Screen) (outputs : List CutOutput) : Run := do
  closeBar
  Session.ensureDirectory r.outputDirectory
  outputs.forM (writeCut r)
  let whole ← if r.joined && outputs.any (·.ok) then writeJoined r e outputs else pure true
  return if whole && outputs.all (·.ok) then 0 else 1

def extractorOf (a : CutArguments) (r : CutRequest) : Session Screen (Extractor Screen) := do
  return {
    renderer := {
      loadEngine := Engine.shared r.engine
      keepTemp := a.keepTemp
      cacheDirectory := a.cacheDirectory }
    resolver := ← Resolver.ofRoot r.storageRoot r.timeout
    quality := r.quality
    hasAudio := r.hasAudio }

def cutFile (a : CutArguments) : Run := do
  let some file := a.file | throw (.misuse .kind)
  let r := a.amend (← CutRequest.load file a.outputDirectory)
  let cuts ← Session.lift (cutsOf r)
  if cuts.isEmpty then
    showMarkup (.line "no matching segments, nothing to cut" problemStyle)
    return 1
  showMarkup (← Session.lift (cutTable cuts))
  if a.dryRun then return 0
  let extractor ← extractorOf a r
  match ← Session.attempt
      (extractor.extract r.source cuts fun _ => Session.present (·.advance 1)) with
  | .error (.assetUnavailable problem) => fail ("source unavailable: " ++ problem)
  | .error (.engineLoad problem) => fail ("engine load failed: " ++ problem)
  | .error e => throw e
  | .ok outputs => writeOutputs r extractor outputs

end Montage.Command
