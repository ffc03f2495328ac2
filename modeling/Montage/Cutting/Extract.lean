import Montage.Asset.Resolver
import Montage.Cutting.Request
import Montage.Export.Job

/-!
Cutting the clips of a recording, one run of the engine for each, and joining them. A clip whose run
fails is reported, and the others are cut all the same.
-/

namespace Montage.Cutting

open Montage.Graph

variable {σ : Type}

def CutRequest.load (file : String) (outputDirectory : Option String) :
    Session σ CutRequest := do
  let data ← Session.readDocument file
  Session.lift (CutRequest.ofValue (← Session.site).directory file outputDirectory data)

/-- What became of a clip: its data, or the problem that the engine had with it. -/
structure CutOutput where
  cut : Cut
  data : Option ByteArray := none
  fault : Option Fault := none
  logText : String := ""

def CutOutput.ok (o : CutOutput) : Bool := o.data.isSome && o.fault.isNone

def extractId : String := "extract"

/-- A timeline that shows one part of a recording. -/
def Cut.timeline (c : Cut) (source : Option Source) (hasAudio : Bool) : Timeline where
  tracks := [{
    id := extractId
    kind := .video
    clips := [{
      id := extractId
      start := .zero
      duration := c.duration
      source
      trimStart := c.start
      hasAudio }] }]
  minimumDuration := .zero

structure Extractor (σ : Type) where
  renderer : Renderer σ
  resolver : Resolver
  compiler : Compiler := {}
  quality : Value := .text "medium"
  hasAudio : Bool := true

namespace Extractor

def compileCut (e : Extractor σ) (source : Option Source) (c : Cut) : Except Fault (Program Binary64) :=
  e.compiler.compile (c.timeline source e.hasAudio) e.quality
    (some [(extractId, { data := some .empty })])

/-- The line that announces a clip. -/
def cuttingLine (count : Nat) (c : Cut) : Except Fault String := do
  let start ← Timecode.clockText c.start
  let finish ← Timecode.clockText c.finish
  return s!"cutting clip {c.index}/{count} ({start} -> {finish}, " ++ c.duration.fixed 1 ++ "s)"

def cutOne (e : Extractor σ) (source : Option Source) (data : ByteArray) (count : Nat) (c : Cut) :
    Session σ CutOutput := do
  Session.say (← Session.lift (cuttingLine count c))
  let p ← Session.lift (e.compileCut source c)
  match ← Session.attempt (e.renderer.run p (p.inputs.map fun i => (i.name, data))) with
  | .ok result =>
    Session.say s!"clip {c.index}: {Measure.fileSize result.output.size}"
    return { cut := c, data := some result.output, logText := result.logText }
  | .error (.engineRun problem logText status) =>
    Session.say s!"clip {c.index} failed: {problem}"
    return { cut := c, fault := some (.engineRun problem logText status), logText }
  | .error fault => throw fault

/-- Cuts clips in order, and tells of each when it is done. -/
def extract (e : Extractor σ) (source : Option Source) (cuts : List Cut)
    (onCut : CutOutput → Session σ Unit) : Session σ (List CutOutput) := do
  if cuts.isEmpty then return []
  let data ← e.resolver.fetch source
  Session.say ("source loaded: " ++ Measure.fileSize data.size)
  cuts.mapM fun c => do
    let output ← e.cutOne source data cuts.length c
    onCut output
    return output

def mergeName (index : Nat) : String := s!"merge_clip_{index}.mp4"

/-- Joins the clips that were cut, in order; a single one is left as it is. -/
def concatenate (e : Extractor σ) (outputs : List CutOutput) : Session σ ByteArray := do
  match (outputs.filter (·.ok)).filterMap (·.data) with
  | [] => throw (.rejected (.noClips "merge"))
  | [data] => return data
  | datas =>
    let payloads := datas.zipIdx.map fun (data, index) => (mergeName index, data)
    let p ← Session.lift (concat (payloads.map (·.1)))
    Session.say s!"merging {datas.length} clips"
    return (← e.renderer.run p payloads).output

end Extractor

end Montage.Cutting
