import Montage.Asset.Resolver
import Montage.Export.Request
import Montage.Graph.Compile
import Montage.Render.Renderer

/-!
An export from its request to the file that it writes. Nothing is written before the engine has
given its output.
-/

namespace Montage

open Montage.Graph

variable {σ : Type}

def ExportRequest.load (file : String) (options : ExportOptions) : Session σ ExportRequest := do
  let data ← Session.readDocument file
  Session.lift (ExportRequest.ofValue (← Session.site).directory file options data)

/-- A program with the files that it needs. -/
structure Supplied where
  program : Program Binary64
  payloads : Payloads := []

/-- The bytes of the inputs that were made from clips. -/
def inputPayloads (p : Program Binary64) (assets : Assets) : Payloads :=
  p.inputs.filterMap fun i => do
    let result ← assets.get? (← i.clipId)
    return (i.name, ← result.data)

/-- Adds the files of fonts to a program; a font without a file is dropped. -/
def supplyFonts (resolver : Resolver) : List String → Supplied → Session σ Supplied
  | [], s => return s
  | font :: rest, s => do
    match ← resolver.font? font with
    | none => supplyFonts resolver rest { s with program := s.program.dropFont font }
    | some data =>
      supplyFonts resolver rest { s with payloads := s.payloads ++ [(fontFile font, data)] }

def collectPayloads (resolver : Resolver) (p : Program Binary64) (assets : Assets) :
    Session σ Supplied :=
  supplyFonts resolver p.fonts ⟨p, inputPayloads p assets⟩

/-- The line that reports a program. -/
def compiledLine (p : Program Binary64) : String :=
  s!"compiled {p.statements.length} statements, {p.layerCount} layers, {p.inputs.length} inputs, " ++
    Timecode.graphText p.totalDuration ++ "s"

/-- Fetches the media of a timeline and compiles it with what could be had. -/
def prepareExport (compiler : Compiler) (t : Timeline) (quality : Value) (resolver : Resolver) :
    Session σ Supplied := do
  let assets ← resolver.resolveAll (requiredClips t)
  let p ← Session.lift (compiler.compile t quality (some assets))
  Session.say (compiledLine p)
  collectPayloads resolver p assets

/-- Renders a timeline with the media that can be had. -/
def exportTimeline (compiler : Compiler) (t : Timeline) (quality : Value) (resolver : Resolver)
    (renderer : Renderer σ) : Session σ RenderResult := do
  let supplied ← prepareExport compiler t quality resolver
  renderer.run supplied.program supplied.payloads

/-- An export that is ready to run. -/
structure ExportJob (σ : Type) where
  request : ExportRequest
  compiler : Compiler := {}
  resolver : Resolver
  renderer : Renderer σ

namespace ExportJob

/-- The job of a request, with those who hear of its progress and of the engine's lines. -/
def ofRequest (request : ExportRequest) (onProgress : Int → Session σ Unit)
    (onLine : String → Session σ Unit) : Session σ (ExportJob σ) := do
  let resolver ← Resolver.ofRoot request.storageRoot request.timeout request.fontDirectories
  return {
    request, resolver
    renderer := {
      loadEngine := Engine.shared request.engine
      onProgress, onLine
      keepTemp := request.options.keepTemp
      cacheDirectory := request.options.cacheDirectory } }

/-- Reads the request in a file. -/
def load (file : String) (options : ExportOptions) (onProgress : Int → Session σ Unit)
    (onLine : String → Session σ Unit) : Session σ (ExportJob σ) := do
  ofRequest (← ExportRequest.load file options) onProgress onLine

/-- The program as if all media could be had. -/
def plan (job : ExportJob σ) : Except Fault (Program Binary64) :=
  job.compiler.compile job.request.timeline job.request.quality

def dryRun (job : ExportJob σ) : Session σ Unit := do
  let p ← Session.lift job.plan
  p.warnings.forM fun warning => Session.say ("warning: " ++ warning)
  Session.say "dry run: compile complete"

/-- Writes the output of a run, in a directory that is made when it is missing. -/
def writeOutput (file : String) (data : ByteArray) : Session σ Unit := do
  Session.ensureDirectory (baseOf (← Session.site).directory file)
  Session.writeFile file data
  Session.say s!"wrote {file} ({Measure.fileSize data.size})"

/-- Renders and writes the output; a dry run only compiles. -/
def run (job : ExportJob σ) : Session σ (Option RenderResult) := do
  if job.request.options.dryRun then
    job.dryRun
    return none
  let result ← exportTimeline job.compiler job.request.timeline job.request.quality job.resolver
    job.renderer
  writeOutput job.request.outputFile result.output
  return some result

end ExportJob

end Montage
