import Montage.Engine.Basic
import Montage.Graph.Edit
import Montage.Graph.Text

/-!
Running a program on the engine: the inputs are written into a workspace, the sound of inputs
without an audio stream is dropped, and the output is read back. The workspace is removed whether
the run succeeds or not.
-/

namespace Montage

structure RenderResult where
  output : ByteArray
  outputName : String
  logText : String
  progress : Int

/-- A driver of the engine, with those who hear of its progress and its lines. -/
structure Renderer (σ : Type) where
  id : Nat := 0
  loadEngine : Session σ (Engine σ)
  onProgress : Int → Session σ Unit := fun _ => pure ()
  onLine : String → Session σ Unit := fun _ => pure ()
  keepTemp : Bool := false
  cacheDirectory : Option String := none

/-- The data of files by their names. -/
abbrev Payloads := List (String × ByteArray)

def Payloads.sorted (payloads : Payloads) : Payloads :=
  payloads.mergeSort fun a b => !(b.1 < a.1)

/-- The engine of the studio, under the given name. -/
def Engine.shared {σ : Type} (binary : Value) : Session σ (Engine σ) := do
  return Engine.installed (some (← Session.findEngine binary).path)

namespace Renderer

open Montage.Graph

variable {σ : Type} (r : Renderer σ)

def state : Session σ DriverState := Session.driver r.id

def note (line : String) : Session σ Unit := do
  Session.changePool (·.note r.id line)
  r.onLine line

def advance (fraction : Binary64) : Session σ Unit := do
  let percent := Measure.progressOf fraction
  Session.changePool (·.advance r.id percent)
  r.onProgress percent

def setProgram (p : Program Binary64) : Session σ Unit :=
  Session.changePool (·.setProgram r.id p)

/-- Drops the sound of those inputs in which the engine hears none. -/
def dropSilent (engine : Engine σ) (workspace : String) :
    List (InputSpec Binary64) → Program Binary64 → Session σ (Program Binary64)
  | [], p => return p
  | input :: rest, p => do
    if ← engine.hasAudio workspace input.name then dropSilent engine workspace rest p
    else
      let p := p.dropSound input.index
      r.setProgram p
      r.note s!"warning: {soundWarning input.index} ({input.name})"
      dropSilent engine workspace rest p

def failure (problem : String) (status : Option Int) : Session σ Fault := do
  return .engineRun problem (← r.state).logText status

/-- The output of a run that is over. -/
def output (engine : Engine σ) (workspace name : String) : Session σ ByteArray := do
  match ← Session.attempt (engine.readOutput workspace name) with
  | .ok data => return data
  | .error (.io e) =>
    throw (← r.failure s!"engine produced no output {name}: {e.message}" none)
  | .error e => throw e

/-- Runs a program in a workspace, and gives its output with the name of the output. -/
def execute (engine : Engine σ) (workspace : String) (p : Program Binary64) (payloads : Payloads) :
    Session σ (ByteArray × String) := do
  payloads.sorted.forM fun (name, data) => engine.writeInput workspace name data
  p.sideFiles.forM fun file => engine.writeInput workspace file.name file.data
  let p ← r.dropSilent engine workspace p.soundInputs p
  let arguments ← Session.lift p.arguments
  let status ← engine.execute workspace arguments (some p.totalDuration) r.advance r.note
  if status ≠ 0 then throw (← r.failure s!"engine exited with status {status}" (some status))
  let name := (p.encode.map (·.outputName)).getD ""
  return (← r.output engine workspace name, name)

/-- Runs a program while the driver holds the engine. -/
def runHolding (p : Program Binary64) (payloads : Payloads) : Session σ RenderResult := do
  let missing := p.payloadNames.filter fun name => (payloads.lookup name).isNone
  if !missing.isEmpty then throw (.rejected (.missingInputs missing))
  Session.changePool (·.start r.id)
  p.warnings.forM fun warning => r.note ("warning: " ++ warning)
  let engine ← r.loadEngine
  let workspace ← engine.newWorkspace r.cacheDirectory
  let outcome ← Session.attempt (r.execute engine workspace p payloads)
  if !r.keepTemp then engine.removeWorkspace workspace
  let (output, outputName) ← Session.lift outcome
  r.advance (.ofInt 1)
  let state ← r.state
  return { output, outputName, logText := state.logText, progress := state.progress }

/-- Runs a program; refused, with nothing changed, while another one runs on the engine. -/
def run (p : Program Binary64) (payloads : Payloads) : Session σ RenderResult := do
  let pool ← Session.lift ((← get).pool.acquire r.id)
  Session.changePool fun _ => pool.setProgram r.id p
  let outcome ← Session.attempt (r.runHolding p payloads)
  Session.changePool (·.release r.id (outcome matches .error _))
  Session.lift outcome

end Renderer

end Montage
