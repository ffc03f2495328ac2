import Montage.Engine.Command
import Montage.Engine.Listing
import Montage.Engine.Progress
import Montage.Studio.Basic

/-!
The engine that renders programs. `Engine` is what a driver needs of it; `Engine.installed` is the
one that the studio has, found once by `Session.findEngine` and kept from then on.
-/

namespace Montage

/-- What a driver needs of an engine: workspaces with files in them, and runs. -/
structure Engine (σ : Type) where
  newWorkspace (directory : Option String) : Session σ String
  removeWorkspace (workspace : String) : Session σ Unit
  writeInput (workspace name : String) (data : ByteArray) : Session σ Unit
  readOutput (workspace name : String) : Session σ ByteArray
  hasAudio (workspace name : String) : Session σ Bool
  /-- runs a program, reports shares of the duration and lines, and gives the status -/
  execute (workspace : String) (arguments : List String) (duration : Option Binary64)
    (onFraction : Binary64 → Session σ Unit) (onLine : String → Session σ Unit) : Session σ Int

variable {σ : Type}

namespace Engine

/-- A file of a workspace, whose name has no directory in it. -/
def workspacePath (workspace name : String) : Except Fault String :=
  if name ≠ Path.name name || ["", ".", ".."].contains name then
    throw (.rejected (.fileName name))
  else return Path.join workspace name

def workspaceName (number : Nat) : String := s!"clipgraph-job-{number}"

def newWorkspace? (directory : Option String) : Session σ String := do
  if let some d := directory then
    if !(← Session.holds d) then Session.makeDirectories d
  let s ← get
  let number := s.workspaceCount + 1
  set { s with workspaceCount := number }
  let path := Path.join (directory.getD s.site.tempDirectory) (workspaceName number)
  Session.makeDirectory path
  return path

def notLoaded : Fault := .engineLoad "engine used before load"

/-- The listing of streams that the engine prints for a file. -/
def listing (path file : String) : Session σ String := do
  modify fun s => { s with probes := s.probes ++ [probeCommand path file] }
  return ((← Session.site).listings.lookup (Path.name file)).getD ""

/-- The files in a workspace, by name. -/
def workspaceFiles (workspace : String) : Session σ (List (String × ByteArray)) := do
  let tree ← Session.tree
  let found ← Session.lift (tree.locate (← Session.site).directory workspace)
  match found.entry with
  | none => throw (.io ⟨.notFound, workspace⟩)
  | some .directory => return (tree.children found.place).filterMap fun (name, e) =>
      match e with
      | .file data => some (name, data)
      | _ => none
  | some _ => throw (.io ⟨.notDirectory, workspace⟩)

/-- The next run that the studio has for the engine, with its number. -/
def nextRun : Session σ (EngineRun × Nat) := do
  let s ← get
  let number := s.runCount + 1
  set { s with runs := s.runs.tail, runCount := number }
  return (s.runs.headD {}, number)

def Product.bytes? (number : Nat) : Product → Option ByteArray
  | .numbered => some s!"rendered {number}".toUTF8
  | .nothing => none
  | .data bytes => some bytes

/-- Leaves the product of a run in the workspace. -/
def leaveProduct (workspace : String) (command : List String) (product : Option ByteArray) :
    Session σ Unit := do
  if let some bytes := product then
    Session.writeFile (Path.join workspace (command.getLast?.getD "")) bytes

/-- A line without the ends of line behind it. -/
def withoutEnd (line : String) : String :=
  .ofList (Text.dropWhileRight (· = '\n') line.toList)

/-- The engine at a path, or one that was not loaded. Its programs always start and answer in time; what
holds of engines whatever they do is stated for any `Engine`. -/
def installed (path : Option String) : Engine σ where
  newWorkspace := newWorkspace?
  removeWorkspace := Session.removeTree
  writeInput workspace name data := do
    Session.writeFile (← Session.lift (workspacePath workspace name)) data
  readOutput workspace name := do
    Session.readFile (← Session.lift (workspacePath workspace name))
  hasAudio workspace name := do
    let some path := path | throw notLoaded
    let file ← Session.lift (workspacePath workspace name)
    return listsAudio (← listing path file)
  execute workspace arguments duration onFraction onLine := do
    let some path := path | throw notLoaded
    let command := runCommand path arguments
    onLine (commandLine command)
    let files ← workspaceFiles workspace
    modify fun s => { s with commands := s.commands ++ [⟨command, files⟩] }
    let (run, number) ← nextRun
    leaveProduct workspace command (Product.bytes? number run.product)
    run.messages.forM fun line => onLine (withoutEnd line)
    run.progress.forM fun line => do
      if let some fraction ← Session.lift (fraction? line duration) then onFraction fraction
    return run.status

end Engine

namespace Session

/-- Where a program of this name is installed. -/
def which (binary : Value) : Session σ (Option String) := do
  match binary with
  | .text name => return if (← site).binaries.contains name then some ("/usr/bin/" ++ name) else none
  | _ => return none

/-- The next answer to the question for the version. -/
def nextVersion : Session σ VersionReply := do
  let s ← get
  match s.versions with
  | [] => return usualVersion
  | [reply] => return reply
  | reply :: rest =>
    set { s with versions := rest }
    return reply

/-- Finds a program and asks it for its version. -/
def loadEngine (binary : Value) : Session σ LoadedEngine := do
  let some path ← which binary
    | throw (.engineLoad (binary.display ++ " not found on PATH"))
  match ← nextVersion with
  | .failed problem => throw (.engineLoad s!"could not start {path}: {problem}")
  | .exited status output =>
    if status ≠ 0 then throw (.engineLoad s!"{path} -version exited with {status}")
    return ⟨path, (Text.lines output).headD "unknown"⟩

/-- The engine of the studio, which is loaded once; a load that fails is tried again. -/
def findEngine (binary : Value) : Session σ LoadedEngine := do
  if let some loaded := (← get).engine then return loaded
  let loaded ← loadEngine binary
  modify ({ · with engine := some loaded })
  return loaded

def forgetEngine : Session σ Unit := modify ({ · with engine := none })

end Session

end Montage
