import Montage.Asset.Fetch
import Montage.Asset.Font
import Montage.Markup.Document
import Montage.Render.Pool

/-!
The surroundings of a job: files, addresses, the engine that is installed, and what has happened so
far. A session is a computation in a studio; a fault ends it and leaves the studio as it is.
-/

namespace Montage

/-- How the engine answers when it is asked for its version. -/
inductive VersionReply where
  | exited (status : Int) (output : String)
  | failed (problem : String)

/-- What a run of the engine leaves in its workspace. -/
inductive Product where
  | numbered
  | nothing
  | data (bytes : ByteArray)

/-- A run of the engine: what it prints, its status, and what it leaves. -/
structure EngineRun where
  progress : List String := []
  messages : List String := []
  status : Int := 0
  product : Product := .numbered

def usualVersion : VersionReply := .exited 0 "ffmpeg version 6.1\nbuilt with gcc\n"

/-- What stays as it is while jobs run. -/
structure Site where
  directory : String := "/"
  tempDirectory : String := "/tmp"
  web : Web := []
  fonts : FontPlaces := Font.usualPlaces
  binaries : List String := ["ffmpeg"]
  /-- the listings of streams by the name of the file -/
  listings : List (String × String) := []
  maxFileSize : Nat := 10000000
  /-- how the text of a file is read -/
  readDocument : ByteArray → Except Fault Value := Markup.read
  /-- what the console makes of the markup in a text: it may not be able to read it -/
  readMarkup : String → Except Fault Unit := fun _ => .ok ()

/-- An engine that was found and asked for its version. -/
structure LoadedEngine where
  path : String
  version : String
  deriving DecidableEq, Repr

/-- A command, with the files that the workspace held before it ran. -/
structure CommandRecord where
  command : List String
  files : List (String × ByteArray)

/-- Who hears the messages of a session. -/
inductive Listener (σ : Type) where
  | nobody
  | journal
  | front (hear : String → σ → σ)

/-- The surroundings of a session, with the state `front` of the program in front of it. -/
structure Studio (σ : Type) where
  site : Site := {}
  tree : FileTree := {}
  /-- the replies that are left; the last one is given again and again -/
  versions : List VersionReply := []
  runs : List EngineRun := []
  runCount : Nat := 0
  workspaceCount : Nat := 0
  engine : Option LoadedEngine := none
  pool : DriverPool := {}
  quiet : Bool := false
  listener : Listener σ := .nobody
  lines : List String := []
  printed : List String := []
  commands : List CommandRecord := []
  probes : List (List String) := []
  requests : List (String × Value) := []
  front : σ

abbrev Session (σ : Type) := ExceptT Fault (StateM (Studio σ))

namespace Session

variable {σ α : Type}

/-- Runs a session, and gives its outcome instead of its fault. -/
def attempt (s : Session σ α) : Session σ (Except Fault α) := ExceptT.mk do
  return .ok (← s.run)

def lift (r : Except Fault α) : Session σ α := ExceptT.mk (pure r)

def site : Session σ Site := do return (← get).site

def tree : Session σ FileTree := do return (← get).tree

/-- Changes the state of the program in front. -/
def present (f : σ → σ) : Session σ Unit := modify fun s => { s with front := f s.front }

def hear (message : String) (s : Studio σ) : Studio σ :=
  match s.listener with
  | .nobody => s
  | .journal => { s with lines := s.lines ++ [message] }
  | .front hear => { s with front := hear message s.front }

/-- Reports a message to the listener, and prints it unless the session is quiet. -/
def say (message : String) : Session σ Unit := modify fun s =>
  let s := hear message s
  if s.quiet then s else { s with printed := s.printed ++ [message] }

/-! Files -/

def isDirectory (path : String) : Session σ Bool := do
  return (← tree).isDirectory (← site).directory path

def holds (path : String) : Session σ Bool := do
  return (← tree).holds (← site).directory path

def readFile (path : String) : Session σ ByteArray := do
  lift ((← tree).readFile (← site).directory path)

def setTree (t : FileTree) : Session σ Unit := modify ({ · with tree := t })

def writeFile (path : String) (data : ByteArray) : Session σ Unit := do
  setTree (← lift ((← tree).writeFile (← site).directory path data))

def makeDirectory (path : String) : Session σ Unit := do
  setTree (← lift ((← tree).makeDirectory (← site).directory path))

def makeDirectories (path : String) : Session σ Unit := do
  let (t, fault) := (← tree).makeDirectories (← site).directory path
  setTree t
  if let some e := fault then throw e

/-- Makes a directory, unless there is one. -/
def ensureDirectory (path : String) : Session σ Unit := do
  if !(← isDirectory path) then makeDirectories path

def removeTree (path : String) : Session σ Unit := do
  setTree ((← tree).removeTree (← site).directory path)

/-! Documents -/

/-- The mapping that a file holds; a large file is not read. -/
def readDocument (path : String) : Session σ Value := do
  let data ← readFile path
  let site ← site
  if site.maxFileSize < data.size then throw (.rejected .tooLarge)
  let v ← lift (site.readDocument data)
  if v.isMapping then return v else throw (.rejected .topLevel)

/-! Drivers -/

def driver (id : Nat) : Session σ DriverState := do return (← get).pool.drivers id

def changePool (f : DriverPool → DriverPool) : Session σ Unit :=
  modify fun s => { s with pool := f s.pool }

end Session

end Montage
