import Montage.Files.Path
import Montage.Timeline.Snapshot

/-!
Requests to export a timeline. Paths in a request are taken from the directory of its file; what the
caller asks for comes before what the file says.
-/

namespace Montage

/-- The only version of the format. -/
def formatVersion : Int := 1

def checkVersion (data : Value) : Except Fault Unit :=
  match (data.get "clipgraph").number? with
  | some version =>
    if version.isInt formatVersion then .ok () else .error (.rejected .formatVersion)
  | none => .error (.rejected .formatVersion)

/-- The directory that the paths in a file are taken from. -/
def baseOf (directory file : String) : String := Path.parent (Path.absolute directory file)

/-- A path that a request gives, from its base. -/
def pathFrom (base : String) (path : Value) : Except Fault String := do
  return Path.join base (← path.asText)

/-- What the caller asks for, unless it is empty. -/
def orAsked (asked : Option String) (given : Value) : Value :=
  match asked with
  | none => given
  | some s => if s.isEmpty then given else .text s

/-- The path of the output: what the caller asks for is taken as it is, even if it is empty. -/
def outputPath (base : String) (asked : Option String) (given : Value) : Except Fault String :=
  if asked.isSome then (orAsked asked given).asText else pathFrom base given

/-- What the caller of an export asks for. -/
structure ExportOptions where
  output : Option String := none
  quality : Option String := none
  cacheDirectory : Option String := none
  keepTemp : Bool := false
  dryRun : Bool := false
  deriving DecidableEq, Repr

structure ExportRequest where
  file : String
  options : ExportOptions
  outputFile : String
  quality : Value
  storageRoot : Option String := none
  timeout : Value := .int 60
  fontDirectories : List String := []
  engine : Value := .text "ffmpeg"
  timeline : Timeline

/-- Where the media are, and how long to wait for an address. -/
structure StorageChoice where
  root : Option String := none
  timeout : Value := .int 60

namespace StorageChoice

def ofValue (base : String) (storage : Value) : Except Fault StorageChoice := do
  if storage.isNull then return {}
  if !storage.isMapping then throw (.rejected (.notMapping "storage"))
  let some root := (storage.get "root").orNone | throw (.rejected (.required "storage.root"))
  let root ← pathFrom base root
  match storage.get "timeout" with
  | .null => return { root := some root }
  | timeout => return { root := some root, timeout := .float (← timeout.toBinary64) }

end StorageChoice

/-- The directories that fonts are looked for in; the one under `dir` comes first. -/
def fontDirectoriesOf (base : String) (fonts : Value) : Except Fault (List String) := do
  if fonts.isNull then return []
  if !fonts.isMapping then throw (.rejected (.notMapping "fonts"))
  let more ← (fonts.getD "dirs" (.list [])).items
  ((fonts.get "dir").orNone.toList ++ more).mapM (pathFrom base)

def defaultEngine : Value := "ffmpeg"

/-- The program that renders. -/
def engineOf (engine : Value) : Except Fault Value := do
  if engine.isNull then return defaultEngine
  if !engine.isMapping then throw (.rejected (.notMapping "engine"))
  return engine.getD "binary" defaultEngine

namespace ExportRequest

/-- A request from the data of a file. -/
def ofValue (directory file : String) (options : ExportOptions) (data : Value) :
    Except Fault ExportRequest := do
  checkVersion data
  if let some key := ["timeline", "output"].find? fun key => (data.get? key).isNone then
    throw (.rejected (.missingKey key))
  let base := baseOf directory file
  let output := data.get "output"
  if !output.isMapping then throw (.rejected (.notMapping "output"))
  if (orAsked options.output (output.get "file")).isNull then
    throw (.rejected (.required "output.file"))
  let outputFile ← outputPath base options.output (output.get "file")
  let storage ← StorageChoice.ofValue base (data.get "storage")
  let fontDirectories ← fontDirectoriesOf base (data.get "fonts")
  let engine ← engineOf (data.get "engine")
  let timeline ← Timeline.ofValue (data.get "timeline")
  return {
    file, options, outputFile, fontDirectories, engine, timeline
    quality := orAsked options.quality (output.getD "quality" "medium")
    storageRoot := storage.root
    timeout := storage.timeout }

end ExportRequest

end Montage
