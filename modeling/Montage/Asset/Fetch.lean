import Montage.Asset.Result
import Montage.Asset.Storage
import Montage.Measure
import Montage.Timeline.Basic

/-!
The bytes of a source: from the storage when it has them, else from its address.
-/

namespace Montage

/-- What a request to an address gives. -/
inductive WebReply where
  | answer (status : Int) (body : ByteArray)
  /-- one of the errors of the library for requests, which stand for an asset that is not there -/
  | failure (problem : String)
  /-- any other error, such as the `ValueError` for a host or a user that cannot be encoded -/
  | misused (what : Misuse)

/-- The replies by address; there is nothing at any other address. -/
abbrev Web := List (String × WebReply)

def Web.request (web : Web) (url : String) : WebReply :=
  (web.lookup url).getD (.answer 404 .empty)

/-- Where sources are looked for. -/
structure Shelf where
  storage : Option Storage := none
  tree : FileTree
  web : Web := []

/-- The outcome of a fetch, and the addresses that were asked for it. -/
structure Fetch where
  outcome : Except Fault ByteArray
  requests : List String := []

def noSourceProblem : String := "no url or storage path provided"

def isWebAddress (url : String) : Bool :=
  let lower := Text.lower url
  Text.startsWith "http://" lower || Text.startsWith "https://" lower

/-- The bytes from one place, a problem that lets the next place be tried, or a fault. -/
abbrev Attempt := Except Fault (Except String ByteArray)

/-- What comes of taking another value for a text. Byte strings have the operations of texts, but none
that goes with a text. -/
def notText : Value → Fault
  | .bytes _ => .misuse .kind
  | _ => .misuse .operation

namespace Shelf

def fromStorage (s : Shelf) (path : Value) : Attempt :=
  match s.storage with
  | none => .ok (.error "no storage root configured")
  | some storage =>
    match path with
    | .text path => match storage.read s.tree path with
      | .ok data => .ok (.ok data)
      | .error (.io e) => .ok (.error ("storage read failed: " ++ e.message))
      | .error (.assetUnavailable why) => .ok (.error ("storage read failed: " ++ why))
      | .error e => .error e
    | path => .error (notText path)

def download (s : Shelf) (url : String) : Attempt :=
  if isWebAddress url then
    match s.web.request url with
    | .answer status body =>
      .ok (if status = 200 then .ok body else .error s!"download failed: HTTP error status {status}")
    | .failure problem => .ok (.error ("download failed: " ++ problem))
    | .misused what => .error (.misuse what)
  else .ok (.error ("download failed: unsupported url scheme: " ++ url))

def fromAddress (s : Shelf) (url : Value) : Attempt :=
  match url with
  | .text url => s.download url
  | url => .error (notText url)

/-- The address that is asked for, when the address of a source has to be tried. -/
def requestsFor (url : Value) : List String :=
  match url with
  | .text url => if isWebAddress url then [url] else []
  | _ => []

/-- Tries the address of a source, given the problems so far. -/
def fetchAddress (s : Shelf) (url : Value) (problems : List String) : Fetch :=
  let unavailable (problems : List String) : Except Fault ByteArray :=
    .error (.assetUnavailable
      (if problems.isEmpty then noSourceProblem else "; ".intercalate problems))
  if !url.truthy then ⟨unavailable problems, []⟩
  else
    let outcome := match s.fromAddress url with
      | .ok (.ok data) => .ok data
      | .ok (.error problem) => unavailable (problems ++ [problem])
      | .error e => .error e
    ⟨outcome, requestsFor url⟩

def fetch (s : Shelf) (source : Source) : Fetch :=
  if !source.storagePath.truthy then s.fetchAddress source.url []
  else match s.fromStorage source.storagePath with
    | .ok (.ok data) => ⟨.ok data, []⟩
    | .ok (.error problem) => s.fetchAddress source.url [problem]
    | .error e => ⟨.error e, []⟩

def fetch? (s : Shelf) : Option Source → Fetch
  | some source => s.fetch source
  | none => ⟨.error (.assetUnavailable noSourceProblem), []⟩

/-- What fetching the source of a clip gives; only a missing asset is a result. -/
def resolve (s : Shelf) (clip : Clip) : Except Fault AssetResult :=
  match (s.fetch? clip.source).outcome with
  | .ok data => .ok { data := some data }
  | .error (.assetUnavailable problem) => .ok { problem := some problem }
  | .error e => .error e

end Shelf

/-- The line that reports the result for a clip. -/
def AssetResult.report (clip : Clip) (r : AssetResult) : Except Fault String := do
  let name ← clip.name.toText
  match r.data, r.problem with
  | some data, none => return s!"fetched {name}: " ++ Measure.fileSize data.size
  | _, problem => return s!"asset unavailable for {name}: " ++ problem.getD "None"

/-- The results for clips up to the first fault, with the lines and requests on the way. -/
structure Resolution where
  assets : Assets := []
  lines : List String := []
  requests : List String := []
  fault : Option Fault := none

def Shelf.resolveAll (s : Shelf) : List Clip → Resolution
  | [] => {}
  | clip :: rest =>
    let requests := (s.fetch? clip.source).requests
    match (do let result ← s.resolve clip; return (result, ← result.report clip)) with
    | .error e => { requests, fault := some e }
    | .ok (result, line) =>
      let more := s.resolveAll rest
      { more with
        assets := (clip.id, result) :: more.assets
        lines := line :: more.lines
        requests := requests ++ more.requests }

end Montage
