import Montage.Asset.Storage
import Montage.Studio.Basic

/-!
Fetching in a session: the bytes of sources and fonts, with a line for each outcome.
-/

namespace Montage

/-- Where media come from, how long to wait for an address, and where fonts are. -/
structure Resolver where
  storage : Option Storage := none
  timeout : Value := .int 60
  fontDirectories : List String := []

namespace Resolver

variable {σ : Type}

/-- A resolver whose storage is the directory at a path. -/
def ofRoot (root : Option String) (timeout : Value) (fontDirectories : List String := []) :
    Session σ Resolver := do
  let some root := root | return { timeout, fontDirectories }
  let tree ← Session.tree
  let storage ← Session.lift (Storage.ofPath tree (← Session.site).directory root)
  return { storage := some storage, timeout, fontDirectories }

def shelf (r : Resolver) : Session σ Shelf := do
  return { storage := r.storage, tree := ← Session.tree, web := (← Session.site).web }

def recordRequests (r : Resolver) (urls : List String) : Session σ Unit :=
  modify fun s => { s with requests := s.requests ++ urls.map (·, r.timeout) }

def fetch (r : Resolver) (source : Option Source) : Session σ ByteArray := do
  let fetched := (← r.shelf).fetch? source
  r.recordRequests fetched.requests
  Session.lift fetched.outcome

def resolveAll (r : Resolver) (clips : List Clip) : Session σ Assets := do
  let resolution := (← r.shelf).resolveAll clips
  r.recordRequests resolution.requests
  resolution.lines.forM Session.say
  match resolution.fault with
  | some e => throw e
  | none => return resolution.assets

/-- The bytes of a font; nothing when there is no file for it. -/
def font? (r : Resolver) (name : String) : Session σ (Option ByteArray) := do
  let site ← Session.site
  match Font.find (← Session.tree) site.directory site.fonts name r.fontDirectories with
  | some path => return some (← Session.readFile path)
  | none =>
    Session.say ("no font file found for " ++ name)
    return none

end Resolver

end Montage
