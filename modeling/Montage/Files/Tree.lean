import Montage.Fault
import Montage.Files.Path

/-!
Trees of files with directories and links. `FileTree.find` follows a path as the system does when
it opens a file; all other operations look a path up in this way.
-/

namespace Montage

inductive FileEntry where
  | file (data : ByteArray)
  | directory
  | link (target : String)

/-- The entries by their absolute path, as names; a path without links in it. -/
structure FileTree where
  entries : List (List String × FileEntry) := []

/-- Where a path leads to: a place, and what is there. -/
structure Found where
  place : List String
  entry : Option FileEntry

namespace FileTree

/-- What is at a place; the root is a directory. -/
def entry? (t : FileTree) (place : List String) : Option FileEntry :=
  if place.isEmpty then some .directory else t.entries.lookup place

/-- Puts an entry at a place, instead of the one that is there. -/
def insert (t : FileTree) (place : List String) (e : FileEntry) : FileTree :=
  if (t.entries.lookup place).isSome then
    ⟨t.entries.map fun (p, old) => if p = place then (p, e) else (p, old)⟩
  else ⟨t.entries ++ [(place, e)]⟩

/-- Removes a place and all that lies below it. -/
def erase (t : FileTree) (place : List String) : FileTree :=
  ⟨t.entries.filter fun (p, _) => !place.isPrefixOf p⟩

/-- The names in a directory, with what they stand for. -/
def children (t : FileTree) (place : List String) : List (String × FileEntry) :=
  t.entries.filterMap fun (p, e) =>
    if p.dropLast = place && p ≠ [] then p.getLast?.map (·, e) else none

/-- The longest name that a file can have, in bytes. -/
def maxNameSize : Nat := 255

/-- The longest path that can be looked up, in bytes. -/
def maxPathSize : Nat := 4095

/-- How many links may be followed on one way. -/
def maxLinks : Nat := 40

/-- Follows names from a place on. What comes behind a link is left to `onLink`, which gets the
place to start from and the names to follow. -/
def walk (t : FileTree) (onLink : List String → List String → Except IoCause Found)
    (place : List String) : List String → Except IoCause Found
  | [] => .ok ⟨place, t.entry? place⟩
  | n :: rest =>
    if n = "" || n = "." then t.walk onLink place rest
    else if n = ".." then t.walk onLink place.dropLast rest
    else if maxNameSize < n.utf8ByteSize then .error .nameTooLong
    else
      let here := place ++ [n]
      match t.entry? here with
      | none => if rest.isEmpty then .ok ⟨here, none⟩ else .error .notFound
      | some (.file data) =>
        if rest.isEmpty then .ok ⟨here, some (.file data)⟩ else .error .notDirectory
      | some .directory => t.walk onLink here rest
      | some (.link target) =>
        onLink (if Path.isAbsolute target then [] else place) (Path.names target ++ rest)

/-- Follows names and at most so many links. -/
def follow (t : FileTree) : Nat → List String → List String → Except IoCause Found
  | 0 => t.walk fun _ _ => .error .tooManyLinks
  | links + 1 => t.walk (t.follow links)

/-- Where an absolute path leads to. -/
def find (t : FileTree) (path : String) : Except IoCause Found :=
  if path.isEmpty then .error .notFound
  else t.follow maxLinks [] (Path.names path)

def hasNul (path : String) : Bool := path.toList.contains '\x00'

/-- As `find`, with the fault that an operation on the path reports. -/
def locate (t : FileTree) (directory path : String) : Except Fault Found :=
  if hasNul path then .error (.misuse .value)
  else if maxPathSize < path.utf8ByteSize then .error (.io ⟨.nameTooLong, path⟩)
  else
    let full := if path.isEmpty then "" else Path.join directory path
    match t.find full with
    | .ok found => .ok found
    | .error cause => .error (.io ⟨cause, path⟩)

def entryAt? (t : FileTree) (directory path : String) : Option FileEntry :=
  match t.locate directory path with
  | .ok found => found.entry
  | .error _ => none

def isFile (t : FileTree) (directory path : String) : Bool :=
  match t.entryAt? directory path with
  | some (.file _) => true
  | _ => false

def isDirectory (t : FileTree) (directory path : String) : Bool :=
  match t.entryAt? directory path with
  | some .directory => true
  | _ => false

def holds (t : FileTree) (directory path : String) : Bool :=
  (t.entryAt? directory path).isSome

def readFile (t : FileTree) (directory path : String) : Except Fault ByteArray := do
  match (← t.locate directory path).entry with
  | some (.file data) => return data
  | some _ => throw (.io ⟨.isDirectory, path⟩)
  | none => throw (.io ⟨.notFound, path⟩)

/-- The path without slashes at its end. -/
def trimSlashes (path : String) : String :=
  let trimmed := Text.dropWhileRight (· = '/') path.toList
  if trimmed.isEmpty then path else .ofList trimmed

/-- The place of the last name of a path, in a directory that is there; a link at the end is not
followed. -/
def spot (t : FileTree) (directory path : String) : Except Fault (List String) := do
  let refuse (cause : IoCause) : Except Fault (List String) := throw (.io ⟨cause, path⟩)
  if hasNul path then throw (.misuse .value)
  if maxPathSize < path.utf8ByteSize then return ← refuse .nameTooLong
  let (head, name) := Path.split (trimSlashes path)
  if path.isEmpty then return ← refuse .notFound
  let parent ← match t.locate directory (if head.isEmpty then "." else head) with
    | .ok found => pure found
    | .error (.io e) => throw (.io { e with path })
    | .error e => throw e
  match parent.entry with
  | none => refuse .notFound
  | some .directory =>
    if maxNameSize < name.utf8ByteSize then refuse .nameTooLong
    else return parent.place ++ [name]
  | some _ => refuse .notDirectory

/-- Writes a file, in a directory that is there. -/
def writeFile (t : FileTree) (directory path : String) (data : ByteArray) :
    Except Fault FileTree := do
  if Text.endsWith "/" path then
    let _ ← t.spot directory path
    throw (.io ⟨.isDirectory, path⟩)
  let found ← t.locate directory path
  match found.entry with
  | some .directory => throw (.io ⟨.isDirectory, path⟩)
  | _ => return t.insert found.place (.file data)

/-- Makes one directory in a directory that is there. -/
def makeDirectory (t : FileTree) (directory path : String) : Except Fault FileTree := do
  let place ← t.spot directory path
  let name := place.getLast?.getD ""
  if ["", ".", ".."].contains name || (t.entry? place).isSome then throw (.io ⟨.occupied, path⟩)
  return t.insert place .directory

/-- The tree after a change, and what kept the change from being made whole. -/
abbrev Changed := FileTree × Option Fault

def tryMakeDirectory (t : FileTree) (directory path : String) : Changed :=
  match t.makeDirectory directory path with
  | .ok t => (t, none)
  | .error e => (t, some e)

def isOccupied : Fault → Bool
  | .io e => e.cause = .occupied
  | _ => false

/-- Makes a directory, and before it those that are missing above; the number bounds how many. What
is made stays even if something further on fails. -/
def makeDirectoriesWithin (directory : String) : Nat → FileTree → String → Changed
  | 0, t, path => t.tryMakeDirectory directory path
  | fuel + 1, t, path =>
    let (head, tail) := Path.split path
    let (head, tail) := if tail.isEmpty then Path.split head else (head, tail)
    if head.isEmpty || tail.isEmpty || t.holds directory head then t.tryMakeDirectory directory path
    else
      let (t, fault) := makeDirectoriesWithin directory fuel t head
      match fault.filter (!isOccupied ·) with
      | some e => (t, some e)
      | none => if tail = "." then (t, none) else t.tryMakeDirectory directory path

def makeDirectories (t : FileTree) (directory path : String) : Changed :=
  makeDirectoriesWithin directory path.length t path

/-- Removes all that lies below a place, but not what is there itself. -/
def eraseBelow (t : FileTree) (place : List String) : FileTree :=
  ⟨t.entries.filter fun (p, _) => p = place || !place.isPrefixOf p⟩

/-- Removes the directory at the end of a path, if there is one. A directory that is called `.` or
`..` is only emptied. -/
def removeTree (t : FileTree) (directory path : String) : FileTree :=
  if [".", ".."].contains (Path.name (trimSlashes path)) then
    match t.locate directory path with
    | .ok ⟨place, some .directory⟩ => t.eraseBelow place
    | _ => t
  else match t.spot directory path with
    | .ok place => match t.entry? place with
      | some .directory => t.erase place
      | _ => t
    | .error _ => t

/-- A tree with a directory at a place and at all places above it. -/
def plantDirectory (t : FileTree) (place : List String) : FileTree :=
  (List.range' 1 place.length).foldl (fun t n =>
    let above := place.take n
    if (t.entry? above).isSome then t else t.insert above .directory) t

/-- A tree with an entry at a place, in a directory that is made when it is missing. -/
def plant (t : FileTree) (place : List String) (e : FileEntry) : FileTree :=
  (t.plantDirectory place.dropLast).insert place e

end FileTree

end Montage
