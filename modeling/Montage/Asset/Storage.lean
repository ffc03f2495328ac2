import Montage.Files.RealPath

/-!
A directory that media are read from. A path that leads out of it, by `..` or by a link, is refused.
-/

namespace Montage

structure Storage where
  /-- the real path of the directory -/
  root : String
  deriving DecidableEq, Repr

namespace Storage

def ofPath (t : FileTree) (directory path : String) : Except Fault Storage :=
  if FileTree.hasNul path then .error (.misuse .value)
  else .ok ⟨t.realPath (Path.join directory path)⟩

/-- The real path of a path in the storage. -/
def resolve (s : Storage) (t : FileTree) (path : String) : Except Fault String :=
  if FileTree.hasNul path then .error (.misuse .value)
  else
    let inside := String.ofList (path.toList.dropWhile (· = '/'))
    let full := t.realPath (Path.join s.root inside)
    if Path.common s.root full = s.root then .ok full
    else .error (.assetUnavailable ("storage path escapes storage root: " ++ path))

def holds (s : Storage) (t : FileTree) (path : String) : Except Fault Bool := do
  return t.isFile "/" (← s.resolve t path)

def read (s : Storage) (t : FileTree) (path : String) : Except Fault ByteArray := do
  t.readFile "/" (← s.resolve t path)

end Storage

end Montage
