import Montage.Text.Blank

/-!
Paths as text: names between slashes. All functions look at the text alone, so that `..` drops the
name before it even where that name is a link.
-/

namespace Montage.Path

/-- The names between slashes; two slashes have an empty name between them. -/
def names (path : String) : List String := (Text.splitOn '/' path.toList).map .ofList

def isAbsolute (path : String) : Bool := Text.startsWith "/" path

/-- The absolute path with these names. -/
def ofNames (names : List String) : String := "/" ++ "/".intercalate names

/-- A path taken from a directory. -/
def join (directory path : String) : String :=
  if isAbsolute path then path
  else if directory.isEmpty || Text.endsWith "/" directory then directory ++ path
  else directory ++ "/" ++ path

/-- What stands before the last slash, and the name behind it. -/
def split (path : String) : String × String :=
  let cs := path.toList
  let tail := (cs.reverse.takeWhile (· ≠ '/')).reverse
  let head := cs.take (cs.length - tail.length)
  let trimmed := Text.dropWhileRight (· = '/') head
  (.ofList (if trimmed.isEmpty then head else trimmed), .ofList tail)

def parent (path : String) : String := (split path).1

def name (path : String) : String := (split path).2

/-- Drops empty names and `.`, and lets `..` drop the name before it; `kept` holds, in reverse, the
names so far. -/
def simplify (absolute : Bool) : List String → List String → List String
  | kept, [] => kept.reverse
  | kept, n :: rest =>
    if n = "" || n = "." then simplify absolute kept rest
    else if n ≠ ".." then simplify absolute (n :: kept) rest
    else match kept with
      | [] => simplify absolute (if absolute then [] else [n]) rest
      | k :: before =>
        if k = ".." then simplify absolute (n :: kept) rest else simplify absolute before rest

/-- The slashes that a path begins with: two stay two, and more are one. -/
def rootSlashes (path : String) : String :=
  let slashes := (path.toList.takeWhile (· = '/')).length
  if slashes = 0 then "" else if slashes = 2 then "//" else "/"

/-- The shortest text of a path. -/
def normalize (path : String) : String :=
  let kept := simplify (isAbsolute path) [] (names path)
  let text := rootSlashes path ++ "/".intercalate kept
  if text.isEmpty then "." else text

def absolute (directory path : String) : String := normalize (join directory path)

/-- The names that two paths begin with, without empty names and `.`. -/
def commonNames (a b : String) : List String :=
  let plain (path : String) := (names path).filter fun n => n ≠ "" && n ≠ "."
  ((plain a).zip (plain b)).takeWhile (fun (m, n) => m = n) |>.map (·.1)

/-- The longest path that two absolute paths have in common. -/
def common (a b : String) : String := ofNames (commonNames a b)

end Montage.Path
