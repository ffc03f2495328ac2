import Montage.Files.Tree

/-!
The real path of a file: all links in it replaced by what they lead to. A link that leads back to
itself stays as it is, with what comes behind it, and from there on the path is no more than a text.
-/

namespace Montage.FileTree

/-- The links met so far, each with its real place once that is known. -/
abbrev Seen := List (List String × Option (List String))

/-- What the links of a path were replaced to: a place without links, or a text with a link that leads
back to itself. -/
inductive Real where
  | settled (place : List String) (seen : Seen)
  | loose (path : String)

/-- A path that could not be followed further, with the names behind it. -/
def Real.behind (path : String) (names : List String) : Real :=
  .loose (Path.join path ("/".intercalate names))

/-- Replaces links from a place on. The target of a link is left to `onLink`. -/
def realWalk (t : FileTree) (onLink : List String → List String → Seen → Real) :
    List String → List String → Seen → Real
  | place, [], seen => .settled place seen
  | place, n :: rest, seen =>
    if n = "" || n = "." then t.realWalk onLink place rest seen
    else if n = ".." then t.realWalk onLink place.dropLast rest seen
    else
      let here := place ++ [n]
      match t.entry? here with
      | some (.link target) =>
        match seen.lookup here with
        | some (some real) => t.realWalk onLink real rest seen
        | some none => .behind (Path.ofNames here) rest
        | none =>
          let start := if Path.isAbsolute target then [] else place
          match onLink start (Path.names target) ((here, none) :: seen) with
          | .settled real seen => t.realWalk onLink real rest ((here, some real) :: seen)
          | .loose path => .behind path rest
      | _ => t.realWalk onLink here rest seen

/-- Replaces links, at most so many inside one another. -/
def realFrom (t : FileTree) : Nat → List String → List String → Seen → Real
  | 0 => t.realWalk fun place names _ => .behind (Path.ofNames place) names
  | links + 1 => t.realWalk (t.realFrom links)

/-- The real form of an absolute path. No more links can be inside one another than there are. -/
def real (t : FileTree) (path : String) : Real :=
  t.realFrom (t.entries.length + 1) [] (Path.names path) []

/-- The real path of an absolute path. -/
def realPath (t : FileTree) (path : String) : String :=
  match t.real path with
  | .settled place _ => Path.ofNames place
  | .loose path => Path.normalize path

end Montage.FileTree
