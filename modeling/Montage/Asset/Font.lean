import Montage.Files.Tree

/-!
Font files for texts over the picture: by name in the given directories, else any font of the
system. Directories are searched in the order of their names, whatever order they are listed in.
-/

namespace Montage

/-- What the font library makes of the file at a path, seen from a directory: whether it opens it as a
font or raises an `OSError`. It decides by whatever it likes. -/
abbrev FontLoader := FileTree → String → String → Bool

/-- The bytes that a marked font begins with. -/
def FontLoader.mark : List UInt8 := "FONT".toUTF8.toList

/-- A loader for places without a font library: it opens the files that begin with a mark. -/
def FontLoader.marked : FontLoader := fun t directory path =>
  match t.entryAt? directory path with
  | some (.file data) => mark.isPrefixOf (data.extract 0 4).toList
  | _ => false

/-- Where the fonts of the system are: files to try first, and directories to search; and the library
that opens them. -/
structure FontPlaces where
  candidates : List String := []
  directories : List String := []
  loads : FontLoader := .marked

namespace Font

/-- The system's fonts in their usual places. -/
def usualPlaces : FontPlaces where
  candidates := [
    "/Library/Fonts/Arial.ttf",
    "/Library/Fonts/Helvetica.ttf",
    "/System/Library/Fonts/Supplemental/Arial.ttf",
    "/usr/share/fonts/truetype/dejavu/DejaVuSans.ttf",
    "/usr/share/fonts/truetype/liberation/LiberationSans-Regular.ttf",
    "/usr/share/fonts/truetype/freefont/FreeSans.ttf",
    "/usr/local/share/fonts/DejaVuSans.ttf"]
  directories := [
    "/Library/Fonts", "/System/Library/Fonts", "/usr/share/fonts", "/usr/local/share/fonts"]

def isLoadable (t : FileTree) (directory path : String) (loads : FontLoader := .marked) : Bool :=
  t.isFile directory path && loads t directory path

/-- The endings of the files that a font is looked for in. -/
def endings : List String := [".ttf", ".otf", ".TTF", ".OTF"]

def findNamed (t : FileTree) (directory name : String) (places : List String)
    (loads : FontLoader := .marked) : Option String :=
  (places.filter (t.isDirectory directory)).findSome? fun base =>
    (endings.map fun ending => Path.join base (name ++ ending)).find? (isLoadable t directory · loads)

def hasFontEnding (name : String) : Bool :=
  let lower := Text.lower name
  Text.endsWith ".ttf" lower || Text.endsWith ".otf" lower

def sortNames (names : List String) : List String := names.mergeSort fun a b => !(b < a)

/-- How deep the directories of the system are searched. -/
def maxDepth : Nat := 3

/-- The first font below a directory: in its files, then in its directories; links to directories
are not followed. -/
def findBelow (loads : FontLoader) (t : FileTree) (directory : String) : Nat → String → Option String
  | depth, base =>
    match t.locate directory base with
    | .error _ => none
    | .ok found =>
      let children := t.children found.place
      let files := sortNames ((children.map (·.1)).filter fun name =>
        hasFontEnding name && !t.isDirectory directory (Path.join base name))
      let font := (files.map (Path.join base)).find? (isLoadable t directory · loads)
      match depth with
      | 0 => font
      | depth + 1 =>
        let directories := sortNames (children.filterMap fun (name, e) =>
          match e with
          | .directory => some name
          | _ => none)
        font.or (directories.findSome? fun name =>
          findBelow loads t directory depth (Path.join base name))

def findSystem (t : FileTree) (directory : String) (places : FontPlaces) : Option String :=
  (places.candidates.find? (isLoadable t directory · places.loads)).or
    ((places.directories.filter (t.isDirectory directory)).findSome?
      (findBelow places.loads t directory maxDepth))

/-- The file of a font, or of any other when there is none of that name. -/
def find (t : FileTree) (directory : String) (places : FontPlaces) (name : String)
    (fontDirectories : List String) : Option String :=
  (findNamed t directory name fontDirectories places.loads).or (findSystem t directory places)

end Font

end Montage
