import Montage.Asset.Storage
import Montage.Proofs.Files.RealPath
import Montage.Proofs.Outcome

/-!
# Media come out of their directory only

The path of a medium is replaced by its real path, and that has to begin with the names of the directory.
The file that is opened is then the one at that place, unless a link on the way leads back to itself and
names behind it are dropped by their text (`Storage.read_contained`).
-/

namespace Montage

open Montage.Path

namespace FileTree

variable {t : FileTree} {directory path : String} {data : ByteArray}

theorem readFile_eq_ok (h : t.readFile directory path = .ok data) :
    ∃ found, t.locate directory path = .ok found ∧ found.entry = some (.file data) := by
  obtain ⟨found, hfound, h⟩ := Outcome.bind_eq_ok.1 h
  refine ⟨found, hfound, ?_⟩
  split at h
  · rename_i data' hentry
    cases h
    exact hentry
  · cases h
  · cases h

/-- An absolute path is looked up by itself. -/
theorem find_of_locate {found : Found} (habs : isAbsolute path = true)
    (h : t.locate directory path = .ok found) : t.find path = .ok found := by
  have hfull : (if path.isEmpty then "" else join directory path) = path := by
    obtain ⟨rest, hpath⟩ := isAbsolute_iff.1 habs
    rw [join, if_pos habs]
    simp [hpath]
  rw [locate] at h
  split at h
  · cases h
  split at h
  · cases h
  dsimp only at h
  rw [hfull] at h
  split at h
  · rename_i hfind
    cases h
    exact hfind
  · cases h

end FileTree

namespace Path

variable {a b path : String}

/-- The names that paths have in common are the first ones of either. -/
theorem commonNames_prefix (a b : String) : commonNames a b <+: plainNames b := by
  have hzip (xs ys : List String) :
      ((xs.zip ys).takeWhile fun pair => pair.1 = pair.2).map (·.1) <+: ys := by
    induction xs generalizing ys with
    | nil => exact List.nil_prefix
    | cons x xs ih =>
      cases ys with
      | nil => exact List.nil_prefix
      | cons y ys =>
        rw [List.zip_cons_cons]
        by_cases heq : x = y
        · rw [List.takeWhile_cons_of_pos (by simpa using heq), List.map_cons, heq]
          exact List.cons_prefix_cons.2 ⟨rfl, ih ys⟩
        · rw [List.takeWhile_cons_of_neg (by simpa using heq)]
          exact List.nil_prefix
  exact hzip _ _

end Path

namespace Storage

variable {s : Storage} {t : FileTree} {path full : String} {data : ByteArray} {n : String}

/-- A path without the slashes that it begins with. -/
def inner (path : String) : String := .ofList (path.toList.dropWhile (· = '/'))

/-- The path of the directory, with that of a medium behind it. -/
def fullPath (s : Storage) (path : String) : String := join s.root (inner path)

/-- The bytes under a path are those of a file that lies below the directory when all links on the way
to it are followed. -/
def Contains (s : Storage) (t : FileTree) (path : String) (data : ByteArray) : Prop :=
  ∃ full found, s.resolve t path = .ok full ∧ t.locate "/" full = .ok found ∧
    found.entry = some (.file data) ∧ plainNames s.root <+: found.place

theorem isAbsolute_inner (path : String) : isAbsolute (inner path) = false := by
  apply Bool.eq_false_iff.2
  intro habs
  obtain ⟨rest, hrest⟩ := isAbsolute_iff.1 habs
  have hslash : "/".toList = ['/'] := rfl
  have hchars : path.toList.dropWhile (· = '/') = '/' :: rest.toList := by
    have htext := congrArg String.toList hrest
    rwa [inner, String.toList_ofList, String.toList_append, hslash] at htext
  have hne : path.toList.dropWhile (· = '/') ≠ [] := by
    rw [hchars]
    exact List.cons_ne_nil _ _
  have hhead := List.head_dropWhile_not (· = '/') hne
  simp [hchars] at hhead

theorem resolve_eq_ok (h : s.resolve t path = .ok full) :
    full = t.realPath (s.fullPath path) ∧ common s.root full = s.root := by
  unfold resolve at h
  split at h
  · cases h
  · dsimp only at h
    split at h
    · rename_i hcommon
      obtain rfl := Except.ok.inj h
      exact ⟨rfl, hcommon⟩
    · simp only [reduceCtorEq] at h

/-- The directory is called by the first names of each path in it. -/
theorem root_of_resolve (h : s.resolve t path = .ok full) :
    ∃ root, s.root = ofNames root ∧ root <+: plainNames full ∧ ∀ n ∈ root, IsName n := by
  obtain ⟨hfull, hcommon⟩ := resolve_eq_ok h
  have hbelow := commonNames_prefix s.root full
  refine ⟨commonNames s.root full, hcommon.symm, hbelow, fun n hn => ?_⟩
  exact FileTree.isName_of_mem_realPath (hfull ▸ hbelow.subset hn)

/-- Reading gives the content of files below the directory only, if no link on the way leads back to
itself, or if neither the path nor a link goes up or doubles a slash. -/
theorem read_contained (h : s.read t path = .ok data)
    (hway : t.Settles (s.fullPath path) ∨ t.HasTidyLinks ∧ IsTidy (inner path)) :
    s.Contains t path data := by
  obtain ⟨full, hresolve, hread⟩ := Outcome.bind_eq_ok.1 h
  obtain ⟨found, hfound, hentry⟩ := FileTree.readFile_eq_ok hread
  obtain ⟨hfull, -⟩ := resolve_eq_ok hresolve
  obtain ⟨root, hroot, hbelow, hnames⟩ := root_of_resolve hresolve
  have hfind : t.find (t.realPath (s.fullPath path)) = .ok found := by
    apply FileTree.find_of_locate (t.isAbsolute_realPath _)
    exact hfull ▸ hfound
  have hway' : t.Settles (s.fullPath path) ∨ t.HasTidyLinks ∧ IsTidy (s.fullPath path) := by
    refine hway.imp_right fun ⟨hlinks, htidy⟩ => ⟨hlinks, ?_⟩
    rw [fullPath, hroot]
    exact isTidy_join_ofNames hnames htidy (isAbsolute_inner path)
  obtain ⟨hreal, hplace⟩ := FileTree.find_realPath hway' hfind
  refine ⟨full, found, hresolve, hfound, hentry, ?_⟩
  rwa [hroot, plainNames_ofNames hnames, ← plainNames_ofNames fun _ => hreal.isName, ← hplace, ← hfull]

end Storage

/-! ### A loop beside a link that leads out -/

/-- A directory with a link to one of its files, one to itself, and one that leads out. -/
def loopedTree : FileTree where
  entries := [(["media"], .directory), (["media", "a.mp4"], .file "inside".toUTF8),
    (["media", "clip"], .link "a.mp4"), (["media", "loop"], .link "loop"),
    (["media", "key"], .link "../secret.txt"), (["secret.txt"], .file "secret".toUTF8)]

def loopedStorage : Storage := ⟨"/media"⟩

theorem loopedStorage_contains :
    loopedStorage.read loopedTree "/./clip" = .ok "inside".toUTF8 ∧
      loopedTree.Settles (loopedStorage.fullPath "/./clip") ∧
      loopedStorage.Contains loopedTree "/./clip" "inside".toUTF8 := by
  have hread : loopedStorage.read loopedTree "/./clip" = .ok "inside".toUTF8 := by decide +kernel
  have hsettles : loopedTree.Settles (loopedStorage.fullPath "/./clip") := by decide +kernel
  exact ⟨hread, hsettles, Storage.read_contained hread (.inl hsettles)⟩

/-- Behind the link to itself `..` drops that link by its text, and the link that leads out is left in
the real path. -/
theorem loopedStorage_not_contains :
    Storage.ofPath loopedTree "/" "media" = .ok loopedStorage ∧
      loopedStorage.read loopedTree "loop/../key" = .ok "secret".toUTF8 ∧
      ¬loopedStorage.Contains loopedTree "loop/../key" "secret".toUTF8 := by
  refine ⟨by decide +kernel, by decide +kernel, ?_⟩
  rintro ⟨full, found, hresolve, hfound, -, hbelow⟩
  have hkey : loopedStorage.resolve loopedTree "loop/../key" = .ok "/media/key" := by decide +kernel
  obtain rfl : full = "/media/key" := Except.ok.inj (hresolve.symm.trans hkey)
  have hplace : ((loopedTree.locate "/" "/media/key").toOption.map (·.place)) =
      some ["secret.txt"] := by decide +kernel
  rw [hfound] at hplace
  obtain hout : found.place = ["secret.txt"] := Option.some.inj hplace
  rw [hout] at hbelow
  exact absurd hbelow (by decide)

end Montage
