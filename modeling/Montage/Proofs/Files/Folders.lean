import Mathlib.Logic.Function.Basic
import Montage.Proofs.Files.Workspaces

/-!
# Folders that files are put into

In a directory whose path leaves room for a name, a file can be written and read under any name that a
file can have (`exists_writeFile`, `readFile_of_not_mem`). A folder is such a directory. A file of any name
can be written there where nothing but a file is in the way (`IsFolder.exists_writeFile`), and what a folder
has received is told file by file (`Receives`).
-/

namespace Montage.FileTree

open Montage.Path

variable {t base : FileTree} {place files : List String} {directory path n file : String}

/-- A name that a file can have. -/
structure IsFileName (n : String) : Prop extends IsName n where
  nulless : hasNul n = false
  short : n.utf8ByteSize ≤ maxNameSize

theorem hasNul_append (a b : String) : hasNul (a ++ b) = (hasNul a || hasNul b) := by
  simp [hasNul]

theorem follow_file (hn : IsFileName n) (h : t.CanHold (place ++ [n])) (budget : Nat) :
    t.follow budget place [n] = .ok ⟨place ++ [n], t.entry? (place ++ [n])⟩ := by
  obtain ⟨onLink, hwalk, -⟩ := t.exists_follow_eq budget
  rw [hwalk]
  exact walk_last ⟨hn.isPlain, hn.ne_above, hn.short⟩ h.ne_link

theorem writeFile_eq (hfile : IsName file)
    (hlocate : t.locate directory (join path file) = .ok ⟨place, t.entry? place⟩) (h : t.CanHold place)
    (data : ByteArray) :
    t.writeFile directory (join path file) data = .ok (t.insert place (.file data)) := by
  rw [writeFile, if_neg (by simp [endsWith_join_name path hfile]), hlocate]
  obtain hnone | ⟨old, hold⟩ := h
  · rw [hnone]
    rfl
  · rw [hold]
    rfl

/-! ### In a workspace -/

/-- The spot of a path that can have any name of a file behind it. -/
structure IsRoomy (base : FileTree) (directory path : String) (place : List String) : Prop
    extends base.IsSpot directory path place where
  room : path.utf8ByteSize + maxNameSize < maxPathSize

namespace IsWorkspace

variable (hw : base.IsRoomy directory path place) (h : IsWorkspace base place files t)

include h

theorem canHold (file : String) : t.CanHold (place ++ [file]) := by
  obtain hnone | ⟨other, -, heq, data, hdata⟩ := h.inside [file] (by simp)
  · exact .inl hnone
  · obtain rfl := List.singleton_inj.1 heq
    exact .inr ⟨data, hdata⟩

theorem entry?_of_not_mem (hfile : file ∉ files) : t.entry? (place ++ [file]) = none := by
  obtain hnone | ⟨other, hother, heq, -⟩ := h.inside [file] (by simp)
  · exact hnone
  · obtain rfl := List.singleton_inj.1 heq
    exact absurd hother hfile

include hw

theorem locate_eq : t.locate directory path = .ok ⟨place, some .directory⟩ := by
  have hspot := (h.isExtension hw.isSound).spot hw.spot_eq
  obtain ⟨hnul, hlong, hempty, -⟩ := spot_eq_ok.1 hspot
  obtain ⟨d, n, hn, rfl⟩ := hw.isNamed
  obtain ⟨budget, hrest⟩ := exists_follow_spot hn hspot h.directory
  refine locate_eq_ok.2 ⟨hnul, hlong, hempty, ?_⟩
  obtain ⟨onLink, hwalk, -⟩ := t.exists_follow_eq budget
  rw [← List.append_nil (names _), hrest, hwalk, walk, h.directory]

theorem locate_file_eq (hfile : IsFileName file) :
    t.locate directory (join path file) = .ok ⟨place ++ [file], t.entry? (place ++ [file])⟩ := by
  have hspot := (h.isExtension hw.isSound).spot hw.spot_eq
  obtain ⟨hnul, -⟩ := spot_eq_ok.1 hspot
  have hroom := hw.room
  obtain ⟨d, n, hn, rfl⟩ := hw.isNamed
  obtain ⟨budget, hrest⟩ := exists_follow_spot hn hspot h.directory
  have hjoin := join_file d hn hfile.toIsName
  refine locate_eq_ok.2 ⟨?_, ?_, join_ne_empty hfile.ne_empty _, ?_⟩
  · rw [hjoin, hasNul_append, hasNul_append, hnul, hfile.nulless]
    rfl
  · have hslash : "/".utf8ByteSize = 1 := rfl
    have hshort := hfile.short
    rw [hjoin, String.utf8ByteSize_append, String.utf8ByteSize_append, hslash]
    omega
  · rw [names_join_join directory d hn hfile.toIsName, hrest]
    exact follow_file hfile (h.canHold file) budget

theorem exists_writeFile (hfile : IsFileName file) (data : ByteArray) :
    ∃ t', t.writeFile directory (join path file) data = .ok t' :=
  ⟨_, writeFile_eq hfile.toIsName (h.locate_file_eq hw hfile) (h.canHold file) data⟩

theorem readFile_of_not_mem (hfile : IsFileName file) (hnew : file ∉ files) :
    t.readFile directory (join path file) = .error (.io ⟨.notFound, join path file⟩) := by
  rw [readFile, h.locate_file_eq hw hfile, h.entry?_of_not_mem hnew]
  rfl

end IsWorkspace

end Montage.FileTree

namespace Montage

open Montage.Path

namespace Path

variable {path n : String}

theorem isAbsolute_append {a : String} (ha : a ≠ "") (b : String) : isAbsolute (a ++ b) = isAbsolute a := by
  have hslash : "/".toList = ['/'] := rfl
  rw [isAbsolute, isAbsolute, Text.startsWith, Text.startsWith, hslash, String.toList_append]
  cases hlist : a.toList with
  | nil => exact absurd (String.toList_inj.1 hlist) ha
  | cons c rest => rfl

/-- A file stands behind the path of its directory and one slash. -/
theorem exists_join_file (hpath : path ≠ "") (hn : IsName n) :
    ∃ above, join path n = above ++ "/" ++ n ∧ (path = above ∨ path = above ++ "/") := by
  rw [join, if_neg (by simp [isAbsolute_name hn])]
  split
  · rename_i hbare
    have hslash : Text.endsWith "/" path = true := by simpa [hpath] using hbare
    obtain ⟨above, habove⟩ := List.isSuffixOf_iff_suffix.1 hslash
    have heq : path = .ofList above ++ "/" := String.toList_inj.1 (by simp [← habove])
    exact ⟨.ofList above, congrArg (· ++ n) heq, .inr heq⟩
  · exact ⟨path, rfl, .inl rfl⟩

/-- The names of a file are those of its directory and its own. -/
theorem exists_names_file (directory : String) (hpath : path ≠ "") (hn : IsName n) :
    ∃ above, names (join directory (join path n)) = above ++ [n] ∧
      above.filter isPlain = plainNames (join directory path) := by
  obtain ⟨above, hjoin, hcases⟩ := exists_join_file hpath hn
  have habsolute : isAbsolute (above ++ "/" ++ n) = isAbsolute path := by
    rw [isAbsolute_slash]
    rcases hcases with rfl | rfl
    · exact isAbsolute_append hpath "/"
    · rfl
  have hplain : plainNames above = plainNames path := by
    rcases hcases with rfl | rfl
    · rfl
    · exact (plainNames_slash_right above).symm
  rw [hjoin]
  cases hpath' : isAbsolute path with
  | true =>
    rw [hpath'] at habsolute
    rw [join, if_pos habsolute, join, if_pos hpath', names_slash, names_name hn]
    exact ⟨_, rfl, hplain⟩
  | false =>
    rw [hpath'] at habsolute
    obtain ⟨front, hnames, hfront⟩ := exists_names_join directory habsolute
    rw [hnames, names_slash, names_name hn, ← List.append_assoc, plainNames_join hpath', ← hplain]
    exact ⟨_, rfl, by rw [List.filter_append, plainNames_of_front hfront, plainNames]⟩

end Path

namespace FileTree

variable {t t' base : FileTree} {directory path n : String} {place : List String} {data : ByteArray}

/-- A directory whose path leaves room for the names of files. -/
structure IsFolder (t : FileTree) (directory path : String) (place : List String) : Prop where
  isSound : t.IsSound
  located : t.locate directory path = .ok ⟨place, some .directory⟩
  room : path.utf8ByteSize + maxNameSize < maxPathSize

namespace IsFolder

theorem mono (h : t.IsFolder directory path place) (hext : t.Extends t') (hs : t'.IsSound) :
    t'.IsFolder directory path place := by
  have hentry := entry_of_locate h.located
  refine ⟨hs, ?_, h.room⟩
  rw [hext.locate h.located, hext.directory place hentry.symm]

variable (h : t.IsFolder directory path place) (hn : IsFileName n)

include h hn

theorem locate_file (hcan : t.CanHold (place ++ [n])) :
    t.locate directory (join path n) = .ok ⟨place ++ [n], t.entry? (place ++ [n])⟩ := by
  obtain ⟨hnul, -, hpath, hfollow⟩ := locate_eq_ok.1 h.located
  obtain ⟨above, hnames, habove⟩ := exists_names_file directory hpath hn.toIsName
  rw [follow_plain, ← plainNames, ← habove, ← follow_plain] at hfollow
  obtain ⟨budget, hrest⟩ := exists_follow_append hfollow
  refine locate_eq_ok.2 ⟨?_, ?_, join_ne_empty hn.ne_empty path, ?_⟩
  · obtain ⟨above', hjoin, rfl | rfl⟩ := exists_join_file hpath hn.toIsName
    · rw [hjoin, hasNul_append, hasNul_append, hnul, hn.nulless]
      rfl
    · rw [hjoin, hasNul_append, hnul, hn.nulless]
      rfl
  · have hslash : "/".utf8ByteSize = 1 := rfl
    have hroom := h.room
    have hshort := hn.short
    obtain ⟨above', hjoin, rfl | rfl⟩ := exists_join_file hpath hn.toIsName
    all_goals
      simp only [hjoin, String.utf8ByteSize_append, hslash] at hroom ⊢
      omega
  · rw [hnames, hrest]
    exact follow_file hn hcan budget

/-- A file can be written where nothing but a file is in the way. -/
theorem exists_writeFile (hcan : t.CanHold (place ++ [n])) (data : ByteArray) : ∃ t',
    t.writeFile directory (join path n) data = .ok t' ∧ t' = t.insert (place ++ [n]) (.file data) ∧
      t.Extends t' ∧ t'.IsFolder directory path place := by
  have hwrite := writeFile_eq hn.toIsName (h.locate_file hn hcan) hcan data
  obtain ⟨place', hlocate, hwrites⟩ := writeFile_eq_ok h.isSound hwrite
  exact ⟨_, hwrite, rfl, hwrites.isExtension,
    h.mono hwrites.isExtension (hwrites.isSound h.isSound)⟩

end IsFolder

/-! ### What a folder has received -/

variable {ι : Type} {name : ι → String} {contents : ι → Option ByteArray} {IsScratch : List String → Prop}

/-- The files of a folder have their contents, those without any are as before, and so is everything
else that is not scratch. -/
structure Receives (base : FileTree) (place : List String) (name : ι → String)
    (contents : ι → Option ByteArray) (IsScratch : List String → Prop) (t : FileTree) : Prop where
  file : ∀ i, t.entry? (place ++ [name i]) =
    ((contents i).map FileEntry.file).or (base.entry? (place ++ [name i]))
  rest : ∀ other, (∀ i, other ≠ place ++ [name i]) → t.entry? other = base.entry? other ∨ IsScratch other

namespace Receives

theorem start (base : FileTree) (place : List String) (name : ι → String)
    (IsScratch : List String → Prop) : base.Receives place name (fun _ => none) IsScratch base :=
  ⟨fun _ => rfl, fun _ _ => .inl rfl⟩

variable (h : base.Receives place name contents IsScratch t)

include h

theorem canHold {i : ι} (hcan : base.CanHold (place ++ [name i])) : t.CanHold (place ++ [name i]) := by
  rw [CanHold, h.file i]
  cases contents i with
  | none => exact hcan
  | some data => exact .inr ⟨data, rfl⟩

/-- One more file is written. -/
theorem insert [DecidableEq ι] (hname : Function.Injective name) (i : ι) (data : ByteArray) :
    base.Receives place name (Function.update contents i (some data)) IsScratch
      (t.insert (place ++ [name i]) (.file data)) := by
  refine ⟨fun j => ?_, fun other hother => ?_⟩
  · rw [entry?_insert (by simp)]
    by_cases hj : j = i
    · subst hj
      rw [if_pos rfl, Function.update_self]
      rfl
    · rw [if_neg (by simpa using hname.ne hj), h.file j, Function.update_of_ne hj]
  · rw [entry?_insert (by simp), if_neg (hother i)]
    exact h.rest other hother

end Receives

/-! ### Folders that are made -/

/-- The tree with the directory at a path, which is made when it is missing. -/
def ensured (t : FileTree) (directory path : String) : FileTree :=
  if t.isDirectory directory path then t else (t.makeDirectories directory path).1

theorem grows_ensured (t : FileTree) (directory path : String) : t.Grows (t.ensured directory path) := by
  unfold ensured
  split
  · exact .refl t
  · exact t.makeDirectories_grows directory path

end FileTree

end Montage
