import Mathlib.Data.List.Basic
import Montage.Proofs.Files.Following
import Montage.Proofs.Outcome

/-!
# Changes of a tree

What a change of a tree leaves as it was. A path that leads to a place leads there too in a tree with
more in it, as long as no way is blocked or turned off (`Extends.follow`), so that what is written at a
path is read there afterwards (`readFile_of_writeFile`).
-/

namespace Montage.FileTree

variable {t t' : FileTree} {place other names : List String} {e : FileEntry} {budget : Nat}
  {directory path : String} {found : Found}

/-! ### What is at a place -/

theorem lookup_cons_eq (p : List String) (old : FileEntry) (entries : List (List String × FileEntry)) :
    List.lookup other ((p, old) :: entries) = if other = p then some old else entries.lookup other := by
  by_cases hother : other = p
  · subst hother
    rw [if_pos rfl, List.lookup_cons_self]
  · rw [if_neg hother, List.lookup_cons, beq_eq_false_iff_ne.2 hother]

theorem lookup_replaced (entries : List (List String × FileEntry)) (place other : List String)
    (e : FileEntry) :
    (entries.map fun (p, old) => if p = place then (p, e) else (p, old)).lookup other =
      (entries.lookup other).map fun old => if other = place then e else old := by
  induction entries with
  | nil => rfl
  | cons entry entries ih =>
    obtain ⟨p, old⟩ := entry
    have hentry : (if p = place then (p, e) else (p, old)) = (p, if p = place then e else old) := by
      split <;> rfl
    rw [List.map_cons]
    dsimp only
    rw [hentry, lookup_cons_eq, lookup_cons_eq, ih]
    by_cases hother : other = p
    · rw [if_pos hother, if_pos hother, Option.map_some, hother]
    · rw [if_neg hother, if_neg hother]

theorem lookup_kept (entries : List (List String × FileEntry)) (keeps : List String → Bool)
    (other : List String) :
    (entries.filter fun entry => keeps entry.1).lookup other =
      if keeps other then entries.lookup other else none := by
  induction entries with
  | nil => simp
  | cons entry entries ih =>
    obtain ⟨p, old⟩ := entry
    rw [List.filter_cons]
    by_cases hother : other = p
    · subst hother
      cases hkeeps : keeps other <;> simp [hkeeps, ih]
    · cases hkeeps : keeps p <;> simp [ih, lookup_cons_eq, hother]

theorem entry?_of_ne_nil (hroot : other ≠ []) (t : FileTree) :
    t.entry? other = t.entries.lookup other :=
  if_neg (by simpa using hroot)

theorem entry?_insert (hne : place ≠ []) (e : FileEntry) (other : List String) :
    FileTree.entry? (t.insert place e) other = if other = place then some e else t.entry? other := by
  by_cases hroot : other = []
  · rw [if_neg (by rw [hroot]; exact hne.symm), hroot]
    rfl
  rw [entry?_of_ne_nil hroot, entry?_of_ne_nil hroot, insert]
  split
  · rename_i hsome
    obtain ⟨old, hold⟩ := Option.isSome_iff_exists.1 hsome
    rw [lookup_replaced]
    by_cases hother : other = place
    · rw [hother, hold, if_pos rfl, Option.map_some, if_pos rfl]
    · simp [hother]
  · rename_i hnone
    rw [List.lookup_append, lookup_cons_eq]
    by_cases hother : other = place
    · rw [hother, Option.not_isSome_iff_eq_none.1 hnone, if_pos rfl, if_pos rfl]
      rfl
    · rw [if_neg hother, if_neg hother, List.lookup_nil, Option.or_none]

theorem entry?_erase (hne : place ≠ []) (other : List String) :
    FileTree.entry? (t.erase place) other = if place <+: other then none else t.entry? other := by
  by_cases hroot : other = []
  · rw [if_neg (by rw [hroot, List.prefix_nil]; exact hne), hroot]
    rfl
  rw [entry?_of_ne_nil hroot, entry?_of_ne_nil hroot, erase,
    lookup_kept t.entries (fun p => !place.isPrefixOf p)]
  by_cases hbelow : place <+: other
  · rw [if_pos hbelow, if_neg (by simpa [List.isPrefixOf_iff_prefix] using hbelow)]
  · rw [if_neg hbelow, if_pos (by simpa [← List.isPrefixOf_iff_prefix] using hbelow)]

/-! ### Paths in a larger tree -/

/-- Directories and links stay, files stay files, and there are no other links. -/
structure Extends (t t' : FileTree) : Prop where
  directory : ∀ place, t.entry? place = some .directory → t'.entry? place = some .directory
  link : ∀ place target, t.entry? place = some (.link target) → t'.entry? place = some (.link target)
  file : ∀ place data, t.entry? place = some (.file data) → ∃ data', t'.entry? place = some (.file data')
  noLink : ∀ place target, t'.entry? place = some (.link target) → t.entry? place = some (.link target)

namespace Extends

theorem refl (t : FileTree) : t.Extends t :=
  ⟨fun _ => id, fun _ _ => id, fun _ data h => ⟨data, h⟩, fun _ _ => id⟩

theorem trans {t'' : FileTree} (h : t.Extends t') (h' : t'.Extends t'') : t.Extends t'' where
  directory place hplace := h'.directory place (h.directory place hplace)
  link place target hplace := h'.link place target (h.link place target hplace)
  file place data hplace := by
    obtain ⟨data', hplace'⟩ := h.file place data hplace
    exact h'.file place data' hplace'
  noLink place target hplace := h.noLink place target (h'.noLink place target hplace)

/-- The walk is the same up to its end, and there it finds what is there now. -/
theorem walk (h : t.Extends t') {onLink onLink' : List String → List String → Except IoCause Found}
    (honLink : ∀ place names found, onLink place names = .ok found →
      onLink' place names = .ok ⟨found.place, t'.entry? found.place⟩)
    (hwalk : t.walk onLink place names = .ok found) :
    t'.walk onLink' place names = .ok ⟨found.place, t'.entry? found.place⟩ := by
  induction names generalizing place with
  | nil =>
    cases hwalk
    rfl
  | cons n rest ih =>
    rw [walk_eq_ok] at hwalk ⊢
    cases hwalk with
    | blank hn hrest => exact .blank hn (ih hrest)
    | above hn hrest => exact .above hn (ih hrest)
    | last hn hend hentry hfound =>
      subst hend hfound
      rw [← walk_eq_ok]
      refine walk_last hn fun target htarget => ?_
      -- A link there would have been one before.
      exact hentry.ne_link target (h.noLink _ _ htarget)
    | inside hn hentry hrest => exact .inside hn (h.directory _ hentry) (ih hrest)
    | link hn hentry hrest => exact .link hn (h.link _ _ hentry) (honLink _ _ _ hrest)

theorem follow (h : t.Extends t') (hfollow : t.follow budget place names = .ok found) :
    t'.follow budget place names = .ok ⟨found.place, t'.entry? found.place⟩ := by
  induction budget generalizing place names found with
  | zero => exact h.walk (fun _ _ _ hlink => by cases hlink) hfollow
  | succ budget ih => exact h.walk (fun _ _ _ => ih) hfollow

end Extends

theorem join_ne_empty (hpath : path ≠ "") (directory : String) : Path.join directory path ≠ "" := by
  unfold Path.join
  split
  · exact hpath
  · split <;> simp [String.append_eq_empty_iff, hpath]

theorem locate_eq_ok : t.locate directory path = .ok found ↔ hasNul path = false ∧
    path.utf8ByteSize ≤ maxPathSize ∧ path ≠ "" ∧
    t.follow maxLinks [] (Path.names (Path.join directory path)) = .ok found := by
  unfold locate
  cases hnul : hasNul path with
  | true => simp
  | false =>
    by_cases hlong : maxPathSize < path.utf8ByteSize
    · simp [hlong, Nat.not_le.2 hlong]
    · by_cases hempty : path = ""
      · simp [hempty, find]
      · simp only [if_neg hlong, find]
        have hfull : (Path.join directory path).isEmpty = false := by
          simpa using join_ne_empty hempty directory
        have hnonempty : path.isEmpty = false := by simpa using hempty
        simp only [hnonempty, hfull, Bool.false_eq_true, if_false, true_and]
        cases t.follow maxLinks [] (Path.names (Path.join directory path)) with
        | ok found' => simp [Nat.not_lt.1 hlong, hempty]
        | error cause => simp

theorem Extends.locate (h : t.Extends t') (hlocate : t.locate directory path = .ok found) :
    t'.locate directory path = .ok ⟨found.place, t'.entry? found.place⟩ := by
  obtain ⟨hnul, hlong, hempty, hfollow⟩ := locate_eq_ok.1 hlocate
  exact locate_eq_ok.2 ⟨hnul, hlong, hempty, h.follow hfollow⟩

theorem entry_of_locate (h : t.locate directory path = .ok found) :
    found.entry = t.entry? found.place := by
  have hsame := (Extends.refl t).locate h
  rw [h] at hsame
  exact congrArg Found.entry (Except.ok.inj hsame)

/-! ### Trees without gaps -/

/-- What there is lies in a directory, and has a name. -/
def IsSound (t : FileTree) : Prop :=
  ∀ place n, t.entry? (place ++ [n]) ≠ none → t.entry? place = some .directory

theorem isSound_of_entries (h : ∀ entry ∈ t.entries, t.entry? entry.1.dropLast = some .directory) :
    t.IsSound := by
  intro place n hsome
  rw [entry?_of_ne_nil (by simp)] at hsome
  obtain ⟨e, he⟩ := Option.ne_none_iff_exists'.1 hsome
  obtain ⟨before, after, hentries, -⟩ := List.lookup_eq_some_iff.1 he
  have hplace := h (place ++ [n], e) (by simp [hentries])
  rwa [List.dropLast_concat] at hplace

/-- Where a walk ends that starts in a directory: in the root, or in a directory at something that is no
link. -/
structure IsEnd (t : FileTree) (place : List String) : Prop where
  noLink : ∀ target, t.entry? place ≠ some (.link target)
  above : place = [] ∨ t.entry? place.dropLast = some .directory

namespace IsSound

theorem parent (h : t.IsSound) (hplace : t.entry? place ≠ none) :
    t.entry? place.dropLast = some .directory := by
  obtain rfl | ⟨above, n, rfl⟩ := List.eq_nil_or_concat place
  · rfl
  · rw [List.concat_eq_append] at hplace ⊢
    rw [List.dropLast_concat]
    exact h above n hplace

theorem walk_isEnd (h : t.IsSound) {onLink : List String → List String → Except IoCause Found}
    (honLink : ∀ place names found, t.entry? place = some .directory →
      onLink place names = .ok found → t.IsEnd found.place)
    (hplace : t.entry? place = some .directory) (hwalk : t.walk onLink place names = .ok found) :
    t.IsEnd found.place := by
  induction names generalizing place with
  | nil =>
    cases hwalk
    exact ⟨fun target htarget => by simp [hplace] at htarget,
      .inr (h.parent (by rw [hplace]; exact nofun))⟩
  | cons n rest ih =>
    cases walk_eq_ok.1 hwalk with
    | blank _ hrest => exact ih hplace hrest
    | above _ hrest => exact ih (h.parent (by rw [hplace]; exact nofun)) hrest
    | last _ _ hentry hfound =>
      subst hfound
      exact ⟨hentry.ne_link, .inr (by rwa [List.dropLast_concat])⟩
    | inside _ hentry hrest => exact ih hentry hrest
    | link _ hentry hrest =>
      refine honLink _ _ _ ?_ hrest
      split
      · rfl
      · exact hplace

theorem follow_isEnd (h : t.IsSound) (hplace : t.entry? place = some .directory)
    (hfollow : t.follow budget place names = .ok found) : t.IsEnd found.place := by
  induction budget generalizing place names found with
  | zero => exact h.walk_isEnd (fun _ _ _ _ hlink => by cases hlink) hplace hfollow
  | succ budget ih => exact h.walk_isEnd (fun _ _ _ => ih) hplace hfollow

theorem locate_isEnd (h : t.IsSound) (hlocate : t.locate directory path = .ok found) :
    t.IsEnd found.place :=
  h.follow_isEnd rfl (locate_eq_ok.1 hlocate).2.2.2

end IsSound

/-! ### Files that are written -/

/-- The tree with a file or a directory more, or with other data in a file. -/
theorem extends_insert (hne : place ≠ []) (hlink : ∀ target, e ≠ .link target)
    (hold : t.entry? place = none ∨
      ∃ old data, t.entry? place = some (.file old) ∧ e = .file data) : t.Extends (t.insert place e) := by
  have hother (other : List String) (he : t.entry? other ≠ none)
      (hfile : ∀ old, t.entry? other ≠ some (.file old)) :
      FileTree.entry? (t.insert place e) other = t.entry? other := by
    rw [entry?_insert hne]
    refine if_neg ?_
    rintro rfl
    obtain hnone | ⟨old, data, hsome, -⟩ := hold
    · exact he hnone
    · exact hfile old hsome
  refine ⟨fun other h => ?_, fun other target h => ?_, fun other data h => ?_, fun other target h => ?_⟩
  · rw [hother other (by simp [h]) (by simp [h]), h]
  · rw [hother other (by simp [h]) (by simp [h]), h]
  · rw [entry?_insert hne]
    split
    · rename_i heq
      subst heq
      obtain hnone | ⟨old, data', -, rfl⟩ := hold
      · rw [hnone] at h
        cases h
      · exact ⟨data', rfl⟩
    · exact ⟨data, h⟩
  · rw [entry?_insert hne] at h
    split at h
    · exact absurd (Option.some.inj h) (hlink target)
    · exact h

theorem IsSound.insert (h : t.IsSound) (hne : place ≠ [])
    (habove : t.entry? place.dropLast = some .directory)
    (hext : t.Extends (t.insert place e)) : (t.insert place e).IsSound := by
  intro above n hsome
  apply hext.directory
  rw [entry?_insert hne] at hsome
  split at hsome
  · rename_i heq
    rw [← heq, List.dropLast_concat] at habove
    exact habove
  · exact h above n hsome

/-- What writing a file does to a tree. -/
structure Writes (t : FileTree) (place : List String) (data : ByteArray) (t' : FileTree) : Prop where
  ne_root : place ≠ []
  old : t.entry? place = none ∨ ∃ old, t.entry? place = some (.file old)
  above : t.entry? place.dropLast = some .directory
  eq : t' = t.insert place (.file data)

variable {data : ByteArray}

theorem Writes.isExtension (h : t.Writes place data t') : t.Extends t' := by
  rw [h.eq]
  refine extends_insert h.ne_root nofun (h.old.imp_right ?_)
  exact fun ⟨old, hold⟩ => ⟨old, data, hold, rfl⟩

theorem Writes.isSound (h : t.Writes place data t') (hs : t.IsSound) : t'.IsSound := by
  have hext := h.isExtension
  rw [h.eq] at hext ⊢
  exact hs.insert h.ne_root h.above hext

theorem writeFile_eq_ok (hs : t.IsSound) (h : t.writeFile directory path data = .ok t') :
    ∃ place, t.locate directory path = .ok ⟨place, t.entry? place⟩ ∧ t.Writes place data t' := by
  unfold writeFile at h
  split at h
  · obtain ⟨_, -, h⟩ := Outcome.bind_eq_ok.1 h
    cases h
  obtain ⟨found, hlocate, h⟩ := Outcome.bind_eq_ok.1 h
  have hentry := entry_of_locate hlocate
  obtain ⟨hlink, habove⟩ := hs.locate_isEnd hlocate
  obtain ⟨place, entry⟩ := found
  dsimp only at h hentry hlink habove
  subst hentry
  refine ⟨place, hlocate, ?_⟩
  split at h
  · cases h
  · rename_i hdirectory
    have hne : place ≠ [] := by
      rintro rfl
      exact hdirectory rfl
    refine ⟨hne, ?_, habove.resolve_left hne, (Outcome.pure_eq_ok.1 h).symm⟩
    cases hentry : t.entry? place with
    | none => exact .inl rfl
    | some e =>
      cases e with
      | file old => exact .inr ⟨old, rfl⟩
      | directory => exact absurd hentry hdirectory
      | link target => exact absurd hentry (hlink target)

/-- A file that was written is there. -/
theorem readFile_of_writeFile (hs : t.IsSound) (h : t.writeFile directory path data = .ok t') :
    t'.readFile directory path = .ok data := by
  obtain ⟨place, hlocate, hwrites⟩ := writeFile_eq_ok hs h
  have hentry : t'.entry? place = some (.file data) := by
    rw [hwrites.eq, entry?_insert hwrites.ne_root, if_pos rfl]
  unfold readFile
  rw [hwrites.isExtension.locate hlocate, hentry]
  rfl

/-! ### Directories that are made -/

/-- The path of the directory that the last name of a path stands in. -/
def headOf (path : String) : String :=
  if (Path.parent (trimSlashes path)).isEmpty then "." else Path.parent (trimSlashes path)

theorem spot_eq_ok : t.spot directory path = .ok place ↔ hasNul path = false ∧
    path.utf8ByteSize ≤ maxPathSize ∧ path ≠ "" ∧
    (Path.name (trimSlashes path)).utf8ByteSize ≤ maxNameSize ∧
    ∃ parent, t.locate directory (headOf path) = .ok ⟨parent, some .directory⟩ ∧
      place = parent ++ [Path.name (trimSlashes path)] := by
  unfold spot headOf Path.parent Path.name
  cases hnul : hasNul path with
  | true => simp [Outcome.throw_bind]
  | false =>
    by_cases hlong : maxPathSize < path.utf8ByteSize
    · simp [hlong, Nat.not_le.2 hlong]
    by_cases hempty : path = ""
    · simp [hempty]
    have hnonempty : path.isEmpty = false := by simpa using hempty
    simp only [if_neg hlong, hnonempty, Bool.false_eq_true, if_false, true_and, pure_bind]
    cases t.locate directory _ with
    | error fault => cases fault <;> simp [Outcome.throw_bind]
    | ok found =>
      obtain ⟨parent, entry⟩ := found
      cases entry with
      | none => simp
      | some entry =>
        cases entry with
        | file data => simp
        | link target => simp
        | directory =>
          by_cases hname : maxNameSize < (Path.split (trimSlashes path)).2.utf8ByteSize
          · simp [hname, Nat.not_le.2 hname]
          · simp [hname, Nat.not_lt.1 hlong, Nat.not_lt.1 hname, hempty, Outcome.pure_eq_ok, @eq_comm _ place]

theorem Extends.spot (h : t.Extends t') (hspot : t.spot directory path = .ok place) :
    t'.spot directory path = .ok place := by
  obtain ⟨hnul, hlong, hempty, hname, parent, hparent, rfl⟩ := spot_eq_ok.1 hspot
  refine spot_eq_ok.2 ⟨hnul, hlong, hempty, hname, parent, ?_, rfl⟩
  have hentry := entry_of_locate hparent
  rw [h.locate hparent, h.directory parent hentry.symm]

/-- There may be more directories, and nothing else is different. -/
structure Grows (t t' : FileTree) : Prop where
  kept : ∀ place e, t.entry? place = some e → t'.entry? place = some e
  added : ∀ place, t.entry? place = none →
    t'.entry? place = none ∨ t'.entry? place = some .directory
  isSound : t.IsSound → t'.IsSound

namespace Grows

theorem refl (t : FileTree) : t.Grows t := ⟨fun _ _ => id, fun _ => .inl, id⟩

theorem trans {t'' : FileTree} (h : t.Grows t') (h' : t'.Grows t'') : t.Grows t'' where
  kept place e hplace := h'.kept place e (h.kept place e hplace)
  added place hplace := by
    obtain hnone | hmade := h.added place hplace
    · exact h'.added place hnone
    · exact .inr (h'.kept place _ hmade)
  isSound hs := h'.isSound (h.isSound hs)

theorem isExtension (h : t.Grows t') : t.Extends t' where
  directory place hplace := h.kept place _ hplace
  link place target hplace := h.kept place _ hplace
  file place data hplace := ⟨data, h.kept place _ hplace⟩
  noLink place target hplace := by
    cases hold : t.entry? place with
    | some e =>
      rw [← hplace, h.kept place e hold]
    | none =>
      obtain hnone | hmade := h.added place hold
      · rw [hnone] at hplace
        cases hplace
      · rw [hmade] at hplace
        cases hplace

end Grows

theorem makeDirectory_eq_ok (h : t.makeDirectory directory path = .ok t') :
    ∃ place, t.spot directory path = .ok place ∧ place ≠ [] ∧ t.entry? place = none ∧
      t.entry? place.dropLast = some .directory ∧ Path.name (trimSlashes path) ∉ ["", ".", ".."] ∧
      t' = t.insert place .directory := by
  obtain ⟨place, hspot, h⟩ := Outcome.bind_eq_ok.1 h
  obtain ⟨-, -, -, -, parent, hparent, rfl⟩ := spot_eq_ok.1 hspot
  dsimp only at h
  split at h
  · cases h
  · rename_i hfree
    rw [List.getLast?_concat, Option.getD_some, Bool.or_eq_true, not_or] at hfree
    refine ⟨_, hspot, by simp, Option.not_isSome_iff_eq_none.1 hfree.2, ?_, ?_,
      (Outcome.pure_eq_ok.1 h).symm⟩
    · rw [List.dropLast_concat]
      exact (entry_of_locate hparent).symm
    · simpa using hfree.1

theorem grows_of_makeDirectory (h : t.makeDirectory directory path = .ok t') : t.Grows t' := by
  obtain ⟨place, -, hne, hnone, habove, -, rfl⟩ := makeDirectory_eq_ok h
  have hext : t.Extends (t.insert place .directory) := extends_insert hne nofun (.inl hnone)
  refine ⟨fun other e hother => ?_, fun other hother => ?_, fun hs => hs.insert hne habove hext⟩
  · rw [entry?_insert hne, if_neg, hother]
    rintro rfl
    rw [hnone] at hother
    cases hother
  · rw [entry?_insert hne]
    split
    · exact .inr rfl
    · exact .inl hother

theorem tryMakeDirectory_grows (t : FileTree) (directory path : String) :
    t.Grows (t.tryMakeDirectory directory path).1 := by
  unfold tryMakeDirectory
  split
  · rename_i hmade
    exact grows_of_makeDirectory hmade
  · exact .refl t

theorem makeDirectoriesWithin_grows (directory : String) (fuel : Nat) (t : FileTree) (path : String) :
    t.Grows (makeDirectoriesWithin directory fuel t path).1 := by
  induction fuel generalizing path with
  | zero => exact t.tryMakeDirectory_grows directory path
  | succ fuel ih =>
    rw [makeDirectoriesWithin]
    dsimp only
    generalize (if (Path.split path).2.isEmpty then Path.split (Path.split path).1
      else ((Path.split path).1, (Path.split path).2)) = parts
    split
    · exact t.tryMakeDirectory_grows directory path
    · have habove := ih parts.1
      split
      · exact habove
      · split
        · exact habove
        · exact habove.trans (tryMakeDirectory_grows _ directory path)

theorem makeDirectories_grows (t : FileTree) (directory path : String) :
    t.Grows (t.makeDirectories directory path).1 :=
  makeDirectoriesWithin_grows directory path.length t path

end Montage.FileTree
