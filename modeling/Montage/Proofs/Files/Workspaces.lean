import Montage.Engine.Basic
import Montage.Proofs.Files.Changes
import Montage.Proofs.Files.Following

/-!
# Workspaces

A workspace is a directory that was made in a place where nothing was. Files that are written into it by
their names are in it, and nowhere else is anything changed (`IsWorkspace`), so that the tree is as
before when the workspace is removed.
-/

namespace Montage

open Montage.Path

/-! ### Names behind a directory -/

namespace FileTree

variable {t : FileTree} {place names rest : List String} {n : String} {budget : Nat}
  {q : List String}

theorem walk_plain {onLink : List String → List String → Except IoCause Found}
    (honLink : ∀ place names, onLink place names = .ok ⟨q, some .directory⟩ ↔
      onLink place (names.filter isPlain) = .ok ⟨q, some .directory⟩) :
    t.walk onLink place names = .ok ⟨q, some .directory⟩ ↔
      t.walk onLink place (names.filter isPlain) = .ok ⟨q, some .directory⟩ := by
  induction names generalizing place with
  | nil => rfl
  | cons n rest ih =>
    cases hplain : isPlain n with
    | false => rw [List.filter_cons_of_neg (by simp [hplain]), walk_blank hplain, ih]
    | true =>
      -- A link is followed along with the names behind it, where these may be left out as well.
      have hlink (target : String) : onLink (if isAbsolute target then [] else place)
          (Path.names target ++ rest) = .ok ⟨q, some .directory⟩ ↔
            onLink (if isAbsolute target then [] else place)
              (Path.names target ++ rest.filter isPlain) = .ok ⟨q, some .directory⟩ := by
        rw [honLink, honLink _ (Path.names target ++ rest.filter isPlain), List.filter_append,
          List.filter_append, List.filter_filter]
        simp
      rw [List.filter_cons_of_pos hplain, walk_eq_ok, walk_eq_ok]
      constructor
      · intro h
        cases h with
        | blank hn => exact absurd hplain (Bool.eq_false_iff.1 hn)
        | above hn hrest => exact .above hn (ih.1 hrest)
        | last _ _ hentry hfound => exact (hentry.ne_directory (congrArg Found.entry hfound).symm).elim
        | inside hn hentry hrest => exact .inside hn hentry (ih.1 hrest)
        | link hn hentry hrest => exact .link hn hentry ((hlink _).1 hrest)
      · intro h
        cases h with
        | blank hn => exact absurd hplain (Bool.eq_false_iff.1 hn)
        | above hn hrest => exact .above hn (ih.2 hrest)
        | last _ _ hentry hfound => exact (hentry.ne_directory (congrArg Found.entry hfound).symm).elim
        | inside hn hentry hrest => exact .inside hn hentry (ih.2 hrest)
        | link hn hentry hrest => exact .link hn hentry ((hlink _).2 hrest)

/-- Names that mean nothing may be left out on the way to a directory. -/
theorem follow_plain : t.follow budget place names = .ok ⟨q, some .directory⟩ ↔
    t.follow budget place (names.filter isPlain) = .ok ⟨q, some .directory⟩ := by
  induction budget generalizing place names with
  | zero => exact walk_plain fun place names => Iff.rfl
  | succ budget ih => exact walk_plain fun place names => ih

theorem walk_append {onLink : List String → List String → Except IoCause Found}
    (hwalk : t.follow budget = t.walk onLink)
    (honLink : ∀ place names, onLink place names = .ok ⟨q, some .directory⟩ →
      ∃ budget', ∀ rest, onLink place (names ++ rest) = t.follow budget' q rest)
    (h : t.walk onLink place names = .ok ⟨q, some .directory⟩) :
    ∃ budget', ∀ rest, t.walk onLink place (names ++ rest) = t.follow budget' q rest := by
  induction names generalizing place with
  | nil =>
    obtain rfl : place = q := congrArg Found.place (Except.ok.inj h)
    exact ⟨budget, fun rest => by rw [hwalk, List.nil_append]⟩
  | cons n rest ih =>
    simp only [List.cons_append]
    cases walk_eq_ok.1 h with
    | blank hn hrest => simpa only [walk_blank hn] using ih hrest
    | above hn hrest =>
      subst hn
      simpa only [walk_above] using ih hrest
    | last _ _ hentry hfound => exact (hentry.ne_directory (congrArg Found.entry hfound).symm).elim
    | inside hn hentry hrest => simpa only [walk_inside hn hentry] using ih hrest
    | link hn hentry hrest =>
      obtain ⟨budget', hmore⟩ := honLink _ _ hrest
      exact ⟨budget', fun more => by rw [walk_link hn hentry, ← hmore more, List.append_assoc]⟩

/-- What stands behind names that lead to a directory is followed from there on. -/
theorem exists_follow_append (h : t.follow budget place names = .ok ⟨q, some .directory⟩) :
    ∃ budget', ∀ rest, t.follow budget place (names ++ rest) = t.follow budget' q rest := by
  induction budget generalizing place names with
  | zero =>
    have hwalk : t.follow 0 = t.walk fun _ _ => .error .tooManyLinks := rfl
    exact walk_append hwalk (fun _ _ hlink => by cases hlink) h
  | succ budget ih =>
    have hwalk : t.follow (budget + 1) = t.walk (t.follow budget) := rfl
    exact walk_append hwalk (fun _ _ => ih) h

theorem follow_below (hn : IsName n) (hshort : n.utf8ByteSize ≤ maxNameSize)
    (hentry : t.entry? (place ++ [n]) = some .directory) (budget : Nat) (rest : List String) :
    t.follow budget place (n :: rest) = t.follow budget (place ++ [n]) rest := by
  obtain ⟨onLink, hwalk, -⟩ := t.exists_follow_eq budget
  rw [hwalk, walk_inside ⟨hn.isPlain, hn.ne_above, hshort⟩ hentry]

theorem follow_last {found : Found} (hn : IsName n)
    (hlink : ∀ target, t.entry? (place ++ [n]) ≠ some (.link target))
    (h : t.follow budget place [n] = .ok found) :
    found = ⟨place ++ [n], t.entry? (place ++ [n])⟩ := by
  obtain ⟨onLink, hwalk, -⟩ := t.exists_follow_eq budget
  rw [hwalk] at h
  cases walk_eq_ok.1 h with
  | blank hblank => exact absurd hn.isPlain (Bool.eq_false_iff.1 hblank)
  | above habove => exact absurd habove hn.ne_above
  | last _ _ _ hfound => exact hfound
  | inside _ _ hrest => exact (Except.ok.inj hrest).symm
  | link _ hentry => exact absurd hentry (hlink _)

end FileTree

/-! ### The path of a workspace -/

namespace Path

variable {directory path above n : String}

theorem isAbsolute_name (hn : IsName n) : isAbsolute n = false := by
  apply Bool.eq_false_iff.2
  intro habsolute
  obtain ⟨rest, rfl⟩ := isAbsolute_iff.1 habsolute
  exact hn.slashless (by simp)

theorem names_name (hn : IsName n) : names n = [n] := by
  have hnames := @names_intercalate [n] (by simpa using hn.slashless) (by simp)
  rwa [String.intercalate_singleton] at hnames

/-- A name is put behind the path of its directory, with a slash before it unless that path is empty. -/
theorem join_name_cases (directory : String) (hn : IsName n) :
    directory = "" ∧ join directory n = n ∨ ∃ above, join directory n = above ++ "/" ++ n := by
  rw [join, if_neg (by simp [isAbsolute_name hn])]
  by_cases hempty : directory = ""
  · rw [hempty]
    exact .inl ⟨rfl, String.empty_append⟩
  · right
    split
    · rename_i hbare
      have hslash : Text.endsWith "/" directory = true := by simpa [hempty] using hbare
      obtain ⟨above, habove⟩ := List.isSuffixOf_iff_suffix.1 hslash
      refine ⟨.ofList above, ?_⟩
      rw [show directory = .ofList above ++ "/" from String.toList_inj.1 (by simp [← habove])]
    · exact ⟨directory, rfl⟩

theorem isAbsolute_slash (above n : String) :
    isAbsolute (above ++ "/" ++ n) = isAbsolute (above ++ "/") := by
  have hslash : "/".toList = ['/'] := rfl
  rw [isAbsolute, isAbsolute, Text.startsWith, Text.startsWith, hslash]
  simp only [String.toList_append, hslash]
  cases above.toList <;> rfl

theorem plainNames_slash_right (path : String) : plainNames (path ++ "/") = plainNames path := by
  have hempty : plainNames "" = [] := by decide
  have hslash := plainNames_slash path ""
  rwa [String.append_empty, hempty, List.append_nil] at hslash

/-- What is left of the front of a path without the slashes at its end. -/
theorem dropSlashes_append (cs : List Char) :
    Text.dropWhileRight (· = '/') (cs ++ ['/']) = Text.dropWhileRight (· = '/') cs := by
  simp [Text.dropWhileRight]

theorem dropSlashes_concat {c : Char} (hc : c ≠ '/') (cs : List Char) :
    Text.dropWhileRight (· = '/') (cs ++ [c]) = cs ++ [c] := by
  simp [Text.dropWhileRight, hc]

theorem plainNames_dropSlashes (cs : List Char) :
    plainNames (.ofList (Text.dropWhileRight (· = '/') cs)) = plainNames (.ofList cs) := by
  induction cs using List.reverseRecOn with
  | nil => rfl
  | append_singleton cs c ih =>
    by_cases hc : c = '/'
    · rw [hc, dropSlashes_append, ih, String.ofList_append]
      exact (plainNames_slash_right _).symm
    · rw [dropSlashes_concat hc]

theorem dropSlashes_isPrefix (cs : List Char) : Text.dropWhileRight (· = '/') cs <+: cs := by
  have hsuffix := List.dropWhile_suffix (fun c => decide (c = '/')) (l := cs.reverse)
  rw [← List.reverse_prefix, List.reverse_reverse] at hsuffix
  exact hsuffix

/-- The path of a directory as it is split off from a name in it. -/
def aboveOf (above : String) : String :=
  if (Text.dropWhileRight (· = '/') above.toList).isEmpty then above ++ "/"
  else .ofList (Text.dropWhileRight (· = '/') above.toList)

theorem takeWhile_reverse_append {cs : List Char} (hcs : '/' ∉ cs) (front : List Char) :
    (front ++ cs).reverse.takeWhile (· ≠ '/') =
      cs.reverse ++ front.reverse.takeWhile (· ≠ '/') := by
  rw [List.reverse_append]
  refine List.takeWhile_append_of_pos fun c hc => decide_eq_true ?_
  rintro rfl
  exact hcs (List.mem_reverse.1 hc)

theorem split_slash (above : String) (hn : IsName n) :
    split (above ++ "/" ++ n) = (aboveOf above, n) := by
  have hslash : "/".toList = ['/'] := rfl
  have hlist : (above ++ "/" ++ n).toList = (above.toList ++ ['/']) ++ n.toList := by
    rw [String.toList_append, String.toList_append, hslash]
  have hname : ((above ++ "/" ++ n).toList.reverse.takeWhile (· ≠ '/')).reverse = n.toList := by
    rw [hlist, takeWhile_reverse_append hn.slashless]
    simp
  rw [split, hname, hlist, List.length_append, Nat.add_sub_cancel, List.take_left,
    dropSlashes_append, String.ofList_toList, aboveOf]
  split
  · rw [String.ofList_append, String.ofList_toList]
  · rfl

theorem split_name (hn : IsName n) : split n = ("", n) := by
  have hname : (n.toList.reverse.takeWhile (· ≠ '/')).reverse = n.toList := by
    rw [← List.nil_append n.toList, takeWhile_reverse_append hn.slashless]
    simp
  rw [split, hname, Nat.sub_self, String.ofList_toList]
  rfl

theorem plainNames_aboveOf (above : String) : plainNames (aboveOf above) = plainNames above := by
  unfold aboveOf
  split
  · exact plainNames_slash_right above
  · rw [plainNames_dropSlashes, String.ofList_toList]

theorem aboveOf_ne_empty (above : String) : aboveOf above ≠ "" := by
  unfold aboveOf
  split
  · simp [String.append_eq_empty_iff]
  · rename_i hsome
    intro hempty
    have hlist := congrArg String.toList hempty
    rw [String.toList_ofList] at hlist
    exact hsome (List.isEmpty_iff.2 hlist)

theorem exists_last (hn : IsName n) : ∃ cs c, n.toList = cs ++ [c] ∧ c ≠ '/' := by
  obtain hnil | ⟨cs, c, hcs⟩ := List.eq_nil_or_concat n.toList
  · exact absurd (String.toList_inj.1 hnil) hn.ne_empty
  · rw [List.concat_eq_append] at hcs
    refine ⟨cs, c, hcs, ?_⟩
    rintro rfl
    exact hn.slashless (by simp [hcs])

theorem exists_join_name (d : String) (hn : IsName n) : ∃ front, join d n = front ++ n := by
  rcases join_name_cases d hn with ⟨-, hpath⟩ | ⟨above, hpath⟩
  · exact ⟨"", by rw [hpath, String.empty_append]⟩
  · exact ⟨above ++ "/", hpath⟩

theorem endsWith_join_name (d : String) (hn : IsName n) : Text.endsWith "/" (join d n) = false := by
  have hslash : "/".toList = ['/'] := rfl
  obtain ⟨front, hfront⟩ := exists_join_name d hn
  obtain ⟨cs, c, hcs, hc⟩ := exists_last hn
  rw [hfront, Text.endsWith, String.toList_append, hcs, hslash, ← List.append_assoc]
  refine Bool.eq_false_iff.2 fun hsuffix => hc ?_
  obtain ⟨above, habove⟩ := List.isSuffixOf_iff_suffix.1 hsuffix
  exact (List.append_singleton_inj.1 habove).2.symm

theorem join_file (d : String) (hn : IsName n) {file : String} (hfile : IsName file) :
    join (join d n) file = join d n ++ "/" ++ file := by
  have hne : join d n ≠ "" := FileTree.join_ne_empty hn.ne_empty d
  rw [join, if_neg (by simp [isAbsolute_name hfile]), if_neg]
  simp [hne, endsWith_join_name d hn]

theorem join_join (directory d : String) (hn : IsName n) {file : String} (hfile : IsName file) :
    join directory (join (join d n) file) = join directory (join d n) ++ "/" ++ file := by
  have hne : join d n ≠ "" := FileTree.join_ne_empty hn.ne_empty d
  have habsolute : isAbsolute (join d n ++ "/" ++ file) = isAbsolute (join d n) := by
    have hslash : "/".toList = ['/'] := rfl
    rw [isAbsolute_slash, isAbsolute, isAbsolute, Text.startsWith, Text.startsWith, hslash,
      String.toList_append]
    cases hlist : (join d n).toList with
    | nil => exact absurd (String.toList_inj.1 hlist) hne
    | cons c rest => rfl
  rw [join_file d hn hfile]
  generalize join d n = workspace at habsolute
  rw [join, join, habsolute]
  split
  · rfl
  · split
    · simp only [String.append_assoc]
    · simp only [String.append_assoc]

theorem names_join_join (directory d : String) (hn : IsName n) {file : String} (hfile : IsName file) :
    names (join directory (join (join d n) file)) = names (join directory (join d n)) ++ [file] := by
  rw [join_join directory d hn hfile, names_slash, names_name hfile]

theorem isAbsolute_aboveOf (above : String) : isAbsolute (aboveOf above) = isAbsolute (above ++ "/") := by
  have hslash : "/".toList = ['/'] := rfl
  unfold aboveOf
  split
  · rfl
  · rename_i hsome
    -- What is left has the same first character.
    obtain ⟨dropped, hdropped⟩ := dropSlashes_isPrefix above.toList
    rw [isAbsolute, isAbsolute, Text.startsWith, Text.startsWith, hslash, String.toList_ofList,
      String.toList_append]
    cases hleft : Text.dropWhileRight (· = '/') above.toList with
    | nil => exact absurd (List.isEmpty_iff.2 hleft) hsome
    | cons c rest =>
      rw [← hdropped, hleft]
      rfl

end Path

namespace FileTree

variable {t t' : FileTree} {place other : List String} {directory d n path : String} {found : Found}

theorem trimSlashes_append (front : String) (hn : IsName n) : trimSlashes (front ++ n) = front ++ n := by
  obtain ⟨cs, c, hcs, hc⟩ := exists_last hn
  have hlist : (front ++ n).toList = (front.toList ++ cs) ++ [c] := by
    rw [String.toList_append, hcs, List.append_assoc]
  rw [trimSlashes, hlist, dropSlashes_concat hc, ← hlist]
  simp

/-- The path of a name in a directory is that of the directory with the name behind it. -/
theorem exists_names_headOf (directory d : String) (hn : IsName n) :
    name (trimSlashes (join d n)) = n ∧
    ∃ above, names (join directory (join d n)) = above ++ [n] ∧
      above.filter isPlain = plainNames (join directory (headOf (join d n))) := by
  rcases join_name_cases d hn with ⟨-, hpath⟩ | ⟨above, hpath⟩
  · have htrim : trimSlashes n = n := by
      have hfront := trimSlashes_append "" hn
      rwa [String.empty_append] at hfront
    have hhead : headOf n = "." := by
      rw [headOf, htrim, parent, split_name hn]
      rfl
    rw [hpath, name, hhead, htrim, split_name hn]
    obtain ⟨front, hnames, hfront⟩ := exists_names_join directory (isAbsolute_name hn)
    refine ⟨rfl, front, by rw [hnames, names_name hn], ?_⟩
    have hdot : plainNames "." = [] := by decide
    rw [plainNames_join (by decide), hdot, List.append_nil, plainNames_of_front hfront]
  · have htrim : trimSlashes (above ++ "/" ++ n) = above ++ "/" ++ n := trimSlashes_append _ hn
    have hhead : headOf (above ++ "/" ++ n) = aboveOf above := by
      rw [headOf, htrim, parent, split_slash above hn]
      exact if_neg (by simpa using aboveOf_ne_empty above)
    rw [hpath, name, hhead, htrim, split_slash above hn]
    refine ⟨rfl, ?_⟩
    cases habsolute : isAbsolute (above ++ "/") with
    | true =>
      have hjoin (path : String) (hpath : isAbsolute path = true) : join directory path = path := by
        rw [join, if_pos hpath]
      rw [hjoin _ ((isAbsolute_slash above n).trans habsolute),
        hjoin _ ((isAbsolute_aboveOf above).trans habsolute), names_slash, names_name hn]
      exact ⟨_, rfl, (plainNames_aboveOf above).symm⟩
    | false =>
      obtain ⟨front, hnames, hfront⟩ :=
        exists_names_join directory ((isAbsolute_slash above n).trans habsolute)
      rw [hnames, names_slash, names_name hn, ← List.append_assoc,
        plainNames_join ((isAbsolute_aboveOf above).trans habsolute), plainNames_aboveOf]
      exact ⟨_, rfl, by rw [List.filter_append, plainNames_of_front hfront, plainNames]⟩

/-- What stands behind the path of a directory is followed from the place of that directory. -/
theorem exists_follow_spot (hn : IsName n) (hspot : t.spot directory (join d n) = .ok place)
    (hentry : t.entry? place = some .directory) :
    ∃ budget, ∀ rest, t.follow maxLinks [] (names (join directory (join d n)) ++ rest) =
      t.follow budget place rest := by
  obtain ⟨hname, above, hnames, habove⟩ := exists_names_headOf directory d hn
  obtain ⟨-, -, -, hshort, parent, hparent, rfl⟩ := spot_eq_ok.1 hspot
  rw [hname] at hshort hentry ⊢
  have hfollow : t.follow maxLinks [] above = .ok ⟨parent, some .directory⟩ := by
    rw [follow_plain, habove, plainNames, ← follow_plain]
    exact (locate_eq_ok.1 hparent).2.2.2
  obtain ⟨budget, hrest⟩ := exists_follow_append hfollow
  refine ⟨budget, fun rest => ?_⟩
  rw [hnames, List.append_assoc, hrest]
  exact follow_below hn hshort hentry budget rest

/-- The file of a name in a directory is at that name below the place of the directory. -/
theorem locate_join {file : String} (hn : IsName n) (hfile : IsName file)
    (hspot : t.spot directory (join d n) = .ok place) (hentry : t.entry? place = some .directory)
    (hlink : ∀ target, t.entry? (place ++ [file]) ≠ some (.link target))
    (h : t.locate directory (join (join d n) file) = .ok found) :
    found = ⟨place ++ [file], t.entry? (place ++ [file])⟩ := by
  obtain ⟨budget, hrest⟩ := exists_follow_spot hn hspot hentry
  have hfollow := (locate_eq_ok.1 h).2.2.2
  rw [names_join_join directory d hn hfile, hrest] at hfollow
  exact follow_last hfile hlink hfollow

/-- In a tree without gaps, a path that ends in a name is that of a place. -/
structure IsSpot (t : FileTree) (directory path : String) (place : List String) : Prop where
  isSound : t.IsSound
  isNamed : ∃ d n, IsName n ∧ path = join d n
  spot_eq : t.spot directory path = .ok place

/-! ### What a workspace holds -/

/-- A tree that is another one with a new directory in it, which holds only files by these names. -/
structure IsWorkspace (base : FileTree) (place : List String) (files : List String) (t : FileTree) :
    Prop where
  free : base.entry? place = none
  outside : ∀ other, ¬ place <+: other → t.entry? other = base.entry? other
  directory : t.entry? place = some .directory
  inside : ∀ below, below ≠ [] → t.entry? (place ++ below) = none ∨
    ∃ file ∈ files, below = [file] ∧ ∃ data, t.entry? (place ++ [file]) = some (.file data)
  isSound : t.IsSound

variable {base : FileTree} {files : List String}

/-- Nothing is below a place where nothing is. -/
theorem IsSound.entry?_below (h : t.IsSound) (hplace : t.entry? place = none) (below : List String) :
    t.entry? (place ++ below) = none := by
  induction below using List.reverseRecOn with
  | nil => rwa [List.append_nil]
  | append_singleton below n ih =>
    by_contra hsome
    rw [← List.append_assoc] at hsome
    rw [h _ n hsome] at ih
    cases ih

theorem isWorkspace_of_makeDirectory (hs : base.IsSound) (hn : IsName n)
    (h : base.makeDirectory directory (join d n) = .ok t) :
    ∃ place, base.IsSpot directory (join d n) place ∧ IsWorkspace base place [] t := by
  have hgrows := grows_of_makeDirectory h
  obtain ⟨place, hspot, hne, hnone, habove, -, rfl⟩ := makeDirectory_eq_ok h
  refine ⟨place, ⟨hs, ⟨d, n, hn, rfl⟩, hspot⟩, hnone, fun other hother => ?_, ?_, fun below hbelow => ?_,
    hgrows.isSound hs⟩
  · rw [entry?_insert hne, if_neg]
    rintro rfl
    exact hother List.prefix_rfl
  · rw [entry?_insert hne, if_pos rfl]
  · rw [entry?_insert hne, if_neg (by simpa using hbelow)]
    exact .inl (hs.entry?_below hnone below)

namespace IsWorkspace

theorem entry?_base (h : IsWorkspace base place files t) (hs : base.IsSound)
    (hother : base.entry? other ≠ none) : t.entry? other = base.entry? other := by
  refine h.outside other ?_
  rintro ⟨below, rfl⟩
  exact hother (hs.entry?_below h.free below)

theorem isExtension (h : IsWorkspace base place files t) (hs : base.IsSound) : base.Extends t where
  directory other hother := by rw [h.entry?_base hs (by simp [hother]), hother]
  link other target hother := by rw [h.entry?_base hs (by simp [hother]), hother]
  file other data hother := ⟨data, by rw [h.entry?_base hs (by simp [hother]), hother]⟩
  noLink other target hother := by
    by_cases hbelow : place <+: other
    · obtain ⟨below, rfl⟩ := hbelow
      by_cases hbelow : below = []
      · rw [hbelow, List.append_nil, h.directory] at hother
        cases hother
      · obtain hnone | ⟨file, -, rfl, data, hdata⟩ := h.inside below hbelow
        · rw [hnone] at hother
          cases hother
        · rw [hdata] at hother
          cases hother
    · rw [← h.outside other hbelow, hother]

theorem noLink_inside (h : IsWorkspace base place files t) (file target : String) :
    t.entry? (place ++ [file]) ≠ some (.link target) := by
  intro hlink
  obtain hnone | ⟨file', -, hfile, data, hdata⟩ := h.inside [file] (by simp)
  · rw [hnone] at hlink
    cases hlink
  · obtain rfl := List.singleton_inj.1 hfile
    rw [hdata] at hlink
    cases hlink

theorem mono {more : List String} (h : IsWorkspace base place files t) (hfiles : files ⊆ more) :
    IsWorkspace base place more t := by
  refine ⟨h.free, h.outside, h.directory, fun below hbelow => ?_, h.isSound⟩
  exact (h.inside below hbelow).imp_right fun ⟨file, hfile, hrest⟩ => ⟨file, hfiles hfile, hrest⟩

variable (hw : base.IsSpot directory path place)

include hw

theorem locate_file {file : String} (h : IsWorkspace base place files t) (hfile : IsName file)
    (hlocate : t.locate directory (join path file) = .ok found) :
    found = ⟨place ++ [file], t.entry? (place ++ [file])⟩ := by
  obtain ⟨d, n, hn, rfl⟩ := hw.isNamed
  exact locate_join hn hfile ((h.isExtension hw.isSound).spot hw.spot_eq) h.directory
    (h.noLink_inside file) hlocate

theorem writeFile {file : String} {data : ByteArray} (h : IsWorkspace base place files t)
    (hfile : IsName file) (hwrite : t.writeFile directory (join path file) data = .ok t') :
    IsWorkspace base place (file :: files) t' := by
  obtain ⟨spot, hlocate, hwrites⟩ := writeFile_eq_ok h.isSound hwrite
  have hplace := h.locate_file hw hfile hlocate
  obtain rfl : spot = place ++ [file] := congrArg Found.place hplace
  have hentry (other : List String) : t'.entry? other =
      if other = place ++ [file] then some (.file data) else t.entry? other := by
    rw [hwrites.eq, entry?_insert hwrites.ne_root]
  refine ⟨h.free, fun other hother => ?_, ?_, fun below hbelow => ?_, hwrites.isSound h.isSound⟩
  · rw [hentry, if_neg, h.outside other hother]
    rintro rfl
    exact hother (List.prefix_append _ _)
  · rw [hentry, if_neg (by simp), h.directory]
  · by_cases hhere : below = [file]
    · exact .inr ⟨file, .head _, hhere, data, by rw [hentry, if_pos rfl]⟩
    · rw [hentry, if_neg (by simpa using hhere)]
      refine (h.inside below hbelow).imp_right fun ⟨other, hother, hbelow, old, hold⟩ => ?_
      refine ⟨other, .tail _ hother, hbelow, old, ?_⟩
      rw [hentry, if_neg (by simpa [hbelow] using hhere), hold]

/-- When a workspace is removed, nothing is left of it. -/
theorem removeTree (h : IsWorkspace base place files t) (other : List String) :
    FileTree.entry? (t.removeTree directory path) other = base.entry? other := by
  obtain ⟨d, n, hn, rfl⟩ := hw.isNamed
  have hname : name (trimSlashes (join d n)) = n := (exists_names_headOf directory d hn).1
  have hne : place ≠ [] := by
    rintro rfl
    exact absurd h.free (by simp [FileTree.entry?])
  rw [FileTree.removeTree, if_neg (by simp [hname, hn.ne_here, hn.ne_above]),
    (h.isExtension hw.isSound).spot hw.spot_eq]
  dsimp only
  rw [h.directory]
  dsimp only
  rw [entry?_erase hne]
  split
  · rename_i hbelow
    obtain ⟨below, rfl⟩ := hbelow
    exact (hw.isSound.entry?_below h.free below).symm
  · rename_i hbelow
    exact h.outside other hbelow

end IsWorkspace

end FileTree

end Montage
