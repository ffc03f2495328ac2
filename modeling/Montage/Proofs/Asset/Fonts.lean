import Mathlib.Data.List.Basic
import Montage.Asset.Font
import Montage.Proofs.Text.Case

/-!
# Fonts are found in a fixed order

The font that is found is the first one of its name in the given directories, else the first of the usual
files of the system, else the first below the directories of the system (`Font.find_isSettled`). Below a
directory the first one is the least in the order of a walk: files before directories, both by name, down to
three directories inside one another. The order in which directories are listed makes no difference.
-/

namespace Montage

namespace FileTree

variable {t t' : FileTree}

/-! ### Trees that list their entries in another order -/

theorem lookup_eq_some_iff {entries : List (List String × FileEntry)} (hnodup : (entries.map Prod.fst).Nodup)
    {place : List String} {e : FileEntry} : entries.lookup place = some e ↔ (place, e) ∈ entries := by
  induction entries with
  | nil => simp
  | cons entry entries ih =>
    obtain ⟨p, old⟩ := entry
    rw [List.map_cons, List.nodup_cons] at hnodup
    rw [List.lookup_cons, List.mem_cons, Prod.mk.injEq]
    by_cases hplace : place = p
    · subst hplace
      have hnot : (place, e) ∉ entries := fun h => hnodup.1 (List.mem_map.2 ⟨_, h, rfl⟩)
      simp [hnot, eq_comm]
    · have hbeq : (place == p) = false := beq_eq_false_iff_ne.2 hplace
      rw [hbeq]
      simp [hplace, ih hnodup.2]

/-- The same files, with every place listed once, in another order. -/
structure Reorders (t t' : FileTree) : Prop where
  perm : t.entries.Perm t'.entries
  nodup : (t.entries.map Prod.fst).Nodup

namespace Reorders

theorem entry?_eq (h : t.Reorders t') : t'.entry? = t.entry? := by
  funext place
  have hnodup' : (t'.entries.map Prod.fst).Nodup := (h.perm.map Prod.fst).nodup_iff.1 h.nodup
  have hlookup : t'.entries.lookup place = t.entries.lookup place := by
    refine Option.ext fun e => ?_
    rw [lookup_eq_some_iff hnodup', lookup_eq_some_iff h.nodup, h.perm.mem_iff]
  unfold entry?
  rw [hlookup]

theorem children_perm (h : t.Reorders t') (place : List String) :
    (t.children place).Perm (t'.children place) :=
  h.perm.filterMap _

theorem walk_eq (h : t.Reorders t') (onLink : List String → List String → Except IoCause Found)
    (place names : List String) : t'.walk onLink place names = t.walk onLink place names := by
  induction names generalizing place with
  | nil => rw [walk, walk, h.entry?_eq]
  | cons n rest ih => simp only [walk, h.entry?_eq, ih]

theorem follow_eq (h : t.Reorders t') (links : Nat) : t'.follow links = t.follow links := by
  induction links with
  | zero => exact funext fun place => funext (h.walk_eq _ place)
  | succ links ih =>
    funext place names
    rw [follow, follow, ih, h.walk_eq]

theorem locate_eq (h : t.Reorders t') (directory path : String) :
    t'.locate directory path = t.locate directory path := by
  unfold locate find
  rw [h.follow_eq]

theorem entryAt?_eq (h : t.Reorders t') : t'.entryAt? = t.entryAt? := by
  funext directory path
  unfold entryAt?
  rw [h.locate_eq]

end Reorders

end FileTree

/-- A font library to which it makes no difference in what order directories are listed. -/
def FontLoader.IgnoresOrder (loads : FontLoader) : Prop :=
  ∀ t t' : FileTree, t.Reorders t' → loads t' = loads t

theorem FontLoader.marked_ignoresOrder : FontLoader.marked.IgnoresOrder := by
  intro t t' h
  unfold FontLoader.marked
  rw [h.entryAt?_eq]

namespace Font

/-! ### The first of a list -/

/-- An item of a list has a property, and none before it has. -/
def IsFirst {α : Type} (items : List α) (P : α → Prop) (x : α) : Prop :=
  P x ∧ ∃ before after, items = before ++ x :: after ∧ ∀ y ∈ before, ¬ P y

theorem IsFirst.unique {α : Type} {items : List α} {P : α → Prop} {x y : α} (h : IsFirst items P x)
    (h' : IsFirst items P y) : x = y := by
  obtain ⟨hx, before, after, heq, hbefore⟩ := h
  obtain ⟨hy, before', after', heq', hbefore'⟩ := h'
  induction before generalizing before' items with
  | nil =>
    cases before' with
    | nil => exact (List.cons.inj (heq.symm.trans heq')).1
    | cons z before' =>
      obtain ⟨rfl, -⟩ := List.cons.inj (heq.symm.trans heq')
      exact absurd hx (hbefore' x (.head _))
  | cons z before ih =>
    cases before' with
    | nil =>
      obtain ⟨rfl, -⟩ := List.cons.inj (heq.symm.trans heq')
      exact absurd hy (hbefore z (.head _))
    | cons z' before' =>
      obtain ⟨rfl, htail⟩ := List.cons.inj (heq.symm.trans heq')
      refine ih rfl (fun y hy => hbefore y (.tail _ hy)) before' htail fun y hy => hbefore' y (.tail _ hy)

theorem IsFirst.mem {α : Type} {items : List α} {P : α → Prop} {x : α} (h : IsFirst items P x) :
    x ∈ items := by
  obtain ⟨-, before, after, rfl, -⟩ := h
  simp

theorem IsFirst.exists {α : Type} {items : List α} {P : α → Prop} {x : α} (h : IsFirst items P x) :
    ¬ ∀ y ∈ items, ¬ P y :=
  fun hnone => hnone x h.mem h.1

theorem isFirst_of_filter {α : Type} {items : List α} {p : α → Bool} {P : α → Prop} {x : α}
    (h : IsFirst (items.filter p) P x) : IsFirst items (fun x => p x = true ∧ P x) x := by
  obtain ⟨hx, before, after, heq, hbefore⟩ := h
  obtain ⟨front, back, rfl, hfront, hback⟩ := List.filter_eq_append_iff.1 heq
  obtain ⟨skipped, rest, rfl, hskipped, hp, -⟩ := List.filter_eq_cons_iff.1 hback
  refine ⟨⟨hp, hx⟩, front ++ skipped, rest, by rw [List.append_assoc], ?_⟩
  rw [List.forall_mem_append]
  refine ⟨fun y hy ⟨hpy, hPy⟩ => hbefore y ?_ hPy, fun y hy ⟨hpy, _⟩ => hskipped y hy hpy⟩
  rw [← hfront]
  exact List.mem_filter.2 ⟨hy, hpy⟩

theorem isFirst_of_find? {α : Type} {items : List α} {p : α → Bool} {x : α} (h : items.find? p = some x) :
    IsFirst items (p · = true) x := by
  obtain ⟨hx, before, after, heq, hbefore⟩ := List.find?_eq_some_iff_append.1 h
  exact ⟨hx, before, after, heq, fun y hy => by simpa using hbefore y hy⟩

/-! ### Sorted names -/

theorem not_lt_iff {a b : String} : (!decide (b < a)) = true ↔ a ≤ b := by
  rw [Bool.not_eq_true', decide_eq_false_iff_not, String.not_lt]

theorem pairwise_sortNames (names : List String) : (sortNames names).Pairwise (· ≤ ·) := by
  refine (List.pairwise_mergeSort (fun a b c hab hbc => ?_) (fun a b => ?_) names).imp not_lt_iff.1
  · exact not_lt_iff.2 (String.le_trans (not_lt_iff.1 hab) (not_lt_iff.1 hbc))
  · rw [Bool.or_eq_true, not_lt_iff, not_lt_iff]
    exact String.le_total a b

theorem sortNames_perm (names : List String) : (sortNames names).Perm names := List.mergeSort_perm names _

theorem sortNames_eq {names names' : List String} (h : names.Perm names') :
    sortNames names = sortNames names' :=
  List.Perm.eq_of_pairwise (fun _ _ _ _ => String.le_antisymm) (pairwise_sortNames names)
    (pairwise_sortNames names') ((sortNames_perm names).trans (h.trans (sortNames_perm names').symm))

/-- What is first in a sorted list comes before all others that could be. -/
theorem IsFirst.eq_or_lt {names : List String} {P : String → Prop} {x y : String}
    (h : IsFirst (sortNames names) P x) (hmem : y ∈ names) (hy : P y) : x = y ∨ x < y := by
  obtain ⟨-, before, after, heq, hbefore⟩ := h
  have hsorted := pairwise_sortNames names
  rw [heq] at hsorted
  have hafter := (List.pairwise_cons.1 (List.pairwise_append.1 hsorted).2.1).1
  have hmem' : y ∈ before ++ x :: after := heq ▸ (sortNames_perm names).mem_iff.2 hmem
  rcases (List.mem_append.1 hmem').resolve_left fun hy' => hbefore y hy' hy with _ | ⟨_, hy'⟩
  · exact .inl rfl
  · refine Decidable.or_iff_not_imp_left.2 fun hne => Decidable.not_not.1 fun hlt => hne ?_
    exact String.le_antisymm (hafter y hy') (String.not_lt.1 hlt)

/-! ### Below a directory -/

/-- A name that ends like a font file, in letters of either case. -/
def IsFontName (name : String) : Prop :=
  ∃ front ending, name.toList = front ++ ending ∧
    (ending.map Char.toLower = ".ttf".toList ∨ ending.map Char.toLower = ".otf".toList)

theorem hasFontEnding_iff {name : String} : hasFontEnding name = true ↔ IsFontName name := by
  have hending {word : String} (hword : Text.IsPlainWord word.toList) :
      Text.endsWith word (Text.lower name) = true ↔
        ∃ front ending, name.toList = front ++ ending ∧ ending.map Char.toLower = word.toList := by
    rw [Text.endsWith, Text.lower, String.toList_ofList, List.isSuffixOf_iff_suffix,
      Text.suffix_lower_iff hword]
  unfold hasFontEnding
  dsimp only
  rw [Bool.or_eq_true, hending (by simp [Text.IsPlainWord]), hending (by simp [Text.IsPlainWord])]
  unfold IsFontName
  simp only [and_or_left, exists_or]

variable {loads : FontLoader} {t : FileTree} {directory base path file name : String}
  {names names' : List String} {depth : Nat}

/-- A font that can be loaded lies below a directory, in directories of these names inside one another. Links
are no such directories. -/
inductive IsFontBelow (loads : FontLoader) (t : FileTree) (directory : String) :
    String → List String → String → Prop where
  | file {base file : String} {found : Found} (hfound : t.locate directory base = .ok found)
      (hlisted : file ∈ (t.children found.place).map Prod.fst) (hname : IsFontName file)
      (hload : isLoadable t directory (Path.join base file) loads = true) :
      IsFontBelow loads t directory base [] file
  | inside {base name file : String} {names : List String} {found : Found}
      (hfound : t.locate directory base = .ok found) (hlisted : (name, .directory) ∈ t.children found.place)
      (h : IsFontBelow loads t directory (Path.join base name) names file) :
      IsFontBelow loads t directory base (name :: names) file

/-- The path of a file in directories inside one another. -/
def pathBelow (base : String) (names : List String) (file : String) : String :=
  Path.join (names.foldl Path.join base) file

/-- A walk meets the files of a directory before its directories, and both by name. -/
inductive Precedes : List String → String → List String → String → Prop where
  | file {file file' : String} (h : file < file') : Precedes [] file [] file'
  | above {file file' name' : String} {names' : List String} : Precedes [] file (name' :: names') file'
  | directory {file file' name name' : String} {names names' : List String} (h : name < name') :
      Precedes (name :: names) file (name' :: names') file'
  | inside {file file' name : String} {names names' : List String} (h : Precedes names file names' file') :
      Precedes (name :: names) file (name :: names') file'

theorem Precedes.asymm {file' : String} (h : Precedes names file names' file') :
    ¬ Precedes names' file' names file := by
  induction h with
  | file h =>
    rintro ⟨h'⟩
    exact String.lt_asymm h h'
  | above => exact nofun
  | directory h =>
    intro h'
    cases h' with
    | directory h' => exact String.lt_asymm h h'
    | inside => exact String.lt_irrefl _ h
  | inside _ ih =>
    intro h'
    cases h' with
    | directory h' => exact String.lt_irrefl _ h'
    | inside h' => exact ih h'

/-- The first font that a walk meets below a directory, so many directories deep. -/
structure IsFirstBelow (loads : FontLoader) (t : FileTree) (directory : String) (depth : Nat) (base : String)
    (names : List String) (file : String) : Prop where
  isFont : IsFontBelow loads t directory base names file
  deep : names.length ≤ depth
  first : ∀ names' file', IsFontBelow loads t directory base names' file' → names'.length ≤ depth →
    names = names' ∧ file = file' ∨ Precedes names file names' file'

theorem IsFirstBelow.unique {file' : String} (h : IsFirstBelow loads t directory depth base names file)
    (h' : IsFirstBelow loads t directory depth base names' file') : names = names' ∧ file = file' := by
  rcases h.first _ _ h'.isFont h'.deep with hsame | hbefore
  · exact hsame
  rcases h'.first _ _ h.isFont h.deep with ⟨rfl, rfl⟩ | hafter
  · exact ⟨rfl, rfl⟩
  · exact absurd hafter hbefore.asymm

/-- What a search below a directory gives: the path of the first font, or nothing when there is none. -/
inductive FindsBelow (loads : FontLoader) (t : FileTree) (directory : String) (depth : Nat) (base : String) :
    Option String → Prop where
  | found {names : List String} {file : String} (h : IsFirstBelow loads t directory depth base names file) :
      FindsBelow loads t directory depth base (some (pathBelow base names file))
  | missing (h : ∀ names file, IsFontBelow loads t directory base names file → depth < names.length) :
      FindsBelow loads t directory depth base none

/-- The font files that a directory lists, by name. -/
def filesIn (t : FileTree) (directory base : String) (place : List String) : List String :=
  sortNames (((t.children place).map (·.1)).filter fun name =>
    hasFontEnding name && !t.isDirectory directory (Path.join base name))

/-- The first font in a directory itself. -/
def fontIn (loads : FontLoader) (t : FileTree) (directory base : String) (place : List String) :
    Option String :=
  ((filesIn t directory base place).find? fun file =>
    isLoadable t directory (Path.join base file) loads).map (Path.join base)

/-- The directories that a directory lists, by name. -/
def directoriesIn (t : FileTree) (place : List String) : List String :=
  sortNames ((t.children place).filterMap fun (name, e) =>
    match e with
    | .directory => some name
    | _ => none)

variable {found : Found}

theorem findBelow_of_error {e : Fault} (h : t.locate directory base = .error e) :
    findBelow loads t directory depth base = none := by
  unfold findBelow
  dsimp only
  rw [h]

theorem findsBelow_of_error {e : Fault} (h : t.locate directory base = .error e) :
    FindsBelow loads t directory depth base (findBelow loads t directory depth base) := by
  rw [findBelow_of_error h]
  refine .missing fun names file hfont => ?_
  cases hfont with
  | file hfound => cases h.symm.trans hfound
  | inside hfound => cases h.symm.trans hfound

theorem fontIn_eq (loads : FontLoader) (t : FileTree) (directory base : String) (place : List String) :
    ((filesIn t directory base place).map (Path.join base)).find? (isLoadable t directory · loads) =
      fontIn loads t directory base place :=
  List.find?_map ..

theorem findBelow_zero (h : t.locate directory base = .ok found) :
    findBelow loads t directory 0 base = fontIn loads t directory base found.place := by
  rw [← fontIn_eq]
  unfold findBelow
  rw [h]
  rfl

theorem findBelow_succ (h : t.locate directory base = .ok found) :
    findBelow loads t directory (depth + 1) base = (fontIn loads t directory base found.place).or
      ((directoriesIn t found.place).findSome? fun name =>
        findBelow loads t directory depth (Path.join base name)) := by
  rw [← fontIn_eq]
  conv_lhs => unfold findBelow
  rw [h]
  rfl

theorem not_isDirectory_of_isLoadable (h : isLoadable t directory path loads = true) :
    t.isDirectory directory path = false := by
  have hfile := (Bool.and_eq_true_iff.1 h).1
  unfold FileTree.isFile at hfile
  unfold FileTree.isDirectory
  split at hfile
  · rename_i hentry
    rw [hentry]
  · cases hfile

theorem mem_filesIn (hload : isLoadable t directory (Path.join base file) loads = true) :
    file ∈ filesIn t directory base found.place ↔
      file ∈ (t.children found.place).map Prod.fst ∧ IsFontName file := by
  rw [filesIn, (sortNames_perm _).mem_iff, List.mem_filter, not_isDirectory_of_isLoadable hload,
    Bool.not_false, Bool.and_true, hasFontEnding_iff]

theorem mem_directoriesIn {place : List String} :
    name ∈ directoriesIn t place ↔ (name, .directory) ∈ t.children place := by
  rw [directoriesIn, (sortNames_perm _).mem_iff, List.mem_filterMap]
  constructor
  · rintro ⟨⟨name', _ | _ | _⟩, hmem, hname⟩
    · cases hname
    · obtain rfl := Option.some.inj hname
      exact hmem
    · cases hname
  · exact fun h => ⟨_, h, rfl⟩

theorem isFirst_of_findSome? {α β : Type} {items : List α} {g : α → Option β} {b : β}
    (h : items.findSome? g = some b) :
    ∃ x, IsFirst items (fun x => (g x).isSome = true) x ∧ g x = some b := by
  obtain ⟨before, x, after, heq, hx, hbefore⟩ := List.findSome?_eq_some_iff.1 h
  refine ⟨x, ⟨Option.isSome_iff_exists.2 ⟨b, hx⟩, before, after, heq, fun y hy hsome => ?_⟩, hx⟩
  obtain ⟨b', hb'⟩ := Option.isSome_iff_exists.1 hsome
  cases (hbefore y hy).symm.trans hb'

theorem FindsBelow.isSome {result : Option String} (h : FindsBelow loads t directory depth base result)
    (hfont : IsFontBelow loads t directory base names file) (hdeep : names.length ≤ depth) :
    result.isSome = true := by
  cases h with
  | found => rfl
  | missing hnone => exact absurd (hnone _ _ hfont) (Nat.not_lt.2 hdeep)

section Level

variable (hfound : t.locate directory base = .ok found)

include hfound

/-- Fonts below a directory are in it or in one of its directories. -/
theorem IsFontBelow.cases_names (h : IsFontBelow loads t directory base names file) :
    (names = [] ∧ file ∈ filesIn t directory base found.place ∧
      isLoadable t directory (Path.join base file) loads = true) ∨
    ∃ name rest, names = name :: rest ∧ name ∈ directoriesIn t found.place ∧
      IsFontBelow loads t directory (Path.join base name) rest file := by
  cases h with
  | file hfound' hlisted hname hload =>
    obtain rfl := Except.ok.inj (hfound.symm.trans hfound')
    exact .inl ⟨rfl, (mem_filesIn hload).2 ⟨hlisted, hname⟩, hload⟩
  | inside hfound' hlisted h =>
    obtain rfl := Except.ok.inj (hfound.symm.trans hfound')
    exact .inr ⟨_, _, rfl, mem_directoriesIn.2 hlisted, h⟩

/-- A font in the directory itself comes first. -/
theorem isFirstBelow_of_file (h : IsFirst (filesIn t directory base found.place)
    (fun file => isLoadable t directory (Path.join base file) loads = true) file) :
    IsFirstBelow loads t directory depth base [] file where
  isFont := by
    obtain ⟨hlisted, hname⟩ := (mem_filesIn h.1).1 h.mem
    exact .file hfound hlisted hname h.1
  deep := Nat.zero_le depth
  first names' file' h' _ := by
    rcases h'.cases_names hfound with ⟨rfl, hmem, hload⟩ | ⟨name, rest, rfl, -, -⟩
    · rw [filesIn, (sortNames_perm _).mem_iff] at hmem
      exact (h.eq_or_lt hmem hload).imp (⟨rfl, ·⟩) .file
    · exact .inr .above

/-- Without one, the first font of the first directory that has any comes first. -/
theorem isFirstBelow_of_directory {g : String → Option String}
    (hg : ∀ name, FindsBelow loads t directory depth (Path.join base name) (g name))
    (hfiles : ∀ file ∈ filesIn t directory base found.place,
      isLoadable t directory (Path.join base file) loads = false)
    (h : IsFirst (directoriesIn t found.place) (fun name => (g name).isSome = true) name)
    (hbelow : IsFirstBelow loads t directory depth (Path.join base name) names file) :
    IsFirstBelow loads t directory (depth + 1) base (name :: names) file where
  isFont := .inside hfound (mem_directoriesIn.1 h.mem) hbelow.isFont
  deep := Nat.succ_le_succ hbelow.deep
  first names' file' h' hdeep := by
    rcases h'.cases_names hfound with ⟨rfl, hmem, hload⟩ | ⟨name', rest, rfl, hmem, hfont⟩
    · rw [hfiles file' hmem] at hload
      cases hload
    have hrest : rest.length ≤ depth := Nat.le_of_succ_le_succ hdeep
    rw [directoriesIn, (sortNames_perm _).mem_iff] at hmem
    rcases h.eq_or_lt hmem ((hg name').isSome hfont hrest) with rfl | hlt
    · exact (hbelow.first rest file' hfont hrest).imp (fun ⟨hnames, hfile⟩ => ⟨by rw [hnames], hfile⟩) .inside
    · exact .inr (.directory hlt)

/-- What the directory itself gives, and what is left to its directories. -/
theorem fontIn_cases : (∃ file, fontIn loads t directory base found.place = some (Path.join base file) ∧
      ∀ depth, IsFirstBelow loads t directory depth base [] file) ∨
    fontIn loads t directory base found.place = none ∧ ∀ file ∈ filesIn t directory base found.place,
      isLoadable t directory (Path.join base file) loads = false := by
  unfold fontIn
  cases hfirst : (filesIn t directory base found.place).find? fun file =>
      isLoadable t directory (Path.join base file) loads with
  | some file => exact .inl ⟨file, rfl, fun _ => isFirstBelow_of_file hfound (isFirst_of_find? hfirst)⟩
  | none =>
    refine .inr ⟨rfl, fun file hfile => ?_⟩
    exact Bool.not_eq_true _ ▸ List.find?_eq_none.1 hfirst file hfile

end Level

theorem findBelow_finds (loads : FontLoader) (t : FileTree) (directory : String) (depth : Nat)
    (base : String) : FindsBelow loads t directory depth base (findBelow loads t directory depth base) := by
  induction depth generalizing base with
  | zero =>
    cases hfound : t.locate directory base with
    | error e => exact findsBelow_of_error hfound
    | ok found =>
      rw [findBelow_zero hfound]
      rcases fontIn_cases hfound with ⟨file, hfont, hfirst⟩ | ⟨hnone, hfiles⟩
      · rw [hfont]
        exact .found (hfirst 0)
      · rw [hnone]
        refine .missing fun names file h => ?_
        rcases h.cases_names hfound with ⟨-, hmem, hload⟩ | ⟨name, rest, rfl, -, -⟩
        · rw [hfiles file hmem] at hload
          cases hload
        · exact Nat.succ_pos _
  | succ depth ih =>
    cases hfound : t.locate directory base with
    | error e => exact findsBelow_of_error hfound
    | ok found =>
      rw [findBelow_succ hfound]
      rcases fontIn_cases hfound with ⟨file, hfont, hfirst⟩ | ⟨hnone, hfiles⟩
      · rw [hfont, Option.some_or]
        exact .found (hfirst (depth + 1))
      rw [hnone, Option.none_or]
      -- No file here is a font, so the first directory that has one below it decides.
      cases hbelow : (directoriesIn t found.place).findSome? fun name =>
          findBelow loads t directory depth (Path.join base name) with
      | some path =>
        obtain ⟨name, hfirst, hpath⟩ := isFirst_of_findSome? hbelow
        have hname := ih (Path.join base name)
        rw [hpath] at hname
        cases hname with
        | found h =>
          exact .found
            (isFirstBelow_of_directory hfound (fun name => ih (Path.join base name)) hfiles hfirst h)
      | none =>
        refine .missing fun names file h => ?_
        rcases h.cases_names hfound with ⟨-, hmem, hload⟩ | ⟨name, rest, rfl, hmem, hfont⟩
        · rw [hfiles file hmem] at hload
          cases hload
        · have hname := ih (Path.join base name)
          rw [List.findSome?_eq_none_iff.1 hbelow name hmem] at hname
          cases hname with
          | missing hnone => exact Nat.succ_lt_succ (hnone rest file hfont)

/-! ### The whole search -/

/-- The files that a font of some name can have in directories, in the order in which they are tried. -/
def namedPaths (t : FileTree) (directory name : String) (fontDirectories : List String) : List String :=
  (fontDirectories.filter (t.isDirectory directory)).flatMap fun base =>
    endings.map fun ending => Path.join base (name ++ ending)

theorem findNamed_eq (t : FileTree) (directory name : String) (fontDirectories : List String)
    (loads : FontLoader) : findNamed t directory name fontDirectories loads =
      (namedPaths t directory name fontDirectories).find? (isLoadable t directory · loads) :=
  List.find?_flatMap.symm

/-- There is a font below a directory, not too deep. -/
def HasFont (loads : FontLoader) (t : FileTree) (directory base : String) : Prop :=
  t.isDirectory directory base = true ∧
    ∃ names file, IsFontBelow loads t directory base names file ∧ names.length ≤ maxDepth

/-- The file that stands for a font, if any does. -/
inductive Settles (t : FileTree) (directory : String) (places : FontPlaces) (name : String)
    (fontDirectories : List String) : Option String → Prop where
  | named {path : String}
      (h : IsFirst (namedPaths t directory name fontDirectories)
        (isLoadable t directory · places.loads = true) path) :
      Settles t directory places name fontDirectories (some path)
  | candidate {path : String}
      (hnamed : ∀ path ∈ namedPaths t directory name fontDirectories,
        ¬ isLoadable t directory path places.loads = true)
      (h : IsFirst places.candidates (isLoadable t directory · places.loads = true) path) :
      Settles t directory places name fontDirectories (some path)
  | below {base file : String} {names : List String}
      (hnamed : ∀ path ∈ namedPaths t directory name fontDirectories,
        ¬ isLoadable t directory path places.loads = true)
      (hcandidates : ∀ path ∈ places.candidates, ¬ isLoadable t directory path places.loads = true)
      (hbase : IsFirst places.directories (HasFont places.loads t directory) base)
      (h : IsFirstBelow places.loads t directory maxDepth base names file) :
      Settles t directory places name fontDirectories (some (pathBelow base names file))
  | missing
      (hnamed : ∀ path ∈ namedPaths t directory name fontDirectories,
        ¬ isLoadable t directory path places.loads = true)
      (hcandidates : ∀ path ∈ places.candidates, ¬ isLoadable t directory path places.loads = true)
      (h : ∀ base ∈ places.directories, ¬ HasFont places.loads t directory base) :
      Settles t directory places name fontDirectories none

variable {places : FontPlaces} {fontDirectories : List String} {result result' : Option String}

/-- At most one answer settles a search. -/
theorem Settles.unique (h : Settles t directory places name fontDirectories result)
    (h' : Settles t directory places name fontDirectories result') : result = result' := by
  cases h with
  | named h =>
    cases h' with
    | named h' => rw [h.unique h']
    | candidate hnamed => exact absurd hnamed h.exists
    | below hnamed => exact absurd hnamed h.exists
    | missing hnamed => exact absurd hnamed h.exists
  | candidate hnamed h =>
    cases h' with
    | named h' => exact absurd hnamed h'.exists
    | candidate _ h' => rw [h.unique h']
    | below _ hcandidates => exact absurd hcandidates h.exists
    | missing _ hcandidates => exact absurd hcandidates h.exists
  | below hnamed hcandidates hbase h =>
    cases h' with
    | named h' => exact absurd hnamed h'.exists
    | candidate _ h' => exact absurd hcandidates h'.exists
    | below _ _ hbase' h' =>
      obtain rfl := hbase.unique hbase'
      obtain ⟨rfl, rfl⟩ := h.unique h'
      rfl
    | missing _ _ hnone => exact absurd hnone hbase.exists
  | missing hnamed hcandidates hnone =>
    cases h' with
    | named h' => exact absurd hnamed h'.exists
    | candidate _ h' => exact absurd hcandidates h'.exists
    | below _ _ hbase' => exact absurd hnone hbase'.exists
    | missing => rfl

theorem hasFont_iff : HasFont loads t directory base ↔
    t.isDirectory directory base = true ∧ (findBelow loads t directory maxDepth base).isSome = true := by
  refine and_congr_right fun _ => ?_
  have hfinds := findBelow_finds loads t directory maxDepth base
  constructor
  · rintro ⟨names, file, hfont, hdeep⟩
    exact hfinds.isSome hfont hdeep
  · intro hsome
    cases hbelow : findBelow loads t directory maxDepth base with
    | none =>
      rw [hbelow] at hsome
      cases hsome
    | some path =>
      rw [hbelow] at hfinds
      cases hfinds with
      | found h => exact ⟨_, _, h.isFont, h.deep⟩

theorem find_settles (t : FileTree) (directory : String) (places : FontPlaces) (name : String)
    (fontDirectories : List String) :
    Settles t directory places name fontDirectories (find t directory places name fontDirectories) := by
  rw [find, findNamed_eq]
  cases hnamed : (namedPaths t directory name fontDirectories).find?
      (isLoadable t directory · places.loads) with
  | some path => exact .named (isFirst_of_find? hnamed)
  | none =>
    replace hnamed := List.find?_eq_none.1 hnamed
    rw [Option.none_or, findSystem]
    cases hcandidate : places.candidates.find? (isLoadable t directory · places.loads) with
    | some path => exact .candidate hnamed (isFirst_of_find? hcandidate)
    | none =>
      replace hcandidate := List.find?_eq_none.1 hcandidate
      rw [Option.none_or]
      cases hbelow : (places.directories.filter (t.isDirectory directory)).findSome?
          (findBelow places.loads t directory maxDepth) with
      | some path =>
        obtain ⟨base, hbase, hpath⟩ := isFirst_of_findSome? hbelow
        have hfirst : IsFirst places.directories (HasFont places.loads t directory) base := by
          have hfont : HasFont places.loads t directory = fun base => t.isDirectory directory base = true ∧
              (findBelow places.loads t directory maxDepth base).isSome = true :=
            funext fun _ => propext hasFont_iff
          rw [hfont]
          exact isFirst_of_filter hbase
        have hfinds := findBelow_finds places.loads t directory maxDepth base
        rw [hpath] at hfinds
        cases hfinds with
        | found h => exact .below hnamed hcandidate hfirst h
      | none =>
        refine .missing hnamed hcandidate fun base hbase hfont => ?_
        obtain ⟨hdirectory, hsome⟩ := hasFont_iff.1 hfont
        rw [List.findSome?_eq_none_iff.1 hbelow base (List.mem_filter.2 ⟨hbase, hdirectory⟩)] at hsome
        cases hsome

/-! ### The order of listings -/

section Reordered

variable {t' : FileTree} (h : t.Reorders t')

include h

theorem isDirectory_reordered : t'.isDirectory = t.isDirectory := by
  unfold FileTree.isDirectory
  rw [h.entryAt?_eq]

theorem directoriesIn_reordered (place : List String) : directoriesIn t' place = directoriesIn t place :=
  sortNames_eq ((h.children_perm place).symm.filterMap _)

section Loaded

variable (hloads : loads.IgnoresOrder)

include hloads

theorem isLoadable_reordered (directory path : String) :
    isLoadable t' directory path loads = isLoadable t directory path loads := by
  unfold isLoadable FileTree.isFile
  rw [h.entryAt?_eq, hloads t t' h]

theorem fontIn_reordered (directory base : String) (place : List String) :
    fontIn loads t' directory base place = fontIn loads t directory base place := by
  have hfiles : filesIn t' directory base place = filesIn t directory base place := by
    unfold filesIn
    rw [isDirectory_reordered h]
    exact sortNames_eq (((h.children_perm place).symm.map _).filter _)
  unfold fontIn
  simp only [isLoadable_reordered h hloads, hfiles]

theorem findBelow_reordered : findBelow loads t' = findBelow loads t := by
  funext directory depth base
  have hlocate := h.locate_eq directory base
  induction depth generalizing base with
  | zero =>
    cases hfound : t.locate directory base with
    | error e => rw [findBelow_of_error (hlocate.trans hfound), findBelow_of_error hfound]
    | ok found =>
      rw [findBelow_zero (hlocate.trans hfound), findBelow_zero hfound, fontIn_reordered h hloads]
  | succ depth ih =>
    cases hfound : t.locate directory base with
    | error e => rw [findBelow_of_error (hlocate.trans hfound), findBelow_of_error hfound]
    | ok found =>
      rw [findBelow_succ (hlocate.trans hfound), findBelow_succ hfound, fontIn_reordered h hloads,
        directoriesIn_reordered h]
      simp only [ih _ (h.locate_eq directory _)]

end Loaded

theorem find_reordered (directory : String) {places : FontPlaces} (hloads : places.loads.IgnoresOrder)
    (name : String) (fontDirectories : List String) :
    find t' directory places name fontDirectories = find t directory places name fontDirectories := by
  unfold find findNamed findSystem
  simp only [isDirectory_reordered h, isLoadable_reordered h hloads, findBelow_reordered h hloads]

end Reordered

/-- What a search for a font gives, whatever order the directories are listed in, as long as the font
library does not mind it. -/
structure IsSettled (t : FileTree) (directory : String) (places : FontPlaces) (name : String)
    (fontDirectories : List String) : Prop where
  settles_iff : ∀ result, find t directory places name fontDirectories = result ↔
    Settles t directory places name fontDirectories result
  reordered : places.loads.IgnoresOrder → ∀ t', t.Reorders t' →
    find t' directory places name fontDirectories = find t directory places name fontDirectories

/-- A search gives the first font of the name, else the first of the usual files, else the first below the
directories of the system, and nothing only when there is none of them. What a font is, the font library
decides. -/
theorem find_isSettled (t : FileTree) (directory : String) (places : FontPlaces) (name : String)
    (fontDirectories : List String) : IsSettled t directory places name fontDirectories where
  settles_iff result := by
    have hsettles := find_settles t directory places name fontDirectories
    exact ⟨fun h => h ▸ hsettles, hsettles.unique⟩
  reordered hloads _ h := find_reordered h directory hloads name fontDirectories

/-- A font three directories below the one that is searched, with a broken one above it and another one
below it. -/
def deepTree : FileTree := ⟨[
  (["fonts"], .directory),
  (["fonts", "broken.ttf"], .file "none".toUTF8),
  (["fonts", "x"], .directory),
  (["fonts", "x", "y"], .directory),
  (["fonts", "x", "y", "z"], .directory),
  (["fonts", "x", "y", "z", "deep.OTF"], .file "FONT".toUTF8),
  (["fonts", "x", "y", "z", "w"], .directory),
  (["fonts", "x", "y", "z", "w", "a.ttf"], .file "FONT".toUTF8)]⟩

theorem deepTree_settles :
    Settles deepTree "/" { directories := ["/fonts"] } "Arial" ["/fonts"] (some "/fonts/x/y/z/deep.OTF") ∧
      find ⟨deepTree.entries.reverse⟩ "/" { directories := ["/fonts"] } "Arial" ["/fonts"] =
        some "/fonts/x/y/z/deep.OTF" := by
  have hsettled := find_isSettled deepTree "/" { directories := ["/fonts"] } "Arial" ["/fonts"]
  have hfind : find deepTree "/" { directories := ["/fonts"] } "Arial" ["/fonts"] =
      some "/fonts/x/y/z/deep.OTF" := by
    decide +kernel
  have hreversed : deepTree.Reorders ⟨deepTree.entries.reverse⟩ :=
    ⟨(List.reverse_perm _).symm, by decide +kernel⟩
  have hsame := hsettled.reordered FontLoader.marked_ignoresOrder _ hreversed
  exact ⟨(hsettled.settles_iff _).1 hfind, hsame.trans hfind⟩

end Font

end Montage
