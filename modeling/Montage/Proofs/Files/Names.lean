import Mathlib.Data.List.Basic
import Montage.Files.Path

/-!
# The names of a path

A path is its names with a slash between each two (`names_slash`, `intercalate_names`). Empty names and
`.` mean nothing; without them, joining puts the names of two paths one behind the other
(`plainNames_join`), and normalizing keeps all names but `..` and those before it
(`exists_names_normalize`).
-/

namespace Montage

theorem Text.splitOn_eq (separator : Char) (cs : List Char) :
    Text.splitOn separator cs = cs.splitOn separator := by
  induction cs with
  | nil => rfl
  | cons c rest ih =>
    have hne : rest.splitOn separator ≠ [] := List.splitOnP_ne_nil _ _
    obtain ⟨piece, pieces, hpieces⟩ := List.exists_cons_of_ne_nil hne
    rw [Text.splitOn, ih, hpieces]
    rw [List.splitOn] at hpieces ⊢
    rw [List.splitOnP_cons_eq_if_modifyHead, hpieces]
    simp

theorem Text.not_mem_of_mem_splitOn {separator : Char} {cs piece : List Char}
    (h : piece ∈ Text.splitOn separator cs) : separator ∉ piece := by
  induction cs generalizing piece with
  | nil =>
    obtain rfl : piece = [] := List.mem_singleton.1 h
    exact List.not_mem_nil
  | cons c rest ih =>
    rw [Text.splitOn] at h
    by_cases hc : c = separator
    · rw [if_pos hc] at h
      rcases List.mem_cons.1 h with rfl | h
      · exact List.not_mem_nil
      · exact ih h
    · rw [if_neg hc] at h
      cases hrest : Text.splitOn separator rest with
      | nil =>
        rw [hrest] at h
        obtain rfl : piece = [c] := List.mem_singleton.1 h
        exact fun hmem => hc (List.mem_singleton.1 hmem).symm
      | cons first pieces =>
        rw [hrest] at h ih
        rcases List.mem_cons.1 h with rfl | h
        · intro hmem
          rcases List.mem_cons.1 hmem with heq | hmem
          · exact hc heq.symm
          · exact ih (.head _) hmem
        · exact ih (.tail _ h)

namespace Path

/-- A name that is not empty and means neither the directory that it is in nor the one above. -/
structure IsName (n : String) : Prop where
  ne_empty : n ≠ ""
  ne_here : n ≠ "."
  ne_above : n ≠ ".."
  slashless : '/' ∉ n.toList

/-- Whether a name means anything. -/
def isPlain (n : String) : Bool := n ≠ "" && n ≠ "."

/-- The names of a path without those that mean nothing. -/
def plainNames (path : String) : List String := (names path).filter isPlain

/-- No name is `..`, and empty names stand at the ends only. -/
structure AreTidy (ns : List String) : Prop where
  noneAbove : ".." ∉ ns
  noneEmpty : "" ∉ ns.dropLast.tail

/-- A path in which no name is `..` and no slash follows another. -/
def IsTidy (path : String) : Prop := AreTidy (names path)

instance (path : String) : Decidable (IsTidy path) :=
  decidable_of_iff (".." ∉ names path ∧ "" ∉ (names path).dropLast.tail)
    ⟨fun h => ⟨h.1, h.2⟩, fun h => ⟨h.1, h.2⟩⟩

variable {path directory n : String} {ns rest kept : List String}

theorem isPlain_iff : isPlain n = true ↔ n ≠ "" ∧ n ≠ "." := by
  simp [isPlain]

theorem IsName.isPlain (h : IsName n) : isPlain n = true :=
  isPlain_iff.2 ⟨h.ne_empty, h.ne_here⟩

theorem AreTidy.noneEmpty_tail (h : AreTidy (n :: ns)) : "" ∉ ns.dropLast := by
  have hempty := h.noneEmpty
  rwa [List.tail_dropLast, List.tail_cons] at hempty

theorem AreTidy.tail (h : AreTidy (n :: ns)) : AreTidy ns :=
  ⟨fun hmem => h.noneAbove (.tail _ hmem), fun hmem => h.noneEmpty_tail (List.mem_of_mem_tail hmem)⟩

/-! ### Splitting and joining with slashes -/

theorem names_ne_nil (path : String) : names path ≠ [] := by
  simp [names, Text.splitOn_eq, List.splitOn, List.splitOnP_ne_nil]

theorem slashless_of_mem_names (h : n ∈ names path) : '/' ∉ n.toList := by
  obtain ⟨piece, hpiece, rfl⟩ := List.mem_map.1 h
  rw [String.toList_ofList]
  exact Text.not_mem_of_mem_splitOn hpiece

theorem names_slash (a b : String) : names (a ++ "/" ++ b) = names a ++ names b := by
  have hslash : "/".toList = ['/'] := rfl
  simp [names, Text.splitOn_eq, List.splitOn, hslash, List.splitOnP_append_cons]

theorem names_slash_left (path : String) : names ("/" ++ path) = "" :: names path :=
  names_slash "" path

theorem intercalate_names (path : String) : "/".intercalate (names path) = path := by
  have hslash : "/".toList = ['/'] := rfl
  apply String.toList_inj.1
  rw [String.toList_intercalate, names, List.map_map, Text.splitOn_eq, hslash]
  have hid : String.toList ∘ String.ofList = id := funext fun cs => String.toList_ofList
  rw [hid, List.map_id, List.intercalate_splitOn]

theorem names_intercalate (hns : ∀ n ∈ ns, '/' ∉ n.toList) (hne : ns ≠ []) :
    names ("/".intercalate ns) = ns := by
  have hslash : "/".toList = ['/'] := rfl
  have hpieces : ∀ piece ∈ ns.map String.toList, '/' ∉ piece := by
    simpa using hns
  rw [names, String.toList_intercalate, Text.splitOn_eq, hslash,
    List.splitOn_intercalate '/' hpieces (by simpa using hne), List.map_map]
  have hid : String.ofList ∘ String.toList = id := funext fun s => String.ofList_toList
  rw [hid, List.map_id]

theorem names_ofNames (hns : ∀ n ∈ ns, '/' ∉ n.toList) (hne : ns ≠ []) :
    names (ofNames ns) = "" :: ns := by
  rw [ofNames, names_slash_left, names_intercalate hns hne]

/-! ### Absolute paths -/

theorem isAbsolute_iff : isAbsolute path = true ↔ ∃ rest, path = "/" ++ rest := by
  have hslash : "/".toList = ['/'] := rfl
  rw [isAbsolute, Text.startsWith, List.isPrefixOf_iff_prefix, hslash]
  constructor
  · rintro ⟨rest, hrest⟩
    exact ⟨.ofList rest, String.toList_inj.1 (by simp [hslash, ← hrest])⟩
  · rintro ⟨rest, rfl⟩
    exact ⟨rest.toList, by simp [hslash]⟩

theorem isAbsolute_ofNames (ns : List String) : isAbsolute (ofNames ns) = true :=
  isAbsolute_iff.2 ⟨_, rfl⟩

/-- Names behind an other one do not make up an absolute path unless the first of many is empty. -/
theorem not_isAbsolute_intercalate (hns : ∀ n ∈ ns, '/' ∉ n.toList) (hempty : "" ∉ ns.dropLast) :
    isAbsolute ("/".intercalate ns) = false := by
  apply Bool.eq_false_iff.2
  intro habs
  obtain ⟨rest, hrest⟩ := isAbsolute_iff.1 habs
  cases ns with
  | nil =>
    have hlength := congrArg (·.toList.length) hrest
    simp at hlength
  | cons n rest' =>
    have hnames := names_intercalate hns (List.cons_ne_nil _ _)
    rw [hrest, names_slash_left] at hnames
    apply hempty
    rw [← hnames, List.dropLast_cons_of_ne_nil (names_ne_nil rest)]
    exact .head _

/-- Only at its end a tidy path that is not absolute has an empty name. -/
theorem IsTidy.noneEmpty_of_relative (h : IsTidy path) (hrel : isAbsolute path = false) :
    "" ∉ (names path).dropLast := by
  obtain ⟨n, rest, hnames⟩ := List.exists_cons_of_ne_nil (names_ne_nil path)
  rw [IsTidy, hnames] at h
  rw [hnames]
  cases rest with
  | nil => exact List.not_mem_nil
  | cons m rest =>
    rw [List.dropLast_cons_of_ne_nil (List.cons_ne_nil _ _)]
    intro hmem
    rcases List.mem_cons.1 hmem with hn | hmem
    · have hpath : path = "/" ++ "/".intercalate (m :: rest) := by
        rw [← intercalate_names path, hnames, ← hn,
          String.intercalate_cons_of_ne_nil (List.cons_ne_nil _ _), String.empty_append]
      rw [isAbsolute_iff.2 ⟨_, hpath⟩] at hrel
      cases hrel
    · exact h.noneEmpty_tail hmem

theorem isAbsolute_join (h : isAbsolute directory = true) (path : String) :
    isAbsolute (join directory path) = true := by
  obtain ⟨rest, rfl⟩ := isAbsolute_iff.1 h
  unfold join
  split
  · assumption
  · split
    · exact isAbsolute_iff.2 ⟨rest ++ path, by rw [String.append_assoc]⟩
    · exact isAbsolute_iff.2 ⟨rest ++ "/" ++ path, by simp only [String.append_assoc]⟩

/-! ### Names that mean something -/

theorem plainNames_slash (a b : String) : plainNames (a ++ "/" ++ b) = plainNames a ++ plainNames b := by
  rw [plainNames, names_slash, List.filter_append, plainNames, plainNames]

theorem plainNames_slash_left (path : String) : plainNames ("/" ++ path) = plainNames path :=
  plainNames_slash "" path

theorem plainNames_intercalate (hns : ∀ n ∈ ns, '/' ∉ n.toList) :
    plainNames ("/".intercalate ns) = ns.filter isPlain := by
  cases ns with
  | nil => rfl
  | cons n rest => rw [plainNames, names_intercalate hns (List.cons_ne_nil _ _)]

theorem plainNames_ofNames (hns : ∀ n ∈ ns, IsName n) : plainNames (ofNames ns) = ns := by
  rw [ofNames, plainNames_slash_left, plainNames_intercalate fun n hn => (hns n hn).slashless,
    List.filter_eq_self]
  exact fun n hn => (hns n hn).isPlain

/-- Joining puts the names of a path behind those of the directory. -/
theorem exists_names_join (directory : String) (h : isAbsolute path = false) :
    ∃ front, names (join directory path) = front ++ names path ∧
      (names directory = front ∨ names directory = front ++ [""]) := by
  rw [join, if_neg (by simp [h])]
  split
  · rename_i hbare
    rcases Bool.or_eq_true_iff.1 hbare with hempty | hslash
    · obtain rfl : directory = "" := by simpa using hempty
      exact ⟨[], by rw [String.empty_append, List.nil_append], .inr rfl⟩
    · obtain ⟨above, habove⟩ := List.isSuffixOf_iff_suffix.1 hslash
      have hdirectory : directory = .ofList above ++ "/" ++ "" :=
        String.toList_inj.1 (by simp [← habove])
      have hjoined : directory ++ path = .ofList above ++ "/" ++ path := by
        rw [hdirectory, String.append_empty]
      refine ⟨names (.ofList above), ?_, .inr ?_⟩
      · rw [hjoined, names_slash]
      · rw [hdirectory, names_slash]
        rfl
  · exact ⟨names directory, names_slash directory path, .inl rfl⟩

/-- An empty last name is not a plain one. -/
theorem plainNames_of_front {front : List String}
    (h : names directory = front ∨ names directory = front ++ [""]) :
    plainNames directory = front.filter isPlain := by
  rw [plainNames]
  rcases h with h | h
  · rw [h]
  · rw [h, List.filter_append]
    exact List.append_nil _

theorem plainNames_join (h : isAbsolute path = false) :
    plainNames (join directory path) = plainNames directory ++ plainNames path := by
  obtain ⟨front, hjoined, hfront⟩ := exists_names_join directory h
  rw [plainNames_of_front hfront, plainNames, hjoined, List.filter_append, plainNames]

/-- What stands behind the names of a place is tidy there if it is so by itself. -/
theorem isTidy_join_ofNames (hns : ∀ n ∈ ns, IsName n) (h : IsTidy path)
    (hrel : isAbsolute path = false) : IsTidy (join (ofNames ns) path) := by
  have hnames : names (join (ofNames ns) path) = "" :: (ns ++ names path) := by
    by_cases hroot : ns = []
    · have hjoin : join (ofNames ns) path = "/" ++ path := by
        rw [join, if_neg (by simp [hrel]), hroot]
        exact if_pos (by decide)
      rw [hjoin, names_slash_left, hroot, List.nil_append]
    · obtain ⟨front, hjoined, hfront⟩ := exists_names_join (ofNames ns) hrel
      rw [names_ofNames (fun n hn => (hns n hn).slashless) hroot] at hfront
      rcases hfront with hfront | hfront
      · rw [hjoined, ← hfront, List.cons_append]
      · -- no name of the place is empty, and so its path has no slash at its end
        obtain ⟨above, last, rfl⟩ := (List.eq_nil_or_concat ns).resolve_left hroot
        rw [List.concat_eq_append, ← List.cons_append] at hfront
        obtain ⟨-, hlast⟩ := List.append_singleton_inj.1 hfront
        exact absurd hlast (hns last (by simp)).ne_empty
  rw [IsTidy, hnames]
  refine ⟨?_, ?_⟩
  · intro hmem
    rcases List.mem_cons.1 hmem with hempty | hmem
    · exact absurd hempty (by decide)
    · rcases List.mem_append.1 hmem with hmem | hmem
      · exact (hns _ hmem).ne_above rfl
      · exact h.noneAbove hmem
  · rw [List.tail_dropLast, List.tail_cons, List.dropLast_append_of_ne_nil (names_ne_nil path)]
    intro hmem
    rcases List.mem_append.1 hmem with hmem | hmem
    · exact (hns _ hmem).ne_empty rfl
    · exact h.noneEmpty_of_relative hrel hmem

/-! ### Normalizing -/

/-- What is kept of an absolute path are names without `..`. -/
theorem isName_of_mem_simplify (hkept : ∀ n ∈ kept, IsName n) (hns : ∀ n ∈ ns, '/' ∉ n.toList) :
    ∀ n ∈ simplify true kept ns, IsName n := by
  induction ns generalizing kept with
  | nil => exact fun n hn => hkept n (List.mem_reverse.1 hn)
  | cons m rest ih =>
    have hrest : ∀ n ∈ rest, '/' ∉ n.toList := fun n hn => hns n (.tail _ hn)
    rw [simplify.eq_def]
    dsimp only
    split
    · exact ih hkept hrest
    · rename_i hplain
      have hm : m ≠ "" ∧ m ≠ "." := by simpa using hplain
      split
      · rename_i habove
        exact ih (List.forall_mem_cons.2 ⟨⟨hm.1, hm.2, habove, hns m (.head _)⟩, hkept⟩) hrest
      · split
        · exact ih (by simp) hrest
        · obtain ⟨hk, hbefore⟩ := List.forall_mem_cons.1 hkept
          rw [if_neg hk.ne_above]
          exact ih hbefore hrest

/-- Without `..` all names stay that mean something. -/
theorem simplify_eq {absolute : Bool} (h : ".." ∉ ns) :
    simplify absolute kept ns = kept.reverse ++ ns.filter isPlain := by
  induction ns generalizing kept with
  | nil => simp [simplify]
  | cons m rest ih =>
    have hm : m ≠ ".." := fun heq => h (heq ▸ .head _)
    have hrest : ".." ∉ rest := fun hmem => h (.tail _ hmem)
    rw [simplify.eq_def]
    by_cases hplain : isPlain m = true
    · have hnot : (m = "" || m = ".") = false := by simpa using isPlain_iff.1 hplain
      simp [hnot, hm, ih hrest, List.filter_cons_of_pos hplain]
    · have hblank : (m = "" || m = ".") = true := by
        simpa [isPlain, or_iff_not_imp_left] using hplain
      simp only [hblank, if_true, ih hrest, List.filter_cons_of_neg hplain]

theorem rootSlashes_eq (h : isAbsolute path = true) :
    rootSlashes path = "/" ∨ rootSlashes path = "/" ++ "/" := by
  obtain ⟨rest, rfl⟩ := isAbsolute_iff.1 h
  have hslash : "/".toList = ['/'] := rfl
  simp only [rootSlashes, String.toList_append, hslash]
  split
  · rename_i hzero
    simp at hzero
  · split
    · exact .inr rfl
    · exact .inl rfl

theorem normalize_eq (h : isAbsolute path = true) :
    normalize path = rootSlashes path ++ "/".intercalate (simplify true [] (names path)) := by
  simp only [normalize, h]
  split
  · rename_i hempty
    rcases rootSlashes_eq h with hslashes | hslashes <;> simp [hslashes] at hempty
  · rfl

theorem isAbsolute_normalize (h : isAbsolute path = true) : isAbsolute (normalize path) = true := by
  rw [normalize_eq h, isAbsolute_iff]
  rcases rootSlashes_eq h with hslashes | hslashes
  · exact ⟨_, by rw [hslashes]⟩
  · exact ⟨_, by rw [hslashes, String.append_assoc]⟩

/-- The names of a normalized path are what is kept of them, behind empty ones. -/
theorem exists_names_normalize (h : isAbsolute path = true) :
    ∃ blanks, (∀ n ∈ blanks, n = "") ∧
      names (normalize path) = blanks ++ simplify true [] (names path) := by
  have hslashless : ∀ n ∈ simplify true [] (names path), '/' ∉ n.toList := fun n hn =>
    (isName_of_mem_simplify (by simp) (fun _ => slashless_of_mem_names) n hn).slashless
  rw [normalize_eq h]
  generalize simplify true [] (names path) = kept at hslashless
  have hnames : ∃ blanks, (∀ n ∈ blanks, n = "") ∧ names ("/".intercalate kept) = blanks ++ kept := by
    cases kept with
    | nil => exact ⟨[""], by simp, rfl⟩
    | cons n rest => exact ⟨[], by simp, names_intercalate hslashless (List.cons_ne_nil _ _)⟩
  obtain ⟨blanks, hblanks, hnames⟩ := hnames
  rcases rootSlashes_eq h with hslashes | hslashes
  · refine ⟨"" :: blanks, by simpa using hblanks, ?_⟩
    rw [hslashes, names_slash_left, hnames, List.cons_append]
  · refine ⟨"" :: "" :: blanks, by simpa using hblanks, ?_⟩
    rw [hslashes, String.append_assoc, names_slash_left, names_slash_left, hnames,
      List.cons_append, List.cons_append]

theorem names_normalize (h : isAbsolute path = true) (habove : ".." ∉ names path) :
    ∃ blanks, (∀ n ∈ blanks, n = "") ∧ names (normalize path) = blanks ++ plainNames path := by
  obtain ⟨blanks, hblanks, hnames⟩ := exists_names_normalize h
  rw [simplify_eq habove] at hnames
  exact ⟨blanks, hblanks, hnames⟩

theorem isName_of_mem_normalize (h : isAbsolute path = true) (hn : n ∈ plainNames (normalize path)) :
    IsName n := by
  obtain ⟨blanks, hblanks, hnames⟩ := exists_names_normalize h
  obtain ⟨hmem, hplain⟩ := List.mem_filter.1 hn
  rw [hnames] at hmem
  rcases List.mem_append.1 hmem with hmem | hmem
  · exact absurd (hblanks n hmem) (isPlain_iff.1 hplain).1
  · exact isName_of_mem_simplify (by simp) (fun _ => slashless_of_mem_names) n hmem

end Path
end Montage
