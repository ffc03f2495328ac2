import Montage.Proofs.Files.Folders
import Montage.Proofs.Files.Faults
import Montage.Proofs.Files.RealPath

/-!
# Paths without a NUL

No file system holds a NUL in a name or in the target of a link. A real path then has one only where the
path itself has one (`hasNul_realPath`), and looking it up fails for what is there, never for the text.
-/

namespace Montage.FileTree

open Montage.Path Outcome

variable {t : FileTree} {directory path target n : String} {ns kept place : List String} {seen : Seen}
  {links : Nat}

/-- No name has a NUL. -/
def AreNulless (ns : List String) : Prop := ∀ n ∈ ns, hasNul n = false

/-- No link leads through a NUL. -/
def HasNullessLinks (t : FileTree) : Prop :=
  ∀ place target, t.entry? place = some (.link target) → hasNul target = false

theorem hasNullessLinks_of_all (h : (t.entries.all fun (_, entry) =>
    match entry with
    | .link target => !hasNul target
    | _ => true) = true) : t.HasNullessLinks := by
  intro place target hentry
  unfold entry? at hentry
  split at hentry
  · cases hentry
  · obtain ⟨before, after, hentries, -⟩ := List.lookup_eq_some_iff.1 hentry
    have hmem : (place, FileEntry.link target) ∈ t.entries := by rw [hentries]; simp
    simpa using List.all_eq_true.1 h _ hmem

/-! ### Names and paths -/

theorem hasNul_intercalate (ns : List String) : hasNul ("/".intercalate ns) = ns.any hasNul := by
  induction ns with
  | nil => rfl
  | cons n rest ih =>
    cases rest with
    | nil => simp
    | cons m rest =>
      have hslash : hasNul "/" = false := rfl
      have hcons : "/".intercalate (n :: m :: rest) = n ++ "/" ++ "/".intercalate (m :: rest) := by
        apply String.toList_inj.1
        simp [String.toList_intercalate]
      rw [hcons, hasNul_append, hasNul_append, ih, hslash, Bool.or_false, ← List.any_cons]

theorem hasNul_intercalate_of_areNulless (h : AreNulless ns) : hasNul ("/".intercalate ns) = false := by
  rw [hasNul_intercalate, List.any_eq_false]
  intro n hn
  rw [h n hn]
  exact Bool.false_ne_true

theorem areNulless_names (h : hasNul path = false) : AreNulless (Path.names path) := by
  rw [← intercalate_names path, hasNul_intercalate, List.any_eq_false] at h
  intro n hn
  exact Bool.eq_false_iff.2 (h n hn)

theorem hasNul_ofNames (h : AreNulless ns) : hasNul (ofNames ns) = false := by
  rw [ofNames, hasNul_append, hasNul_intercalate_of_areNulless h]
  rfl

theorem hasNul_join (hdirectory : hasNul directory = false) (h : hasNul path = false) :
    hasNul (join directory path) = false := by
  have hslash : hasNul "/" = false := rfl
  unfold join
  split
  · exact h
  · split
    · rw [hasNul_append, hdirectory, h, Bool.or_false]
    · rw [hasNul_append, hasNul_append, hdirectory, hslash, h, Bool.or_false, Bool.or_false]

theorem mem_of_mem_simplify {absolute : Bool} (h : n ∈ simplify absolute kept ns) : n ∈ kept ∨ n ∈ ns := by
  induction ns generalizing kept with
  | nil => exact .inl (List.mem_reverse.1 h)
  | cons m rest ih =>
    have hnext {kept' : List String} (h : n ∈ simplify absolute kept' rest)
        (hkept : ∀ k ∈ kept', k ∈ kept ∨ k = m) : n ∈ kept ∨ n ∈ m :: rest := by
      rcases ih h with hmem | hmem
      · exact (hkept n hmem).imp_right fun heq => List.mem_cons.2 (.inl heq)
      · exact .inr (.tail _ hmem)
    have hpush : ∀ k ∈ m :: kept, k ∈ kept ∨ k = m := by
      intro k hk
      exact (List.mem_cons.1 hk).symm
    rw [simplify.eq_def] at h
    dsimp only at h
    split at h
    · exact hnext h fun k hk => .inl hk
    · split at h
      · exact hnext h hpush
      · split at h
        · refine hnext h ?_
          cases absolute
          · exact fun k hk => .inr (List.mem_singleton.1 hk)
          · exact fun k hk => (List.not_mem_nil hk).elim
        · split at h
          · exact hnext h hpush
          · exact hnext h fun k hk => .inl (.tail _ hk)

theorem hasNul_normalize (h : hasNul path = false) : hasNul (normalize path) = false := by
  have hroot : hasNul (rootSlashes path) = false := by
    unfold rootSlashes
    dsimp only
    split
    · rfl
    · split <;> rfl
  have hkept : AreNulless (simplify (isAbsolute path) [] (Path.names path)) := by
    intro n hn
    exact areNulless_names h n ((mem_of_mem_simplify hn).resolve_left List.not_mem_nil)
  unfold Path.normalize
  dsimp only
  split
  · rfl
  · rw [hasNul_append, hroot, hasNul_intercalate_of_areNulless hkept, Bool.or_false]

/-! ### Replacing links -/

/-- No place of a link that was met has a NUL. -/
def Seen.IsNulless (seen : Seen) : Prop :=
  ∀ here place, seen.lookup here = some (some place) → AreNulless place

def Real.IsNulless : Real → Prop
  | .settled place seen => AreNulless place ∧ seen.IsNulless
  | .loose path => hasNul path = false

/-- A function that replaces the links in names, and brings no NUL in. -/
def IsNulless (replace : List String → List String → Seen → Real) : Prop :=
  ∀ place names seen, AreNulless place → AreNulless names → seen.IsNulless →
    (replace place names seen).IsNulless

theorem Seen.IsNulless.cons (h : seen.IsNulless) (here : List String) {known : Option (List String)}
    (hknown : ∀ place, known = some place → AreNulless place) :
    Seen.IsNulless ((here, known) :: seen) := by
  intro there place hlookup
  rw [Seen.lookup_cons] at hlookup
  split at hlookup
  · exact hknown place (Option.some.inj hlookup)
  · exact h there place hlookup

theorem Real.isNulless_behind (hpath : hasNul path = false) (h : AreNulless ns) :
    (Real.behind path ns).IsNulless :=
  hasNul_join hpath (hasNul_intercalate_of_areNulless h)

theorem AreNulless.below (h : AreNulless place) (hn : hasNul n = false) : AreNulless (place ++ [n]) := by
  intro m hm
  rcases List.mem_append.1 hm with hm | hm
  · exact h m hm
  · exact List.mem_singleton.1 hm ▸ hn

theorem isNulless_realWalk (hlinks : t.HasNullessLinks)
    {onLink : List String → List String → Seen → Real} (honLink : IsNulless onLink) :
    IsNulless (t.realWalk onLink) := by
  intro place names
  induction names generalizing place with
  | nil => exact fun seen hplace _ hseen => ⟨hplace, hseen⟩
  | cons n rest ih =>
    intro seen hplace hnames hseen
    obtain ⟨hn, hrest⟩ := List.forall_mem_cons.1 hnames
    have hhere : AreNulless (place ++ [n]) := hplace.below hn
    rw [realWalk]
    split
    · exact ih place seen hplace hrest hseen
    split
    · exact ih _ seen (fun m hm => hplace m (List.dropLast_subset _ hm)) hrest hseen
    dsimp only
    split
    · rename_i target hentry
      split
      · rename_i real hlookup
        exact ih real seen (hseen _ real hlookup) hrest hseen
      · exact Real.isNulless_behind (hasNul_ofNames hhere) hrest
      · -- The link is not met yet: it is marked as met while its target is walked along.
        have hstart : AreNulless (if isAbsolute target then [] else place) := by
          split
          · exact fun m hm => (List.not_mem_nil hm).elim
          · exact hplace
        have hmet : Seen.IsNulless ((place ++ [n], none) :: seen) :=
          hseen.cons _ fun _ hnone => (Option.some_ne_none _ hnone.symm).elim
        have hinner := honLink _ _ _ hstart (areNulless_names (hlinks _ _ hentry)) hmet
        split
        · rename_i real seen' hsettled
          rw [hsettled] at hinner
          refine ih real _ hinner.1 hrest (hinner.2.cons _ fun place' hplace' => ?_)
          exact Option.some.inj hplace' ▸ hinner.1
        · rename_i path hloose
          rw [hloose] at hinner
          exact Real.isNulless_behind hinner hrest
    · exact ih _ seen hhere hrest hseen

theorem isNulless_realFrom (hlinks : t.HasNullessLinks) (links : Nat) : IsNulless (t.realFrom links) := by
  induction links with
  | zero =>
    exact isNulless_realWalk hlinks fun place names _ hplace hnames _ =>
      Real.isNulless_behind (hasNul_ofNames hplace) hnames
  | succ links ih => exact isNulless_realWalk hlinks ih

theorem hasNul_realPath (hlinks : t.HasNullessLinks) (h : hasNul path = false) :
    hasNul (t.realPath path) = false := by
  have hreal : (t.real path).IsNulless :=
    isNulless_realFrom hlinks _ [] (Path.names path) [] nofun (areNulless_names h) nofun
  rw [realPath]
  cases hcase : t.real path with
  | settled place seen =>
    rw [hcase] at hreal
    exact hasNul_ofNames hreal.1
  | loose path =>
    rw [hcase] at hreal
    exact hasNul_normalize hreal

/-- Whether a fault is one of what is there. -/
def IsIoFault (e : Fault) : Prop := ∃ cause, e = .io cause

/-- Without a NUL, reading a file fails for what is there only. -/
theorem readFile_failsOnly_io (h : hasNul path = false) :
    FailsOnly IsIoFault (t.readFile directory path) := by
  have hlocate : FailsOnly IsIoFault (t.locate directory path) := by
    rw [locate, h, if_neg Bool.false_ne_true]
    split
    · exact .error ⟨_, rfl⟩
    · dsimp only
      split
      · exact .ok _
      · exact .error ⟨_, rfl⟩
  refine .bind hlocate fun found _ => ?_
  split
  · exact .ok _
  · exact .error ⟨_, rfl⟩
  · exact .error ⟨_, rfl⟩

end Montage.FileTree
