import Montage.Files.RealPath
import Montage.Proofs.Files.Following

/-!
# Where a real path leads

Links are replaced one inside another. Those that are being replaced make a chain, and each of them has
led to the names that come next (`Leadings`). So a link that is met again on its chain has no end, and a
chain never holds a link twice, so that there is always room for one more (`realFrom_replaces`). A real
path that settles therefore has no link in it, and one that does not is never followed to an end if it
is tidy: it can be opened only where it says (`find_realPath`).
-/

namespace Montage.FileTree

open Montage.Path

variable {t : FileTree} {chain : List (List String)} {seen : Seen} {place place' names names' rest :
  List String} {n target path : String} {links : Nat} {found : Found}

/-- No link in the tree goes up, or doubles a slash. -/
def HasTidyLinks (t : FileTree) : Prop :=
  ∀ place target, t.entry? place = some (.link target) → IsTidy target

def Real.isSettled : Real → Bool
  | .settled _ _ => true
  | .loose _ => false

/-- No link on the way of a path leads back to itself. -/
def Settles (t : FileTree) (path : String) : Prop := (t.real path).isSettled = true

instance (t : FileTree) (path : String) : Decidable (t.Settles path) :=
  inferInstanceAs (Decidable (_ = true))

/-- A path that comes to a link from which no names are followed to an end. -/
structure IsStuck (t : FileTree) (path : String) : Prop where
  noneAbove : ".." ∉ plainNames path
  endless : ∃ place n rest, plainNames path = place ++ n :: rest ∧ t.IsReal place ∧
    ∀ behind budget found, t.follow budget place (n :: behind) ≠ .ok found

/-- What is known of the links that were met, when those of a chain are being replaced. -/
structure Recalls (t : FileTree) (seen : Seen) (chain : List (List String)) : Prop where
  settled : ∀ above n place, seen.lookup (above ++ [n]) = some (some place) →
    t.IsReal place ∧ t.Leads 0 above [n] place []
  unsettled : ∀ here, seen.lookup here = some none ↔ here ∈ chain
  nodup : chain.Nodup
  linked : ∀ here ∈ chain, here ∈ t.entries.map Prod.fst

/-- Each link of a chain has led to the names that come next. -/
def Leadings (t : FileTree) (chain : List (List String)) (place names : List String) : Prop :=
  ∀ above n, above ++ [n] ∈ chain → ∃ rest, t.Leads 1 above [n] place (names ++ rest)

/-- What names are replaced to is where they lead, or a path that has no end if it is tidy. -/
def Real.Fits (t : FileTree) (chain : List (List String)) (place names : List String) : Real → Prop
  | .settled place' seen =>
    t.IsReal place' ∧ t.Leads 0 place names place' [] ∧ t.Recalls seen chain
  | .loose path => isAbsolute path = true ∧ (t.HasTidyLinks → AreTidy names → t.IsStuck path)

/-- A function that replaces the links in names, where so many more fit on the chain. -/
def Replaces (t : FileTree) (links : Nat) (replace : List String → List String → Seen → Real) :
    Prop :=
  ∀ chain place names seen, t.entries.length < chain.length + links → t.IsReal place →
    (∀ n ∈ names, '/' ∉ n.toList) → t.Recalls seen chain → t.Leadings chain place names →
      (replace place names seen).Fits t chain place names

/-! ### The links that were met -/

theorem mem_of_entry?_eq_link (h : t.entry? place = some (.link target)) :
    place ∈ t.entries.map Prod.fst := by
  unfold entry? at h
  split at h
  · cases h
  · obtain ⟨before, after, hentries, -⟩ := List.lookup_eq_some_iff.1 h
    exact List.mem_map.2 ⟨(place, .link target), by simp [hentries], rfl⟩

theorem Seen.lookup_cons (here there : List String) (known : Option (List String)) (seen : Seen) :
    List.lookup there ((here, known) :: seen) =
      if there = here then some known else seen.lookup there := by
  rw [List.lookup_cons]
  by_cases hthere : there = here
  · simp [hthere]
  · rw [beq_false_of_ne hthere, if_neg hthere]

namespace Recalls

theorem start (t : FileTree) : t.Recalls [] [] where
  settled := nofun
  unsettled := by simp
  nodup := .nil
  linked := nofun

theorem enter (h : t.Recalls seen chain) {here : List String} (hnew : seen.lookup here = none)
    (hlinked : here ∈ t.entries.map Prod.fst) : t.Recalls ((here, none) :: seen) (here :: chain) where
  settled := by
    intro above n place hlookup
    rw [Seen.lookup_cons] at hlookup
    split at hlookup
    · cases hlookup
    · exact h.settled above n place hlookup
  unsettled := by
    intro there
    rw [Seen.lookup_cons, List.mem_cons, ← h.unsettled]
    by_cases hthere : there = here <;> simp [hthere]
  nodup := by
    refine List.nodup_cons.2 ⟨fun hmem => ?_, h.nodup⟩
    rw [(h.unsettled here).2 hmem] at hnew
    cases hnew
  linked := List.forall_mem_cons.2 ⟨hlinked, h.linked⟩

theorem leave (h : t.Recalls seen ((place ++ [n]) :: chain)) (hreal : t.IsReal place')
    (hleads : t.Leads 0 place [n] place' []) :
    t.Recalls ((place ++ [n], some place') :: seen) chain where
  settled := by
    intro above m real hlookup
    rw [Seen.lookup_cons] at hlookup
    split at hlookup
    · rename_i hhere
      obtain ⟨rfl, rfl⟩ := List.append_singleton_inj.1 hhere
      obtain rfl : place' = real := by simpa using hlookup
      exact ⟨hreal, hleads⟩
    · exact h.settled above m real hlookup
  unsettled := by
    intro there
    have hunsettled := h.unsettled there
    rw [List.mem_cons] at hunsettled
    rw [Seen.lookup_cons]
    by_cases hthere : there = place ++ [n]
    · simp [hthere, (List.nodup_cons.1 h.nodup).1]
    · simpa [hthere] using hunsettled
  nodup := (List.nodup_cons.1 h.nodup).2
  linked := (List.forall_mem_cons.1 h.linked).2

/-- A chain holds no more links than there are. -/
theorem length_le (h : t.Recalls seen chain) : chain.length ≤ t.entries.length := by
  have hlinked : chain ⊆ t.entries.map Prod.fst := h.linked
  calc chain.length ≤ (t.entries.map Prod.fst).length := h.nodup.length_le_of_subset hlinked
    _ = t.entries.length := List.length_map _

end Recalls

namespace Leadings

theorem step (h : t.Leadings chain place names) (hstep : t.Leads 0 place names place' names') :
    t.Leadings chain place' names' := by
  intro above n hmem
  obtain ⟨rest, hleads⟩ := h above n hmem
  exact ⟨rest, hleads.trans (hstep.append rest)⟩

theorem enter (h : t.Leadings chain place (n :: rest)) (hn : IsName n)
    (hentry : t.entry? (place ++ [n]) = some (.link target)) :
    t.Leadings ((place ++ [n]) :: chain) (if isAbsolute target then [] else place)
      (Path.names target) := by
  intro above m hmem
  rcases List.mem_cons.1 hmem with hhere | hmem
  · obtain ⟨rfl, rfl⟩ := List.append_singleton_inj.1 hhere
    exact ⟨[], leads_link hn hentry⟩
  · obtain ⟨behind, hleads⟩ := h above m hmem
    have hlink : t.Leads 1 place (n :: rest ++ behind) _ (Path.names target ++ (rest ++ behind)) :=
      leads_link hn hentry
    exact ⟨rest ++ behind, (hleads.trans hlink).mono (by omega)⟩

/-- A link that is met again on its chain has no end. -/
theorem follow_ne_ok (h : t.Leadings chain place (n :: rest)) (hmem : place ++ [n] ∈ chain)
    (behind : List String) (budget : Nat) (found : Found) :
    t.follow budget place (n :: behind) ≠ .ok found := by
  obtain ⟨rest', hleads⟩ := h place n hmem
  exact hleads.follow_ne_ok behind budget found

end Leadings

/-! ### Replacing links -/

theorem IsStuck.behind (h : t.IsStuck path) (hslashless : ∀ n ∈ names, '/' ∉ n.toList)
    (habove : ".." ∉ names) (hempty : "" ∉ names.dropLast) :
    t.IsStuck (join path ("/".intercalate names)) := by
  have hjoin : plainNames (join path ("/".intercalate names)) =
      plainNames path ++ names.filter isPlain := by
    rw [plainNames_join (not_isAbsolute_intercalate hslashless hempty),
      plainNames_intercalate hslashless]
  obtain ⟨place, n, rest, hplain, hreal, hendless⟩ := h.endless
  refine ⟨?_, place, n, rest ++ names.filter isPlain, ?_, hreal, hendless⟩
  · rw [hjoin, List.mem_append]
    rintro (hmem | hmem)
    · exact h.noneAbove hmem
    · exact habove (List.mem_filter.1 hmem).1
  · rw [hjoin, hplain, List.append_assoc, List.cons_append]

theorem isStuck_ofNames (hreal : t.IsReal place) (hn : IsName n)
    (hendless : ∀ behind budget found, t.follow budget place (n :: behind) ≠ .ok found) :
    t.IsStuck (ofNames (place ++ [n])) := by
  have hnames : ∀ m ∈ place ++ [n], IsName m := by
    intro m hm
    rcases List.mem_append.1 hm with hm | hm
    · exact hreal.isName hm
    · exact List.mem_singleton.1 hm ▸ hn
  refine ⟨?_, place, n, [], plainNames_ofNames hnames, hreal, hendless⟩
  rw [plainNames_ofNames hnames]
  exact fun hmem => (hnames _ hmem).ne_above rfl

namespace Real.Fits

theorem step {r : Real} (h : r.Fits t chain place' names')
    (hleads : t.Leads 0 place names place' names') (htidy : AreTidy names → AreTidy names') :
    r.Fits t chain place names := by
  cases r with
  | settled real seen => exact ⟨h.1, hleads.trans h.2.1, h.2.2⟩
  | loose path => exact ⟨h.1, fun hlinks hnames => h.2 hlinks (htidy hnames)⟩

theorem behind (habs : isAbsolute path = true) (h : t.HasTidyLinks → t.IsStuck path)
    (hslashless : ∀ n ∈ rest, '/' ∉ n.toList) :
    (Real.behind path rest).Fits t chain place (n :: rest) :=
  ⟨isAbsolute_join habs _, fun hlinks htidy =>
    (h hlinks).behind hslashless htidy.tail.noneAbove htidy.noneEmpty_tail⟩

end Real.Fits

/-- A link leads where its target does. -/
theorem Leads.of_target (hn : IsName n) (hentry : t.entry? (place ++ [n]) = some (.link target))
    (h : t.Leads 0 (if isAbsolute target then [] else place) (Path.names target) place' []) :
    t.Leads 0 place [n] place' [] := by
  have hlink : t.Leads 1 place [n] _ (Path.names target ++ []) := leads_link hn hentry
  exact (hlink.trans (h.append [])).mono (by omega)

/-- The target of a link that was not met yet is replaced with that link on the chain. -/
theorem Replaces.target_fits {onLink : List String → List String → Seen → Real}
    (honLink : t.Replaces links onLink) (hroom : t.entries.length < chain.length + (links + 1))
    (hreal : t.IsReal place) (hrecalls : t.Recalls seen chain)
    (hleadings : t.Leadings chain place (n :: rest)) (hn : IsName n)
    (hentry : t.entry? (place ++ [n]) = some (.link target))
    (hseen : seen.lookup (place ++ [n]) = none) :
    (onLink (if isAbsolute target then [] else place) (Path.names target)
      ((place ++ [n], none) :: seen)).Fits t ((place ++ [n]) :: chain)
        (if isAbsolute target then [] else place) (Path.names target) := by
  have hstart : t.IsReal (if isAbsolute target then [] else place) := by
    split
    · exact .root
    · exact hreal
  refine honLink _ _ _ _ ?_ hstart (fun _ => slashless_of_mem_names)
    (hrecalls.enter hseen (mem_of_entry?_eq_link hentry)) (hleadings.enter hn hentry)
  rw [List.length_cons]
  omega

theorem realWalk_replaces {onLink : List String → List String → Seen → Real}
    (honLink : t.Replaces links onLink) : t.Replaces (links + 1) (t.realWalk onLink) := by
  intro chain place names
  induction names generalizing place with
  | nil => exact fun seen _ hreal _ hrecalls _ => ⟨hreal, .refl _ _, hrecalls⟩
  | cons n rest ih =>
    intro seen hroom hreal hslashless hrecalls hleadings
    obtain ⟨hslash, hrest⟩ := List.forall_mem_cons.1 hslashless
    -- the walk goes on behind the name, at the place that it leads to
    have hnext {place' : List String} {seen' : Seen} (hleads : t.Leads 0 place (n :: rest) place' rest)
        (hreal' : t.IsReal place') (hrecalls' : t.Recalls seen' chain) :
        (t.realWalk onLink place' rest seen').Fits t chain place (n :: rest) :=
      (ih place' seen' hroom hreal' hrest hrecalls' (hleadings.step hleads)).step hleads AreTidy.tail
    rw [realWalk]
    by_cases hplain : isPlain n = true
    swap
    · rw [if_pos (by simpa [isPlain, or_iff_not_imp_left] using hplain)]
      exact hnext (leads_blank (by simpa using hplain)) hreal hrecalls
    have hplain' := isPlain_iff.1 hplain
    rw [if_neg (by simpa using hplain')]
    by_cases habove : n = ".."
    · rw [if_pos habove]
      subst habove
      exact hnext leads_above hreal.dropLast hrecalls
    rw [if_neg habove]
    have hn : IsName n := ⟨hplain'.1, hplain'.2, habove, hslash⟩
    dsimp only
    split
    swap
    · rename_i hentry
      exact hnext (leads_below hn hentry) (hreal.below hn hentry) hrecalls
    rename_i target hentry
    split
    · rename_i place' hseen
      obtain ⟨hreal', hleads⟩ := hrecalls.settled place n place' hseen
      exact hnext (hleads.append rest) hreal' hrecalls
    · -- A link that is met while it is being followed leads nowhere.
      rename_i hseen
      have hmem : place ++ [n] ∈ chain := (hrecalls.unsettled _).1 hseen
      exact .behind (isAbsolute_ofNames _)
        (fun _ => isStuck_ofNames hreal hn (hleadings.follow_ne_ok hmem)) hrest
    · rename_i hseen
      have hinner := honLink.target_fits hroom hreal hrecalls hleadings hn hentry hseen
      split
      · rename_i place' seen' hsettled
        rw [hsettled] at hinner
        obtain ⟨hreal', htarget, hrecalls'⟩ := hinner
        have hleads : t.Leads 0 place [n] place' [] := .of_target hn hentry htarget
        exact hnext (hleads.append rest) hreal' (hrecalls'.leave hreal' hleads)
      · rename_i path hloose
        rw [hloose] at hinner
        exact .behind hinner.1 (fun hlinks => hinner.2 hlinks (hlinks _ _ hentry)) hrest

theorem realFrom_replaces (t : FileTree) (links : Nat) : t.Replaces links (t.realFrom links) := by
  induction links with
  | zero =>
    intro chain place names seen hroom _ _ hrecalls _
    have hlength := hrecalls.length_le
    omega
  | succ links ih => exact realWalk_replaces ih

/-! ### Opening a real path -/

theorem real_fits (t : FileTree) (path : String) : (t.real path).Fits t [] [] (Path.names path) :=
  realFrom_replaces t (t.entries.length + 1) [] [] (Path.names path) [] (by simp) .root
    (fun _ => slashless_of_mem_names) (.start t) nofun

/-- A real path is that of a place without links, or the normal form of a path that is stuck if it is
tidy. -/
theorem realPath_cases (t : FileTree) (path : String) :
    (∃ place, t.IsReal place ∧ t.realPath path = ofNames place) ∨
      ¬t.Settles path ∧ ∃ text, isAbsolute text = true ∧ t.realPath path = normalize text ∧
        (t.HasTidyLinks → IsTidy path → t.IsStuck text) := by
  have hfits := t.real_fits path
  rw [realPath]
  cases hreal : t.real path with
  | settled place seen =>
    rw [hreal] at hfits
    exact .inl ⟨place, hfits.1, rfl⟩
  | loose text =>
    rw [hreal] at hfits
    have hunsettled : ¬t.Settles path := by
      rw [Settles, hreal]
      exact nofun
    exact .inr ⟨hunsettled, text, hfits.1, rfl, hfits.2⟩

theorem isAbsolute_realPath (t : FileTree) (path : String) :
    isAbsolute (t.realPath path) = true := by
  rcases t.realPath_cases path with ⟨place, -, hpath⟩ | ⟨-, text, habs, hpath, -⟩
  · rw [hpath]
    exact isAbsolute_ofNames place
  · rw [hpath]
    exact isAbsolute_normalize habs

theorem isName_of_mem_realPath (h : n ∈ plainNames (t.realPath path)) : IsName n := by
  rcases t.realPath_cases path with ⟨place, hreal, hpath⟩ | ⟨-, text, habs, hpath, -⟩
  · rw [hpath, plainNames_ofNames fun _ => hreal.isName] at h
    exact hreal.isName h
  · rw [hpath] at h
    exact isName_of_mem_normalize habs h

/-- The normal form of a path that is stuck at a link is stuck there as well. -/
theorem IsStuck.find_ne_ok (h : t.IsStuck path) (habs : isAbsolute path = true) :
    t.find (normalize path) ≠ .ok found := by
  intro hfind
  have habove : ".." ∉ Path.names path := fun hmem =>
    h.noneAbove (List.mem_filter.2 ⟨hmem, rfl⟩)
  obtain ⟨blanks, hblanks, hnames⟩ := names_normalize habs habove
  obtain ⟨place, n, rest, hplain, hreal, hendless⟩ := h.endless
  rw [find] at hfind
  split at hfind
  · cases hfind
  · have hleads : t.Leads 0 [] (blanks ++ (place ++ n :: rest)) place (n :: rest) :=
      (leads_blanks hblanks).trans (hreal.leads.append (n :: rest))
    rw [hnames, hplain, ← List.append_nil (blanks ++ _)] at hfind
    obtain ⟨budget, -, hfollow⟩ := hleads [] maxLinks found hfind
    exact hendless _ budget found hfollow

/-- A real path that can be opened has no link in it, and is opened where it says, if no link on its way
leads back to itself, or if neither the path nor a link goes up or doubles a slash. -/
theorem find_realPath (hway : t.Settles path ∨ t.HasTidyLinks ∧ IsTidy path)
    (hfind : t.find (t.realPath path) = .ok found) :
    t.IsReal found.place ∧ t.realPath path = ofNames found.place := by
  rcases t.realPath_cases path with ⟨place, hreal, hpath⟩ | ⟨hunsettled, text, habs, hpath, hstuck⟩
  · rw [hpath] at hfind ⊢
    rw [hreal.find_ofNames hfind]
    exact ⟨hreal, rfl⟩
  · obtain ⟨hlinks, htidy⟩ := hway.resolve_left hunsettled
    rw [hpath] at hfind
    exact absurd hfind ((hstuck hlinks htidy).find_ne_ok habs)

end Montage.FileTree
