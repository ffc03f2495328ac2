import Mathlib.Data.List.Induction
import Montage.Files.Tree
import Montage.Proofs.Files.Names

/-!
# Following a path

A walk along names takes a step for each of them (`walk_eq_ok`). A path that can be followed to its end
can be followed in parts (`Leads`), each of which uses up some of the links that may be followed. So names
that lead back to themselves over a link are never followed to an end (`Leads.follow_ne_ok`), and a place
without links on the way to it is where its own path ends (`IsReal.find_ofNames`).
-/

namespace Montage.FileTree

open Montage.Path

variable {t : FileTree} {place place' place'' names names' names'' rest : List String} {n : String}
  {links links' budget : Nat} {found : Found}
  {onLink : List String → List String → Except IoCause Found}

/-! ### The steps of a walk -/

/-- Nothing but a file is in the way of one. -/
def CanHold (t : FileTree) (place : List String) : Prop :=
  t.entry? place = none ∨ ∃ data, t.entry? place = some (.file data)

theorem CanHold.ne_link (h : t.CanHold place) (target : String) :
    t.entry? place ≠ some (.link target) := by
  obtain hnone | ⟨data, hdata⟩ := h
  · rw [hnone]
    exact nofun
  · rw [hdata]
    exact nofun

theorem CanHold.ne_directory (h : t.CanHold place) : t.entry? place ≠ some .directory := by
  obtain hnone | ⟨data, hdata⟩ := h
  · rw [hnone]
    exact nofun
  · rw [hdata]
    exact nofun

/-- A name that is looked up in a directory. -/
structure IsStep (n : String) : Prop where
  isPlain : isPlain n = true
  ne_above : n ≠ ".."
  short : n.utf8ByteSize ≤ maxNameSize

/-- How the first of some names is followed by a walk that gets to its end. -/
inductive Walked (t : FileTree) (onLink : List String → List String → Except IoCause Found)
    (place : List String) (n : String) (rest : List String) (found : Found) : Prop
  | blank (hn : isPlain n = false) (hrest : t.walk onLink place rest = .ok found)
  | above (hn : n = "..") (hrest : t.walk onLink place.dropLast rest = .ok found)
  | last (hn : IsStep n) (hend : rest = [])
      (hentry : t.CanHold (place ++ [n]))
      (hfound : found = ⟨place ++ [n], t.entry? (place ++ [n])⟩)
  | inside (hn : IsStep n) (hentry : t.entry? (place ++ [n]) = some .directory)
      (hrest : t.walk onLink (place ++ [n]) rest = .ok found)
  | link {target : String} (hn : IsStep n) (hentry : t.entry? (place ++ [n]) = some (.link target))
      (hrest : onLink (if isAbsolute target then [] else place) (Path.names target ++ rest) =
        .ok found)

theorem walk_blank (hn : isPlain n = false) :
    t.walk onLink place (n :: rest) = t.walk onLink place rest := by
  have hblank : (n = "" || n = ".") = true := by
    simpa [isPlain, or_iff_not_imp_left] using hn
  rw [walk, if_pos hblank]

theorem walk_above : t.walk onLink place (".." :: rest) = t.walk onLink place.dropLast rest := by
  rw [walk, if_neg (by decide), if_pos rfl]

theorem walk_step (hn : IsStep n) : t.walk onLink place (n :: rest) =
    match t.entry? (place ++ [n]) with
      | none => if rest.isEmpty then .ok ⟨place ++ [n], none⟩ else .error .notFound
      | some (.file data) =>
        if rest.isEmpty then .ok ⟨place ++ [n], some (.file data)⟩ else .error .notDirectory
      | some .directory => t.walk onLink (place ++ [n]) rest
      | some (.link target) =>
        onLink (if isAbsolute target then [] else place) (Path.names target ++ rest) := by
  have hblank : ¬ (n = "" || n = ".") = true := by simpa using isPlain_iff.1 hn.isPlain
  rw [walk]
  exact (if_neg hblank).trans ((if_neg hn.ne_above).trans (if_neg (Nat.not_lt.2 hn.short)))

theorem walk_inside (hn : IsStep n) (hentry : t.entry? (place ++ [n]) = some .directory) :
    t.walk onLink place (n :: rest) = t.walk onLink (place ++ [n]) rest := by
  rw [walk_step hn, hentry]

theorem walk_link {target : String} (hn : IsStep n)
    (hentry : t.entry? (place ++ [n]) = some (.link target)) : t.walk onLink place (n :: rest) =
      onLink (if isAbsolute target then [] else place) (Path.names target ++ rest) := by
  rw [walk_step hn, hentry]

/-- The last name leads to what is there, unless that is a link. -/
theorem walk_last (hn : IsStep n) (hlink : ∀ target, t.entry? (place ++ [n]) ≠ some (.link target)) :
    t.walk onLink place [n] = .ok ⟨place ++ [n], t.entry? (place ++ [n])⟩ := by
  rw [walk_step hn]
  split
  · rename_i hentry
    rw [hentry]
    rfl
  · rename_i hentry
    rw [hentry]
    rfl
  · rw [walk]
  · rename_i hentry
    exact absurd hentry (hlink _)

theorem walk_eq_ok : t.walk onLink place (n :: rest) = .ok found ↔
    Walked t onLink place n rest found := by
  constructor
  · intro h
    -- The cases are those of the walk, in its order; where there is an error, nothing is found.
    cases hplain : isPlain n with
    | false => exact .blank hplain (walk_blank hplain ▸ h)
    | true =>
      by_cases habove : n = ".."
      · subst habove
        exact .above rfl (walk_above ▸ h)
      by_cases hlong : maxNameSize < n.utf8ByteSize
      · have hblank : ¬ (n = "" || n = ".") = true := by simpa using isPlain_iff.1 hplain
        rw [walk, if_neg hblank, if_neg habove, if_pos hlong] at h
        cases h
      have hn : IsStep n := ⟨hplain, habove, Nat.not_lt.1 hlong⟩
      rw [walk_step hn] at h
      split at h
      · rename_i hentry
        split at h
        · rename_i hend
          exact .last hn (List.isEmpty_iff.1 hend) (.inl hentry) (hentry ▸ (Except.ok.inj h).symm)
        · cases h
      · rename_i data hentry
        split at h
        · rename_i hend
          exact .last hn (List.isEmpty_iff.1 hend) (.inr ⟨data, hentry⟩)
            (hentry ▸ (Except.ok.inj h).symm)
        · cases h
      · rename_i hentry
        exact .inside hn hentry h
      · rename_i hentry
        exact .link hn hentry h
  · intro h
    cases h with
    | blank hn hrest => rwa [walk_blank hn]
    | above hn hrest => rwa [hn, walk_above]
    | last hn hend hentry hfound =>
      rw [hend, hfound]
      exact walk_last hn hentry.ne_link
    | inside hn hentry hrest => rwa [walk_inside hn hentry]
    | link hn hentry hrest => rwa [walk_link hn hentry]

/-! ### Ways that lead on -/

/-- Names that are followed from one place on come to other names at another place, over at least so
many links, whatever stands behind them. -/
def Leads (t : FileTree) (links : Nat) (place names place' names' : List String) : Prop :=
  ∀ rest budget found, t.follow budget place (names ++ rest) = .ok found →
    ∃ budget', budget' + links ≤ budget ∧ t.follow budget' place' (names' ++ rest) = .ok found

namespace Leads

theorem refl (place names : List String) : t.Leads 0 place names place names :=
  fun _ budget _ h => ⟨budget, Nat.le_refl _, h⟩

theorem trans (h : t.Leads links place names place' names')
    (h' : t.Leads links' place' names' place'' names'') :
    t.Leads (links + links') place names place'' names'' := by
  intro rest budget found hfollow
  obtain ⟨budget₁, hbudget₁, hfollow₁⟩ := h rest budget found hfollow
  obtain ⟨budget₂, hbudget₂, hfollow₂⟩ := h' rest budget₁ found hfollow₁
  exact ⟨budget₂, by omega, hfollow₂⟩

theorem mono (h : t.Leads links place names place' names') (hle : links' ≤ links) :
    t.Leads links' place names place' names' := by
  intro rest budget found hfollow
  obtain ⟨budget', hbudget', hfollow'⟩ := h rest budget found hfollow
  exact ⟨budget', by omega, hfollow'⟩

theorem append (h : t.Leads links place names place' names') (behind : List String) :
    t.Leads links place (names ++ behind) place' (names' ++ behind) := by
  intro rest budget found hfollow
  rw [List.append_assoc] at hfollow ⊢
  exact h (behind ++ rest) budget found hfollow

/-- Names that lead back to themselves over a link have no end. -/
theorem follow_ne_ok (h : t.Leads 1 place [n] place (n :: names)) (rest : List String)
    (budget : Nat) (found : Found) : t.follow budget place (n :: rest) ≠ .ok found := by
  induction budget using Nat.strongRecOn generalizing rest with
  | ind budget ih =>
    intro hfollow
    obtain ⟨budget', hbudget', hfollow'⟩ := h rest budget found hfollow
    exact ih budget' (by omega) (names ++ rest) hfollow'

end Leads

/-! ### One name -/

/-- What is left to another budget is what stands behind a link. -/
theorem exists_follow_eq (t : FileTree) (budget : Nat) :
    ∃ onLink, t.follow budget = t.walk onLink ∧ ∀ place names found,
      onLink place names = .ok found →
        ∃ budget', budget' + 1 ≤ budget ∧ t.follow budget' place names = .ok found := by
  cases budget with
  | zero => exact ⟨_, rfl, nofun⟩
  | succ budget => exact ⟨_, rfl, fun _ _ _ h => ⟨budget, Nat.le_refl _, h⟩⟩

theorem leads_blank (h : isPlain n = false) : t.Leads 0 place (n :: names) place names := by
  intro rest budget found hfollow
  obtain ⟨onLink, hwalk, -⟩ := t.exists_follow_eq budget
  refine ⟨budget, Nat.le_refl _, ?_⟩
  rw [hwalk] at hfollow ⊢
  rwa [List.cons_append, walk_blank h] at hfollow

theorem leads_above : t.Leads 0 place (".." :: names) place.dropLast names := by
  intro rest budget found hfollow
  obtain ⟨onLink, hwalk, -⟩ := t.exists_follow_eq budget
  refine ⟨budget, Nat.le_refl _, ?_⟩
  rw [hwalk] at hfollow ⊢
  rwa [List.cons_append, walk_above] at hfollow

theorem leads_below (hn : IsName n) (h : ∀ target, t.entry? (place ++ [n]) ≠ some (.link target)) :
    t.Leads 0 place (n :: names) (place ++ [n]) names := by
  intro rest budget found hfollow
  obtain ⟨onLink, hwalk, -⟩ := t.exists_follow_eq budget
  refine ⟨budget, Nat.le_refl _, ?_⟩
  rw [hwalk] at hfollow ⊢
  rw [List.cons_append] at hfollow
  cases walk_eq_ok.1 hfollow with
  | blank hblank => exact absurd hn.isPlain (Bool.eq_false_iff.1 hblank)
  | above habove => exact absurd habove hn.ne_above
  | last _ hend _ hfound => rw [hend, walk, hfound]
  | inside _ _ hrest => exact hrest
  | link _ hentry => exact absurd hentry (h _)

theorem leads_link {target : String} (hn : IsName n)
    (h : t.entry? (place ++ [n]) = some (.link target)) :
    t.Leads 1 place (n :: names) (if isAbsolute target then [] else place)
      (Path.names target ++ names) := by
  intro rest budget found hfollow
  obtain ⟨onLink, hwalk, honLink⟩ := t.exists_follow_eq budget
  rw [hwalk, List.cons_append] at hfollow
  cases walk_eq_ok.1 hfollow with
  | blank hblank => exact absurd hn.isPlain (Bool.eq_false_iff.1 hblank)
  | above habove => exact absurd habove hn.ne_above
  | last _ _ hentry => exact absurd h (hentry.ne_link target)
  | inside _ hentry =>
    rw [h] at hentry
    cases hentry
  | link _ hentry hrest =>
    rw [h] at hentry
    obtain rfl : target = _ := FileEntry.link.inj (Option.some.inj hentry)
    rw [List.append_assoc]
    exact honLink _ _ _ hrest

theorem leads_blanks {blanks : List String} (h : ∀ n ∈ blanks, n = "") :
    t.Leads 0 place (blanks ++ names) place names := by
  induction blanks with
  | nil => exact .refl _ _
  | cons n blanks ih =>
    obtain ⟨rfl, hblanks⟩ := List.forall_mem_cons.1 h
    exact (leads_blank rfl).trans (ih hblanks)

/-! ### Places without links -/

/-- Neither the place nor one of those above it is a link. -/
def IsReal (t : FileTree) (place : List String) : Prop :=
  ∀ above n, above ++ [n] <+: place →
    IsName n ∧ ∀ target, t.entry? (above ++ [n]) ≠ some (.link target)

namespace IsReal

theorem root : t.IsReal [] := by
  intro above n hbelow
  simp at hbelow

theorem of_isPrefix (h : t.IsReal place) (hbelow : place' <+: place) : t.IsReal place' :=
  fun above n habove => h above n (habove.trans hbelow)

theorem dropLast (h : t.IsReal place) : t.IsReal place.dropLast :=
  h.of_isPrefix (List.dropLast_prefix place)

theorem below (h : t.IsReal place) (hn : IsName n)
    (hentry : ∀ target, t.entry? (place ++ [n]) ≠ some (.link target)) : t.IsReal (place ++ [n]) := by
  intro above m hbelow
  rcases List.prefix_concat_iff.1 hbelow with heq | hbelow
  · obtain ⟨rfl, hm⟩ := List.append_inj' heq rfl
    obtain rfl : m = n := List.singleton_inj.1 hm
    exact ⟨hn, hentry⟩
  · exact h above m hbelow

theorem isName (h : t.IsReal place) (hn : n ∈ place) : IsName n := by
  obtain ⟨above, below, rfl⟩ := List.append_of_mem hn
  exact (h above n ⟨below, by simp⟩).1

theorem leads (h : t.IsReal place) : t.Leads 0 [] place place [] := by
  induction place using List.reverseRecOn with
  | nil => exact .refl _ _
  | append_singleton above n ih =>
    obtain ⟨hn, hentry⟩ := h above n List.prefix_rfl
    have habove : t.Leads 0 [] (above ++ [n]) above [n] :=
      (ih (h.of_isPrefix (List.prefix_append _ _))).append [n]
    exact habove.trans (leads_below hn hentry)

/-- The names of a place without links end at that place. -/
theorem place_of_follow (h : t.IsReal place) (hfollow : t.follow budget [] place = .ok found) :
    found.place = place := by
  rw [← List.append_nil place] at hfollow
  obtain ⟨budget', -, hend⟩ := h.leads [] budget found hfollow
  obtain ⟨onLink, hwalk, -⟩ := t.exists_follow_eq budget'
  rw [hwalk] at hend
  cases hend
  rfl

/-- The path of a place without links leads to that place. -/
theorem find_ofNames (h : t.IsReal place) (hfind : t.find (ofNames place) = .ok found) :
    found.place = place := by
  have hnames : ∃ blanks, (∀ n ∈ blanks, n = "") ∧ names (ofNames place) = blanks ++ place := by
    by_cases hroot : place = []
    · exact ⟨["", ""], by simp, by rw [hroot]; rfl⟩
    · exact ⟨[""], by simp, names_ofNames (fun n hn => (h.isName hn).slashless) hroot⟩
  obtain ⟨blanks, hblanks, hnames⟩ := hnames
  rw [find] at hfind
  split at hfind
  · cases hfind
  · rw [hnames, ← List.append_nil (blanks ++ place)] at hfind
    obtain ⟨budget, -, hfollow⟩ := leads_blanks hblanks [] maxLinks found hfind
    rw [List.append_nil] at hfollow
    exact h.place_of_follow hfollow

end IsReal

end Montage.FileTree
