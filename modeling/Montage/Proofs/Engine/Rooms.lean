import Montage.Proofs.Engine.Served

/-!
# Room for workspaces

When the engine of a studio loads, it stays loaded, and as long as there is room for workspaces each run
gets one of its own (`newWorkspace?_ends`). A workspace that is left behind is not in the way of the next
ones (`HasRoom.next`).
-/

namespace Montage

open Session Studio FileTree Montage.Path

variable {σ : Type} {s s' : Studio σ} {base t : FileTree} {directory path n d : String}
  {place : List String} {cacheDirectory : Option String} {count : Nat}

/-! ### Loading the engine -/

/-- What a program says of its version. -/
def VersionReply.loaded (path : String) : VersionReply → Except Fault LoadedEngine
  | .failed problem => .error (.engineLoad s!"could not start {path}: {problem}")
  | .exited status output =>
    if status ≠ 0 then .error (.engineLoad s!"{path} -version exited with {status}")
    else .ok ⟨path, (Text.lines output).headD "unknown"⟩

/-- What comes of loading the engine, which depends on the programs and on their replies. -/
def loadOutcome (binary : Value) (x : Site) (versions : List VersionReply) :
    Except Fault LoadedEngine :=
  match ((which binary : Session Unit (Option String)).exec { site := x, front := () }).1 with
  | .ok (some path) => (versions.headD usualVersion).loaded path
  | _ => .error (.engineLoad (binary.display ++ " not found on PATH"))

theorem exec_nextVersion : ∃ versions, (nextVersion : Session σ VersionReply).exec s =
    (.ok (s.versions.headD usualVersion), { s with versions }) := by
  unfold nextVersion
  rw [exec_bind, exec_get]
  dsimp only
  have hhead (reply : VersionReply) (rest : List VersionReply) (h : s.versions = reply :: rest) :
      s.versions.headD usualVersion = reply := by
    rw [h]
    rfl
  split
  · rename_i hnil
    exact ⟨s.versions, by rw [show s.versions.headD usualVersion = usualVersion by rw [hnil]; rfl]; rfl⟩
  · rename_i reply hone
    exact ⟨s.versions, by rw [hhead reply [] hone]; rfl⟩
  · rename_i reply rest _ hmore
    exact ⟨rest, by rw [hhead reply rest hmore]; rfl⟩

theorem exec_loadEngine (binary : Value) : ∃ versions,
    (Session.loadEngine binary : Session σ LoadedEngine).exec s =
      (loadOutcome binary s.site s.versions, { s with versions }) := by
  have hwhich : ∃ found, (which binary : Session σ (Option String)).exec s = (.ok found, s) ∧
      ((which binary : Session Unit (Option String)).exec { site := s.site, front := () }).1 =
        .ok found := by
    unfold which
    split
    · exact ⟨_, rfl, rfl⟩
    · exact ⟨_, rfl, rfl⟩
  obtain ⟨found, hwhich, hfound⟩ := hwhich
  rw [Session.loadEngine, exec_bind, hwhich, loadOutcome, hfound]
  dsimp only
  cases found with
  | none => exact ⟨s.versions, rfl⟩
  | some path =>
    obtain ⟨versions, hnext⟩ := @exec_nextVersion _ s
    refine ⟨versions, ?_⟩
    dsimp only
    rw [exec_bind, hnext]
    dsimp only
    cases s.versions.headD usualVersion with
    | failed problem => rfl
    | exited status output =>
      dsimp only [VersionReply.loaded]
      by_cases hstatus : status = 0
      · rw [if_neg (not_not.2 hstatus), if_neg (not_not.2 hstatus)]
        rfl
      · rw [if_pos hstatus, if_pos hstatus]
        rfl

/-- What comes of asking for the engine. -/
def Studio.engineOutcome (s : Studio σ) (binary : Value) : Except Fault LoadedEngine :=
  match s.engine with
  | some loaded => .ok loaded
  | none => loadOutcome binary s.site s.versions

theorem Studio.Idles.engineOutcome (h : s.Idles s') (binary : Value) :
    s'.engineOutcome binary = s.engineOutcome binary := by
  rw [Studio.engineOutcome, h.engine, h.site, h.versions, Studio.engineOutcome]

theorem engineOutcome_of_loaded (h : s.engine.isSome = true) (binary : Value) :
    (s.engineOutcome binary).isOk = true := by
  obtain ⟨loaded, hloaded⟩ := Option.isSome_iff_exists.1 h
  rw [Studio.engineOutcome, hloaded]
  rfl

/-- The engine fails to load with a fault of its own. -/
theorem exists_problem_of_engineOutcome {binary : Value} {e : Fault}
    (h : s.engineOutcome binary = .error e) : ∃ problem, e = .engineLoad problem := by
  unfold Studio.engineOutcome at h
  split at h
  · cases h
  unfold loadOutcome at h
  split at h
  · unfold VersionReply.loaded at h
    split at h
    · exact ⟨_, (Except.error.inj h).symm⟩
    · split at h
      · exact ⟨_, (Except.error.inj h).symm⟩
      · cases h
  · exact ⟨_, (Except.error.inj h).symm⟩

theorem exec_findEngine (binary : Value) : ∃ s',
    (Session.findEngine binary : Session σ LoadedEngine).exec s = (s.engineOutcome binary, s') ∧
      s.AtRest s' ∧ s'.pool = s.pool ∧
      ∀ loaded, s.engineOutcome binary = .ok loaded → s'.engine = some loaded := by
  rw [Session.findEngine, exec_bind, exec_get, Studio.engineOutcome]
  dsimp only
  cases hengine : s.engine with
  | some loaded =>
    refine ⟨s, rfl, AtRest.refl s, rfl, fun loaded' hloaded => ?_⟩
    rw [hengine, ← Except.ok.inj hloaded]
  | none =>
    obtain ⟨versions, hload⟩ := @exec_loadEngine _ s binary
    dsimp only
    rw [exec_bind, hload]
    cases loadOutcome binary s.site s.versions with
    | error e => exact ⟨_, rfl, ⟨rfl, rfl, rfl, rfl, rfl⟩, rfl, nofun⟩
    | ok loaded => exact ⟨_, rfl, ⟨rfl, rfl, rfl, rfl, rfl⟩, rfl, fun _ h => congrArg some (Except.ok.inj h)⟩

/-! ### Workspaces to come -/

/-- A path at which a workspace can be made, with room for the names of its files. -/
structure FileTree.IsOpening (t : FileTree) (directory path : String) (place : List String) : Prop where
  spot_eq : t.spot directory path = .ok place
  free : t.entry? place = none
  room : path.utf8ByteSize + maxNameSize < maxPathSize

theorem FileTree.makeDirectory_eq (hn : IsName n) (h : t.spot directory (join d n) = .ok place)
    (hfree : t.entry? place = none) :
    t.makeDirectory directory (join d n) = .ok (t.insert place .directory) := by
  obtain ⟨-, -, -, -, parent, -, hplace⟩ := spot_eq_ok.1 h
  rw [(exists_names_headOf directory d hn).1] at hplace
  have hlast : place.getLast?.getD "" = n := by
    rw [hplace, List.getLast?_concat]
    rfl
  rw [makeDirectory, h]
  change (if _ then _ else _) = _
  rw [if_neg]
  · rfl
  · simp [hlast, hfree, hn.ne_empty, hn.ne_here, hn.ne_above]

namespace Studio

/-- The path of the workspace with this number. -/
def pathOf (s : Studio σ) (cacheDirectory : Option String) (number : Nat) : String :=
  join (cacheDirectory.getD s.site.tempDirectory) (Engine.workspaceName number)

/-- The directory of the workspaces is there, or can be made. -/
def CanGround (s : Studio σ) (d : String) : Prop :=
  s.tree.holds s.site.directory d = true ∨
    (s.tree.makeDirectories s.site.directory d).2 = none ∧
      (s.ground (some d)).holds s.site.directory d = true

/-- So many more workspaces can be made. -/
structure HasRoom (s : Studio σ) (cacheDirectory : Option String) (count : Nat) : Prop where
  grounded : ∀ d, cacheDirectory = some d → s.CanGround d
  opening : ∀ number, s.workspaceCount < number → number ≤ s.workspaceCount + count →
    ∃ place, (s.ground cacheDirectory).IsOpening s.site.directory (s.pathOf cacheDirectory number) place

end Studio

theorem Studio.pathOf_congr (h : s'.site = s.site) (cacheDirectory : Option String) :
    s'.pathOf cacheDirectory = s.pathOf cacheDirectory := by
  funext number
  rw [Studio.pathOf, Studio.pathOf, h]

theorem Studio.HasRoom.of_atRest (h : s.HasRoom cacheDirectory count) (hrest : s.AtRest s') :
    s'.HasRoom cacheDirectory count := by
  refine ⟨fun d hd => ?_, fun number hlow hhigh => ?_⟩
  · rw [CanGround, hrest.tree, hrest.site, hrest.ground]
    exact h.grounded d hd
  · rw [hrest.workspaceCount] at hlow hhigh
    rw [hrest.ground, hrest.site, pathOf_congr hrest.site]
    exact h.opening number hlow hhigh

theorem Studio.HasRoom.mono {less : Nat} (h : s.HasRoom cacheDirectory count) (hless : less ≤ count) :
    s.HasRoom cacheDirectory less :=
  ⟨h.grounded, fun number hlow hhigh => h.opening number hlow (by omega)⟩

namespace Engine

theorem numbered_ends {t' : FileTree}
    (h : t.makeDirectory s.site.directory (s.workspacePath cacheDirectory) = .ok t') :
    Ends (numbered cacheDirectory) { s with tree := t } (s.workspacePath cacheDirectory)
      { s with tree := t', workspaceCount := s.workspaceCount + 1 } := by
  have hpath : ({ s with tree := t } : Studio σ).workspacePath cacheDirectory =
      s.workspacePath cacheDirectory := rfl
  rw [Ends, exec_numbered, hpath]
  dsimp only
  rw [h]

/-- A run that asks for a workspace when there is room gets one of its own. -/
theorem newWorkspace?_ends (h : s.HasRoom cacheDirectory (count + 1)) (hs : s.tree.IsSound) :
    ∃ t place, Ends (newWorkspace? cacheDirectory) s (s.workspacePath cacheDirectory)
        { s with tree := t, workspaceCount := s.workspaceCount + 1 } ∧
      (s.ground cacheDirectory).IsRoomy s.site.directory (s.workspacePath cacheDirectory) place ∧
      IsWorkspace (s.ground cacheDirectory) place [] t := by
  obtain ⟨place, hspot, hfree, hroom⟩ := h.opening (s.workspaceCount + 1) (by omega) (by omega)
  have hmade := makeDirectory_eq (isName_workspaceName _) hspot hfree
  have hsound := (s.grows_ground cacheDirectory).isSound hs
  obtain ⟨place', hspot', hworkspace⟩ := isWorkspace_of_makeDirectory hsound (isName_workspaceName _) hmade
  refine ⟨_, place', ?_, ⟨hspot', hroom⟩, hworkspace⟩
  have hnumbered := numbered_ends hmade
  cases cacheDirectory with
  | none => exact hnumbered
  | some d =>
    rw [newWorkspace?_some]
    refine ends_bind.2 ⟨_, s, exec_holds d s, ?_⟩
    by_cases hholds : s.tree.holds s.site.directory d = true
    · have hground : s.ground (some d) = s.tree := if_pos hholds
      have hsame : { s with tree := s.ground (some d) } = s := by rw [hground]
      rw [hsame] at hnumbered
      rw [if_pos hholds]
      exact hnumbered
    · have hground : s.ground (some d) = (s.tree.makeDirectories s.site.directory d).1 := if_neg hholds
      have hmissing := exec_makeDirectories d s
      rw [((h.grounded d rfl).resolve_left hholds).1, ← hground] at hmissing
      rw [if_neg hholds]
      exact ends_bind.2 ⟨(), _, hmissing, hnumbered⟩

theorem workspaceName_injective : Function.Injective workspaceName := by
  intro i j h
  have heq := congrArg String.toList h
  rw [toList_workspaceName, toList_workspaceName] at heq
  rw [← Graph.Label.readNumber_toDigits i, List.append_cancel_left heq,
    Graph.Label.readNumber_toDigits]

end Engine

/-- The directory of the workspaces stays there in a larger tree. -/
theorem Studio.ground_of_extends (hground : ∀ d, cacheDirectory = some d → s.CanGround d)
    (hext : (s.ground cacheDirectory).Extends s'.tree) (hsite : s'.site = s.site) :
    (∀ d, cacheDirectory = some d → s'.tree.holds s'.site.directory d = true) ∧
      s'.ground cacheDirectory = s'.tree := by
  have hheld (d : String) (hd : cacheDirectory = some d) :
      s'.tree.holds s'.site.directory d = true := by
    have hthere : (s.ground cacheDirectory).holds s.site.directory d = true := by
      subst hd
      by_cases hholds : s.tree.holds s.site.directory d = true
      · rw [show s.ground (some d) = s.tree from if_pos hholds, hholds]
      · exact ((hground d rfl).resolve_left hholds).2
    rw [hsite]
    unfold FileTree.holds entryAt? at hthere ⊢
    split at hthere
    · rename_i found hlocate
      have hentry := entry_of_locate hlocate
      rw [hext.locate hlocate]
      obtain ⟨e, he⟩ := Option.isSome_iff_exists.1 hthere
      rw [hentry] at he
      cases e with
      | directory => simp [hext.directory _ he]
      | link target => simp [hext.link _ _ he]
      | file data =>
        obtain ⟨data', hdata⟩ := hext.file _ _ he
        simp [hdata]
    · cases hthere
  exact ⟨hheld, ground_of_held hheld⟩

/-- In a larger tree there is room as before, as long as the places of the workspaces stay free. -/
theorem Studio.HasRoom.extends {less : Nat} (h : s.HasRoom cacheDirectory count)
    (hext : (s.ground cacheDirectory).Extends s'.tree) (hsite : s'.site = s.site)
    (hlow : s.workspaceCount ≤ s'.workspaceCount)
    (hhigh : s'.workspaceCount + less ≤ s.workspaceCount + count)
    (hfree : ∀ number place, s'.workspaceCount < number →
      (s.ground cacheDirectory).IsOpening s.site.directory (s.pathOf cacheDirectory number) place →
      s'.tree.entry? place = none) : s'.HasRoom cacheDirectory less := by
  obtain ⟨hheld, hground⟩ := ground_of_extends h.grounded hext hsite
  refine ⟨fun d hd => .inl (hheld d hd), fun number hnumber hbound => ?_⟩
  obtain ⟨place, hopening⟩ := h.opening number (by omega) (by omega)
  refine ⟨place, ?_⟩
  rw [hground, hsite, pathOf_congr hsite]
  exact ⟨hext.spot hopening.spot_eq, hfree number place hnumber hopening, hopening.room⟩

theorem FileTree.IsOpening.exists_parent {number : Nat}
    (h : t.IsOpening directory (join d (Engine.workspaceName number)) place) :
    ∃ parent, place = parent ++ [Engine.workspaceName number] ∧ t.entry? parent = some .directory := by
  obtain ⟨-, -, -, -, parent, hparent, hplace⟩ := spot_eq_ok.1 h.spot_eq
  rw [(exists_names_headOf directory d (isName_workspaceName number)).1] at hplace
  exact ⟨parent, hplace, (entry_of_locate hparent).symm⟩

/-- A workspace is in no other's way. -/
theorem FileTree.IsOpening.not_below {number other : Nat} {place' : List String} (hs : base.IsSound)
    (h : base.IsOpening directory (join d (Engine.workspaceName number)) place)
    (h' : base.IsOpening directory (join d (Engine.workspaceName other)) place') (hne : other ≠ number) :
    ¬ place <+: place' := by
  obtain ⟨parent, hplace, -⟩ := h.exists_parent
  obtain ⟨parent', hplace', hentry⟩ := h'.exists_parent
  rintro ⟨below, hbelow⟩
  obtain rfl | ⟨front, last, rfl⟩ := List.eq_nil_or_concat below
  · rw [List.append_nil, hplace, hplace'] at hbelow
    exact hne (Engine.workspaceName_injective (List.append_singleton_inj.1 hbelow).2).symm
  · -- The directory above the other place would lie below this one, where there is nothing.
    rw [List.concat_eq_append, ← List.append_assoc, hplace'] at hbelow
    rw [← (List.append_singleton_inj.1 hbelow).1, hs.entry?_below h.free] at hentry
    cases hentry

end Montage
