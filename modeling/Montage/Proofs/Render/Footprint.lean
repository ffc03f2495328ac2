import Montage.Proofs.Engine.Confined
import Montage.Proofs.Render.Runs

/-!
# What a run leaves behind

Whatever the engine does in its workspaces, a run leaves the files as they were, but for the directory of
the workspaces when that was missing, and for its own workspace when that is to be kept (`run_leaves`).
The output of a run is what the engine left in that workspace (`Yields`).
-/

namespace Montage

open Montage.Graph Session Studio FileTree Montage.Path

variable {σ : Type}

namespace Renderer

/-- A driver of tidy engines, whose listeners change no files and do not use the engine. -/
structure IsWatched (r : Renderer σ) : Prop where
  loadEngine : Respects AtRest r.loadEngine
  engine : ∀ {s engine s'}, Ends r.loadEngine s engine s' → engine.IsTidy
  onProgress : ∀ percent, Respects AtRest (r.onProgress percent)
  onLine : ∀ line, Respects AtRest (r.onLine line)

theorem isWatched_of_shared {r : Renderer σ} {binary : Value}
    (hload : r.loadEngine = Engine.shared binary)
    (hprogress : ∀ percent, Respects AtRest (r.onProgress percent))
    (hline : ∀ line, Respects AtRest (r.onLine line)) : r.IsWatched where
  loadEngine := by
    rw [hload]
    exact respects_bind AtRest.trans (AtRest.findEngine binary) fun _ => respects_pure AtRest.refl _
  engine := by
    intro s engine s' hends
    rw [hload] at hends
    obtain ⟨path, rfl⟩ := Engine.shared_ends hends
    exact Engine.installed_isTidy (some path)
  onProgress := hprogress
  onLine := hline

/-- A program whose files have names, none of which is that of its output. -/
structure HasOwnNames (p : Program Binary64) (payloads : Payloads) : Prop where
  isName : ∀ file ∈ written p payloads, IsName file.1
  output_isName : IsName (outputNameOf p)
  output_fresh : ∀ file ∈ written p payloads, file.1 ≠ outputNameOf p

/-- What is left of a run in the files of a studio. -/
inductive Leaves (r : Renderer σ) (s s' : Studio σ) : Prop
  | nothing (h : ∀ place, s'.tree.entry? place = s.tree.entry? place)
  | ground (h : ∀ place, s'.tree.entry? place = FileTree.entry? (s.ground r.cacheDirectory) place)
  | workspace {place files : List String} (hkept : r.keepTemp = true)
      (hspot : (s.ground r.cacheDirectory).IsSpot s.site.directory
        (s.workspacePath r.cacheDirectory) place)
      (h : IsWorkspace (s.ground r.cacheDirectory) place files s'.tree)

/-- The result of a run is what was in the file of the output, in the workspace of the run, when the
engine was done with the program. The run itself wrote no file of this name there. -/
structure Yields (r : Renderer σ) (p : Program Binary64) (payloads : Payloads) (s : Studio σ)
    (result : RenderResult) : Prop where
  outputName_eq : result.outputName = outputNameOf p
  output_fresh : ∀ file ∈ written p payloads, file.1 ≠ outputNameOf p
  output_eq : ∃ engine workspace s₁, r.Executes p payloads s engine workspace 0 s₁ ∧
    s₁.tree.readFile s.site.directory (join workspace (outputNameOf p)) = .ok result.output

variable {r : Renderer σ} {p p' : Program Binary64} {payloads : Payloads} {s s₁ s' : Studio σ}
  {engine : Engine σ} {workspace directory : String} {base : FileTree} {place files words : List String}

section Watched

variable (hr : r.IsWatched)

include hr

theorem note_atRest (line : String) : Respects AtRest (r.note line) :=
  respects_bind AtRest.trans (AtRest.changePool _) fun _ => hr.onLine line

theorem advance_atRest (fraction : Binary64) : Respects AtRest (r.advance fraction) :=
  respects_bind AtRest.trans (AtRest.changePool _) fun _ => hr.onProgress _

theorem concluded_atRest (output : ByteArray × String) : Respects AtRest (r.concluded output) :=
  concluded_respects AtRest.refl AtRest.trans (advance_atRest hr) output

/-! ### In a workspace -/

theorem dropSilent_staysAt (hengine : engine.IsTidy) (hw : base.IsSpot directory workspace place)
    (inputs : List (InputSpec Binary64)) :
    Respects (StaysAt base directory place) (r.dropSilent engine workspace inputs p) :=
  dropSilent_respects StaysAt.refl StaysAt.trans (hengine.hasAudio hw)
    (fun _ => (AtRest.changePool _).mono fun _ _ => StaysAt.of_atRest)
    (fun line => (note_atRest hr line).mono fun _ _ => StaysAt.of_atRest) inputs p

theorem ready_staysAt (hengine : engine.IsTidy) (hp : HasOwnNames p payloads)
    (hw : base.IsSpot directory workspace place) :
    Respects (StaysAt base directory place) (r.ready engine workspace p payloads) :=
  ready_respects StaysAt.refl StaysAt.trans
    (fun file hfile => hengine.writeInput_staysAt hw (hp.isName file hfile) file.2)
    (dropSilent_staysAt hr hengine hw)

end Watched

theorem getLast?_arguments (h : p.arguments = .ok words) : words.getLast? = some (outputNameOf p) := by
  rw [Program.arguments] at h
  cases hencode : p.encode with
  | none =>
    rw [hencode] at h
    cases h
  | some e =>
    rw [hencode] at h
    obtain ⟨inputs, -, h⟩ := Outcome.bind_eq_ok.1 h
    obtain ⟨statements, -, h⟩ := Outcome.bind_eq_ok.1 h
    dsimp only at h
    rw [e.arguments_eq] at h
    obtain rfl := Outcome.pure_eq_ok.1 h
    rw [← List.append_assoc, List.getLast?_concat, outputNameOf, hencode]
    rfl

/-- The names of the files that are in the workspace of a run at its end. -/
def fileNames (p : Program Binary64) (payloads : Payloads) : List String :=
  outputNameOf p :: (written p payloads).map Prod.fst

theorem execute_staysAt (hr : r.IsWatched) (hengine : engine.IsTidy) (hp : HasOwnNames p payloads)
    (hw : base.IsSpot directory workspace place) :
    Respects (StaysAt base directory place) (r.execute engine workspace p payloads) := by
  rw [execute_eq]
  refine respects_bind_of_ends StaysAt.trans (ready_staysAt hr hengine hp hw) ?_
  intro ⟨p', words⟩ s s₁ hready
  obtain ⟨⟨indices, rfl⟩, hwords⟩ := ready_ends hready
  have hlast := getLast?_arguments hwords
  rw [outputNameOf_foldl_dropSound] at hlast
  refine respects_bind StaysAt.trans ?_ fun status => ?_
  · exact hengine.execute hw hlast hp.output_isName (advance_atRest hr) (note_atRest hr)
  · have hread := executed_respects (r := r) (p := indices.foldl Program.dropSound p) AtRest.refl
      AtRest.trans (hengine.readOutput_atRest workspace) status
    exact hread.mono fun _ _ => StaysAt.of_atRest

/-- What is given out for a program is what its file has when the engine is done. -/
theorem execute_ends (hengine : engine.IsTidy) (hname : IsName (outputNameOf p))
    {output : ByteArray × String} (h : Ends (r.execute engine workspace p payloads) s output s') :
    output.2 = outputNameOf p ∧
    s'.tree.readFile s'.site.directory (join workspace (outputNameOf p)) = .ok output.1 ∧
    ∃ p' words s₁, Ends (r.ready engine workspace p payloads) s (p', words) s₁ ∧
      Ends (engine.execute workspace words (some p'.totalDuration) r.advance r.note) s₁ 0 s' := by
  rw [execute_eq] at h
  obtain ⟨⟨p', words⟩, s₁, hready, h⟩ := ends_bind.1 h
  obtain ⟨status, s₂, hexecute, h⟩ := ends_bind.1 h
  obtain ⟨⟨indices, rfl⟩, -⟩ := ready_ends hready
  obtain ⟨rfl, houtput, hread⟩ := executed_ends h
  rw [outputNameOf_foldl_dropSound] at houtput hread
  obtain ⟨hread, rfl⟩ := hengine.readOutput_ends hname hread
  exact ⟨houtput, hread, _, words, s₁, hready, hexecute⟩

/-! ### From its start to its end -/

theorem Leaves.of_atRest (h : s.AtRest s') : r.Leaves s s' := .nothing fun _ => by rw [h.tree]

theorem Leaves.congr {s₀ : Studio σ} (hbefore : s.AtRest s₀) (h : r.Leaves s₀ s₁)
    (hafter : s₁.AtRest s') : r.Leaves s s' := by
  have hground : s₀.ground r.cacheDirectory = s.ground r.cacheDirectory := hbefore.ground
  have hpath : s₀.workspacePath r.cacheDirectory = s.workspacePath r.cacheDirectory := by
    rw [Studio.workspacePath, Studio.workspacePath, hbefore.site, hbefore.workspaceCount]
  cases h with
  | nothing h => exact .nothing fun place => by rw [hafter.tree, h, hbefore.tree]
  | ground h => exact .ground fun place => by rw [hafter.tree, h, hground]
  | workspace hkept hspot h =>
    rw [hground, hpath, hbefore.site] at hspot
    rw [hground, ← hafter.tree] at h
    exact .workspace hkept hspot h

/-- A run either gets a workspace, or leaves no more than the directory for it. -/
theorem opened_cases (hr : r.IsWatched) (p : Program Binary64) (s : Studio σ) :
    (∃ e s', (r.opened p).exec s = (.error e, s') ∧ r.Leaves s s' ∧ s'.site = s.site) ∨
    ∃ engine workspace s₁ s', (r.opened p).exec s = (.ok (engine, workspace), s') ∧ engine.IsTidy ∧
      s.AtRest s₁ ∧ Engine.Opens r.cacheDirectory s₁ (.ok workspace) s' := by
  have hnotes : Respects AtRest
      (p.warnings.forM fun warning => r.note ("warning: " ++ warning)) :=
    respects_forM AtRest.refl AtRest.trans (fun _ => note_atRest hr _) _
  have hnoted := hnotes s
  rw [opened, exec_bind]
  rcases hnote : Session.exec _ s with ⟨e | ⟨⟩, s₁⟩
  · rw [hnote] at hnoted
    exact .inl ⟨e, s₁, rfl, .of_atRest hnoted, hnoted.site⟩
  rw [hnote] at hnoted
  dsimp only
  have hloaded := AtRest.trans _ _ _ hnoted (hr.loadEngine s₁)
  rw [exec_bind]
  rcases hload : r.loadEngine.exec s₁ with ⟨e | engine, s₂⟩
  · rw [hload] at hloaded
    exact .inl ⟨e, s₂, rfl, .of_atRest hloaded, hloaded.site⟩
  rw [hload] at hloaded
  have hengine := hr.engine hload
  dsimp only
  have hopens := Engine.newWorkspace?_opens r.cacheDirectory s₂
  rw [exec_bind, hengine.newWorkspace_eq]
  rcases hopened : (Engine.newWorkspace? r.cacheDirectory).exec s₂ with ⟨e | workspace, s₃⟩
  · rw [hopened] at hopens
    refine .inl ⟨e, s₃, rfl, ?_, hopens.site.trans hloaded.site⟩
    exact .ground fun place => by rw [hopens.refused e rfl, hloaded.ground]
  · rw [hopened] at hopens
    exact .inr ⟨engine, workspace, s₂, s₃, rfl, hengine, hloaded, hopens⟩

/-- A run that has been opened in a sound tree has a workspace to itself. -/
theorem exists_isWorkspace (hs : s.tree.IsSound) (hrest : s.AtRest s₁)
    (hopens : Engine.Opens r.cacheDirectory s₁ (.ok workspace) s') : ∃ place,
    (s.ground r.cacheDirectory).IsSpot s'.site.directory workspace place ∧
    IsWorkspace (s.ground r.cacheDirectory) place [] s'.tree ∧
    workspace = s.workspacePath r.cacheDirectory ∧ s'.site = s.site := by
  obtain ⟨hworkspace, hmade⟩ := hopens.opened _ rfl
  have hpath : s₁.workspacePath r.cacheDirectory = s.workspacePath r.cacheDirectory := by
    rw [Studio.workspacePath, Studio.workspacePath, hrest.site, hrest.workspaceCount]
  have hground : s₁.ground r.cacheDirectory = s.ground r.cacheDirectory := hrest.ground
  rw [hpath] at hworkspace
  rw [hground, hworkspace, ← hopens.site] at hmade
  obtain ⟨place, hspot, hmade⟩ := isWorkspace_of_makeDirectory
    ((s.grows_ground r.cacheDirectory).isSound hs) (isName_workspaceName _) hmade
  exact ⟨place, hworkspace ▸ hspot, hmade, hworkspace, hopens.site.trans hrest.site⟩

/-- When a workspace is closed, it is gone unless it is to be kept. -/
theorem closed_leaves (hengine : engine.IsTidy)
    (hspot : (s.ground r.cacheDirectory).IsSpot s₁.site.directory workspace place)
    (hworkspace : IsWorkspace (s.ground r.cacheDirectory) place files s₁.tree)
    (hpath : workspace = s.workspacePath r.cacheDirectory) (hsite : s₁.site = s.site) :
    ∃ s', Ends (r.closed engine workspace) s₁ () s' ∧ r.Leaves s s' ∧ s'.site = s.site := by
  unfold closed
  rw [hengine.removeWorkspace_eq]
  cases hkeep : r.keepTemp with
  | true =>
    refine ⟨s₁, ends_pure.2 ⟨rfl, rfl⟩, ?_, hsite⟩
    rw [hpath, hsite] at hspot
    exact .workspace hkeep hspot hworkspace
  | false =>
    refine ⟨_, exec_removeTree workspace s₁, ?_, hsite⟩
    have hremoved := hworkspace.removeTree hspot
    exact .ground (by dsimp only; exact hremoved)

/-- A run that has begun leaves nothing but its workspaces, and gives out what the engine left there. -/
theorem started_leaves (hr : r.IsWatched) (hp : HasOwnNames p payloads)
    (hcomplete : missing p payloads = []) (hs : s.tree.IsSound) :
    let ran := (r.started p payloads).exec (s.begun r.id p)
    r.Leaves s ran.2 ∧ ran.2.site = s.site ∧ ∀ result, ran.1 = .ok result → r.Yields p payloads s result := by
  have hbegun : s.AtRest (s.begun r.id p) := ⟨rfl, rfl, rfl, rfl, rfl⟩
  rcases opened_cases hr p (s.begun r.id p) with ⟨e, s', hopened, hleaves, hsite⟩ |
    ⟨engine, workspace, s₁, s₂, hopened, hengine, hrest, hopens⟩
  · rw [started, exec_bind, hopened]
    refine ⟨hleaves.congr hbegun (AtRest.refl s'), hsite, fun result hresult => ?_⟩
    cases hresult
  obtain ⟨place, hspot, hworkspace, hpath, hsite⟩ :=
    exists_isWorkspace hs (AtRest.trans _ _ _ hbegun hrest) hopens
  have hstays : Respects _ (r.execute engine workspace p payloads) :=
    execute_staysAt hr hengine hp hspot
  obtain ⟨hsite', files, hfilled⟩ := hstays s₂ rfl [] hworkspace
  rcases hexecute : (r.execute engine workspace p payloads).exec s₂ with ⟨outcome, s₃⟩
  rw [hexecute] at hsite' hfilled
  have hthere : s₃.site = s.site := hsite'.trans hsite
  rw [← hsite'] at hspot
  obtain ⟨s₄, hclosed, hleaves, hsite''⟩ := closed_leaves hengine hspot hfilled hpath hthere
  rw [exec_started hopened (show Ends _ _ () s₄ by rw [hexecute]; exact hclosed), hexecute]
  cases outcome with
  | error e =>
    refine ⟨hleaves, hsite'', fun result hresult => ?_⟩
    cases hresult
  | ok output =>
    have hconcluded := concluded_atRest hr output s₄
    have hexec : (lift (.ok output) >>= r.concluded).exec s₄ = (r.concluded output).exec s₄ := rfl
    dsimp only
    rw [hexec]
    refine ⟨hleaves.congr (AtRest.refl s) hconcluded, hconcluded.site.trans hsite'', fun result hresult => ?_⟩
    obtain ⟨⟨⟩, _, -, hresult'⟩ := ends_bind.1 (show Ends (r.concluded output) s₄ result _ from
      Prod.ext hresult rfl)
    obtain ⟨state, _, -, hresult'⟩ := ends_bind.1 hresult'
    obtain ⟨rfl, -⟩ := ends_pure.1 hresult'
    obtain ⟨hname, hread, p', words, t, hready, hran⟩ := execute_ends hengine hp.output_isName hexecute
    rw [hthere] at hread
    exact ⟨hname, hp.output_fresh, engine, workspace, s₃,
      ⟨hcomplete, s₂, p', words, t, hopened, hready, hran⟩, hread⟩

/-- However a run goes, the files are as before but for the directory of the workspaces, when it was
missing, and for the workspace of the run, when it is to be kept. Its result is what the engine left. -/
theorem run_leaves (hr : r.IsWatched) (hs : s.tree.IsSound)
    (hp : missing p payloads = [] → HasOwnNames p payloads) :
    let ran := (r.run p payloads).exec s
    r.Leaves s ran.2 ∧ ran.2.site = s.site ∧ ∀ result, ran.1 = .ok result → r.Yields p payloads s result := by
  by_cases hfree : s.pool.holder = none
  · by_cases hcomplete : missing p payloads = []
    · rw [exec_run_of_complete hfree hcomplete]
      obtain ⟨hleaves, hsite, hyields⟩ := started_leaves hr (hp hcomplete) hcomplete hs
      exact ⟨hleaves.congr (AtRest.refl s) ⟨rfl, rfl, rfl, rfl, rfl⟩, hsite, hyields⟩
    · rw [exec_run_of_missing hfree hcomplete]
      exact ⟨.of_atRest ⟨rfl, rfl, rfl, rfl, rfl⟩, rfl, nofun⟩
  · rw [exec_run_of_held r p payloads hfree]
    exact ⟨.of_atRest (AtRest.refl s), rfl, nofun⟩

end Renderer

end Montage
