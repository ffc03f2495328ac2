import Mathlib.Data.List.TakeWhile
import Montage.Proofs.Export.FileNames
import Montage.Proofs.Files.Workspaces
import Montage.Proofs.Studio.AtRest
import Montage.Render.Renderer

/-!
# The engine keeps to its workspace

The installed engine changes no files but those of the workspace that it opened (`StaysIn`). A run of it
takes the next of the runs that there are, and what it leaves there is a file with the last of its words
as the name (`IsRun`). Of any other engine it is enough that it handles workspaces in the same way, and
that its programs leave files nowhere but there (`IsTidy`).
-/

namespace Montage

open Session Studio FileTree Montage.Path

variable {σ : Type} {s s' : Studio σ} {base : FileTree} {directory path workspace name : String}
  {place files words : List String}

theorem isName_of_isPlainName (h : IsPlainName name) : IsName name := by
  have hpath := h ""
  rw [Engine.workspacePath] at hpath
  split at hpath
  · cases hpath
  rename_i hplain
  rw [Bool.or_eq_true, decide_eq_true_iff, not_or, not_not] at hplain
  obtain ⟨hname, hdots⟩ := hplain
  simp only [List.contains_iff_mem, List.mem_cons, List.not_mem_nil, or_false, not_or] at hdots
  refine ⟨hdots.1, hdots.2.1, hdots.2.2, fun hslash => ?_⟩
  rw [hname, Path.name, Path.split, String.toList_ofList, List.mem_reverse] at hslash
  have hne := List.mem_takeWhile_imp hslash
  simp at hne

theorem Engine.toList_workspaceName (number : Nat) :
    (Engine.workspaceName number).toList = "clipgraph-job-".toList ++ Nat.toDigits 10 number :=
  Graph.Label.toList_numbered "clipgraph-job-" number

theorem isName_workspaceName (number : Nat) : IsName (Engine.workspaceName number) := by
  have hletter : (initials (Engine.workspaceName number)).head?.any Char.isAlpha = true := by
    rw [initials, Engine.toList_workspaceName]
    rfl
  refine isName_of_isPlainName (isPlainName_of_initials (fun hslash => ?_) hletter)
  rw [Engine.toList_workspaceName, List.mem_append] at hslash
  rcases hslash with h | h
  · revert h
    decide
  · cases Graph.Label.isDigit_of_mem_toDigits h

namespace Session

theorem exec_holds (path : String) (s : Studio σ) :
    (Session.holds path).exec s = (.ok (s.tree.holds s.site.directory path), s) := by
  have htree : Session.exec tree s = (.ok s.tree, s) := rfl
  have hsite : Session.exec site s = (.ok s.site, s) := rfl
  rw [Session.holds, exec_bind, htree]
  dsimp only
  rw [exec_bind, hsite]
  dsimp only
  rw [exec_pure]

theorem exec_changeTree (change : FileTree → Site → Except Fault FileTree) (s : Studio σ) :
    (do setTree (← lift (change (← tree) (← site))) : Session σ Unit).exec s =
      match change s.tree s.site with
        | .ok t => (.ok (), { s with tree := t })
        | .error e => (.error e, s) := by
  have htree : Session.exec tree s = (.ok s.tree, s) := rfl
  have hsite : Session.exec site s = (.ok s.site, s) := rfl
  rw [exec_bind, htree]
  dsimp only
  rw [exec_bind, hsite]
  dsimp only
  rw [exec_bind, exec_lift]
  cases change s.tree s.site <;> rfl

theorem exec_writeFile (path : String) (data : ByteArray) (s : Studio σ) :
    (Session.writeFile path data).exec s =
      match s.tree.writeFile s.site.directory path data with
        | .ok t => (.ok (), { s with tree := t })
        | .error e => (.error e, s) :=
  exec_changeTree (fun t site => t.writeFile site.directory path data) s

theorem exec_makeDirectory (path : String) (s : Studio σ) :
    (Session.makeDirectory path).exec s =
      match s.tree.makeDirectory s.site.directory path with
        | .ok t => (.ok (), { s with tree := t })
        | .error e => (.error e, s) :=
  exec_changeTree (fun t site => t.makeDirectory site.directory path) s

theorem exec_makeDirectories (path : String) (s : Studio σ) :
    (Session.makeDirectories path).exec s =
      ((match (s.tree.makeDirectories s.site.directory path).2 with
          | some e => .error e
          | none => .ok ()),
        { s with tree := (s.tree.makeDirectories s.site.directory path).1 }) := by
  have htree : Session.exec tree s = (.ok s.tree, s) := rfl
  have hsite : Session.exec site s = (.ok s.site, s) := rfl
  rw [Session.makeDirectories, exec_bind, htree]
  dsimp only
  rw [exec_bind, hsite]
  dsimp only
  generalize s.tree.makeDirectories s.site.directory path = changed
  obtain ⟨t, _ | e⟩ := changed <;> rfl

end Session

/-! ### What happens in a workspace -/

/-- A workspace stays one with files by these names only. -/
def Studio.StaysIn (base : FileTree) (directory : String) (place files : List String)
    (s s' : Studio σ) : Prop :=
  s.site.directory = directory → IsWorkspace base place files s.tree →
    s'.site = s.site ∧ IsWorkspace base place files s'.tree

namespace Studio.StaysIn

theorem trans (s₁ s₂ s₃ : Studio σ) (h : StaysIn base directory place files s₁ s₂)
    (h' : StaysIn base directory place files s₂ s₃) : StaysIn base directory place files s₁ s₃ := by
  intro hdirectory hworkspace
  obtain ⟨hsite, hworkspace'⟩ := h hdirectory hworkspace
  obtain ⟨hsite', hworkspace''⟩ := h' (hsite ▸ hdirectory) hworkspace'
  exact ⟨hsite'.trans hsite, hworkspace''⟩

theorem of_tree (hsite : s'.site = s.site) (htree : s'.tree = s.tree) :
    StaysIn base directory place files s s' :=
  fun _ hworkspace => ⟨hsite, htree ▸ hworkspace⟩

theorem of_atRest (h : s.AtRest s') : StaysIn base directory place files s s' :=
  of_tree h.site h.tree

theorem refl (s : Studio σ) : StaysIn base directory place files s s := of_tree rfl rfl

theorem writeFile (hw : base.IsSpot directory workspace place) (hname : IsName name)
    (hmem : name ∈ files) (data : ByteArray) :
    Respects (StaysIn base directory place files)
      (Session.writeFile (join workspace name) data : Session σ Unit) := by
  intro s hdirectory hworkspace
  rw [exec_writeFile]
  cases hwrite : s.tree.writeFile s.site.directory (join workspace name) data with
  | error e => exact ⟨rfl, hworkspace⟩
  | ok t =>
    rw [hdirectory] at hwrite
    refine ⟨rfl, (hworkspace.writeFile hw hname hwrite).mono ?_⟩
    exact List.cons_subset.2 ⟨hmem, List.Subset.refl files⟩

end Studio.StaysIn

/-- A workspace stays one, whatever files there come to be in it. -/
def Studio.StaysAt (base : FileTree) (directory : String) (place : List String)
    (s s' : Studio σ) : Prop :=
  s.site.directory = directory → ∀ files, IsWorkspace base place files s.tree →
    s'.site = s.site ∧ ∃ files', IsWorkspace base place files' s'.tree

namespace Studio.StaysAt

theorem refl (s : Studio σ) : StaysAt base directory place s s :=
  fun _ files hworkspace => ⟨rfl, files, hworkspace⟩

theorem trans (s₁ s₂ s₃ : Studio σ) (h : StaysAt base directory place s₁ s₂)
    (h' : StaysAt base directory place s₂ s₃) : StaysAt base directory place s₁ s₃ := by
  intro hdirectory files hworkspace
  obtain ⟨hsite, files', hworkspace'⟩ := h hdirectory files hworkspace
  obtain ⟨hsite', hrest⟩ := h' (hsite ▸ hdirectory) files' hworkspace'
  exact ⟨hsite'.trans hsite, hrest⟩

theorem of_atRest (h : s.AtRest s') : StaysAt base directory place s s' :=
  fun _ files hworkspace => ⟨h.site, files, h.tree ▸ hworkspace⟩

theorem of_staysIn {α : Type} {m : Session σ α} (name : String)
    (h : ∀ files, Respects (StaysIn base directory place (name :: files)) m) :
    Respects (StaysAt base directory place) m := by
  intro s hdirectory files hworkspace
  obtain ⟨hsite, hfilled⟩ := h files s hdirectory (hworkspace.mono (List.subset_cons_self name files))
  exact ⟨hsite, _, hfilled⟩

end Studio.StaysAt

/-! ### What the engine does in a workspace -/

namespace Engine

theorem workspacePath_eq (hname : IsName name) (workspace : String) :
    workspacePath workspace name = .ok (join workspace name) := by
  rw [workspacePath, name_of_slash_not_mem hname.slashless, if_neg]
  · rfl
  · simp [hname.ne_empty, hname.ne_here, hname.ne_above]

variable {engine : Option String}

theorem writeInput_staysIn (hw : base.IsSpot directory workspace place) (hname : IsName name)
    (hmem : name ∈ files) (data : ByteArray) :
    Respects (StaysIn base directory place files)
      ((installed engine : Engine σ).writeInput workspace name data) := by
  dsimp only [installed]
  rw [workspacePath_eq hname]
  exact StaysIn.writeFile hw hname hmem data

theorem readOutput_atRest (workspace name : String) :
    Respects AtRest ((installed engine : Engine σ).readOutput workspace name) :=
  respects_bind AtRest.trans (respects_lift AtRest.refl _) fun _ => AtRest.readFile _

theorem readOutput_ends (hname : IsName name) {data : ByteArray}
    (h : Ends ((installed engine : Engine σ).readOutput workspace name) s data s') :
    s.tree.readFile s.site.directory (join workspace name) = .ok data ∧ s' = s := by
  obtain ⟨file, s₁, hlift, h⟩ := ends_bind.1 h
  obtain ⟨hfile, rfl⟩ := ends_lift.1 hlift
  obtain ⟨t, s₂, htree, h⟩ := ends_bind.1 h
  obtain ⟨x, s₃, hsite, h⟩ := ends_bind.1 h
  obtain ⟨rfl, rfl⟩ := ends_tree.1 htree
  obtain ⟨rfl, rfl⟩ := ends_site.1 hsite
  obtain ⟨hread, rfl⟩ := ends_lift.1 h
  rw [workspacePath_eq hname] at hfile
  obtain rfl := Except.ok.inj hfile
  exact ⟨hread, rfl⟩

theorem hasAudio_atRest (workspace name : String) :
    Respects AtRest ((installed engine : Engine σ).hasAudio workspace name) := by
  dsimp only [installed]
  split
  · refine respects_bind AtRest.trans (respects_lift AtRest.refl _) fun file => ?_
    refine respects_bind AtRest.trans ?_ fun _ => respects_pure AtRest.refl _
    refine respects_bind AtRest.trans (respects_modify fun s => ⟨rfl, rfl, rfl, rfl, rfl⟩) fun _ s => ?_
    exact AtRest.refl s
  · exact respects_throw AtRest.refl _

theorem workspaceFiles_atRest (workspace : String) :
    Respects AtRest (workspaceFiles workspace : Session σ (List (String × ByteArray))) := by
  refine respects_bind AtRest.trans (respects_tree AtRest.refl) fun _ => ?_
  refine respects_bind AtRest.trans (respects_site AtRest.refl) fun _ => ?_
  refine respects_bind AtRest.trans (respects_lift AtRest.refl _) fun found => ?_
  split
  · exact respects_throw AtRest.refl _
  · exact respects_pure AtRest.refl _
  · exact respects_throw AtRest.refl _

theorem getLastD_runCommand (engine : String) (h : words.getLast? = some name) :
    (runCommand engine words).getLast?.getD "" = name := by
  rw [runCommand, List.getLast?_append, h]
  rfl

/-! ### Runs -/

/-- The next run of the engine, which leaves a file by this name in a workspace, or nothing. -/
structure IsRun (workspace name : String) (status : Int) (s s' : Studio σ) : Prop where
  site : s'.site = s.site
  runs : s'.runs = s.runs.tail
  runCount : s'.runCount = s.runCount + 1
  workspaceCount : s'.workspaceCount = s.workspaceCount
  status_eq : status = (s.runs.headD {}).status
  left : match Product.bytes? (s.runCount + 1) (s.runs.headD {}).product with
    | none => s'.tree = s.tree
    | some data => s.tree.writeFile s.site.directory (join workspace name) data = .ok s'.tree

section Execute

variable {engine : String} {duration : Option Binary64} {onFraction : Binary64 → Session σ Unit}
  {onLine : String → Session σ Unit} {status : Int}

/-- What happens until the engine leaves something. -/
def launched (engine workspace : String) (words : List String) (onLine : String → Session σ Unit) :
    Session σ (EngineRun × Nat) := do
  onLine (commandLine (runCommand engine words))
  let files ← workspaceFiles workspace
  modify fun s => { s with commands := s.commands ++ [⟨runCommand engine words, files⟩] }
  nextRun

/-- What happens after that. -/
def reported (run : EngineRun) (duration : Option Binary64)
    (onFraction : Binary64 → Session σ Unit) (onLine : String → Session σ Unit) : Session σ Int := do
  run.messages.forM fun line => onLine (withoutEnd line)
  run.progress.forM fun line => do
    if let some fraction ← Session.lift (fraction? line duration) then onFraction fraction
  return run.status

theorem execute_eq : (installed (some engine)).execute workspace words duration onFraction onLine =
    (do
      let (run, number) ← launched engine workspace words onLine
      leaveProduct workspace (runCommand engine words) (Product.bytes? number run.product)
      reported run duration onFraction onLine) := by
  have hlaunched : ∀ next : EngineRun × Nat → Session σ Int,
      (launched engine workspace words onLine >>= next) = (do
        onLine (commandLine (runCommand engine words))
        let files ← workspaceFiles workspace
        modify fun s => { s with commands := s.commands ++ [⟨runCommand engine words, files⟩] }
        nextRun >>= next) := by
    intro next
    simp only [launched, bind_assoc]
  exact (hlaunched _).symm

variable (hfraction : ∀ x, Respects AtRest (onFraction x))
  (hline : ∀ line, Respects AtRest (onLine line))

include hline

theorem launched_staysIn (engine : String) : Respects (StaysIn base directory place files)
    (launched engine workspace words onLine) := by
  refine respects_bind StaysIn.trans ((hline _).mono fun _ _ => StaysIn.of_atRest) fun _ => ?_
  refine respects_bind StaysIn.trans ?_ fun files => ?_
  · exact (workspaceFiles_atRest workspace).mono fun _ _ => StaysIn.of_atRest
  refine respects_bind StaysIn.trans (respects_modify fun s => StaysIn.of_tree rfl rfl) fun _ s => ?_
  exact StaysIn.of_tree rfl rfl

theorem launched_ends {run : EngineRun} {number : Nat}
    (h : Ends (launched engine workspace words onLine) s (run, number) s') :
    run = s.runs.headD {} ∧ number = s.runCount + 1 ∧ s'.tree = s.tree ∧ s'.site = s.site ∧
      s'.runs = s.runs.tail ∧ s'.runCount = s.runCount + 1 ∧ s'.workspaceCount = s.workspaceCount := by
  obtain ⟨⟨⟩, s₁, hlined, h⟩ := ends_bind.1 h
  obtain ⟨listed, s₂, hlisted, h⟩ := ends_bind.1 h
  obtain ⟨⟨⟩, s₃, hrecorded, h⟩ := ends_bind.1 h
  obtain rfl := ends_modify.1 hrecorded
  have hrest := AtRest.trans _ _ _ ((hline _).ends hlined) ((workspaceFiles_atRest _).ends hlisted)
  obtain ⟨heq, rfl⟩ := Prod.mk.inj h
  obtain ⟨rfl, rfl⟩ := Prod.mk.inj (Except.ok.inj heq)
  refine ⟨?_, ?_, hrest.tree, hrest.site, ?_, ?_, hrest.workspaceCount⟩
  · exact congrArg (·.headD {}) hrest.runs
  · exact congrArg (· + 1) hrest.runCount
  · exact congrArg List.tail hrest.runs
  · exact congrArg (· + 1) hrest.runCount

include hfraction

theorem reported_atRest (run : EngineRun) :
    Respects AtRest (reported run duration onFraction onLine) := by
  refine respects_bind AtRest.trans ?_ fun _ => ?_
  · exact respects_forM AtRest.refl AtRest.trans (fun line => hline _) _
  refine respects_bind AtRest.trans ?_ fun _ => respects_pure AtRest.refl _
  refine respects_forM AtRest.refl AtRest.trans (fun line => ?_) _
  refine respects_bind AtRest.trans (respects_lift AtRest.refl _) fun fraction => ?_
  split
  · exact hfraction _
  · exact respects_pure AtRest.refl ()

theorem execute_staysIn {engine : Option String} (hw : base.IsSpot directory workspace place)
    (hname : IsName name) (hmem : name ∈ files) (hlast : words.getLast? = some name) :
    Respects (StaysIn base directory place files)
      ((installed engine).execute workspace words duration onFraction onLine) := by
  cases engine with
  | none => exact respects_throw StaysIn.refl _
  | some engine =>
    rw [execute_eq]
    refine respects_bind StaysIn.trans (launched_staysIn hline engine) fun ⟨run, number⟩ => ?_
    refine respects_bind StaysIn.trans ?_ fun _ => ?_
    · unfold leaveProduct
      split
      · rw [getLastD_runCommand engine hlast]
        exact StaysIn.writeFile hw hname hmem _
      · exact respects_pure StaysIn.refl ()
    · exact (reported_atRest hfraction hline run).mono fun _ _ => StaysIn.of_atRest

theorem execute_isRun {engine : Option String} (hlast : words.getLast? = some name)
    (h : Ends ((installed engine).execute workspace words duration onFraction onLine) s status s') :
    IsRun workspace name status s s' := by
  cases engine with
  | none => exact absurd h ends_throw
  | some engine =>
    rw [execute_eq] at h
    obtain ⟨⟨run, number⟩, s₁, hlaunched, h⟩ := ends_bind.1 h
    obtain ⟨rfl, rfl, htree, hsite, hruns, hcount, hworkspaces⟩ := launched_ends hline hlaunched
    dsimp only at h
    obtain ⟨⟨⟩, s₂, hleft, h⟩ := ends_bind.1 h
    have hrest := (reported_atRest hfraction hline _).ends h
    have hstatus : status = (s.runs.headD {}).status := by
      obtain ⟨_, _, -, h⟩ := ends_bind.1 h
      obtain ⟨_, _, -, h⟩ := ends_bind.1 h
      exact (ends_pure.1 h).1.symm
    unfold leaveProduct at hleft
    rw [getLastD_runCommand engine hlast] at hleft
    cases hproduct : Product.bytes? (s.runCount + 1) (s.runs.headD {}).product with
    | none =>
      rw [hproduct] at hleft
      obtain ⟨-, rfl⟩ := ends_pure.1 hleft
      refine ⟨hrest.site.trans hsite, hrest.runs.trans hruns, hrest.runCount.trans hcount,
        hrest.workspaceCount.trans hworkspaces, hstatus, ?_⟩
      rw [hproduct]
      exact hrest.tree.trans htree
    | some data =>
      rw [hproduct] at hleft
      have hdirectory : s₁.site.directory = s.site.directory := by rw [hsite]
      rw [Ends, exec_writeFile, htree, hdirectory] at hleft
      cases hwrite : s.tree.writeFile s.site.directory (join workspace name) data with
      | error e =>
        rw [hwrite] at hleft
        cases hleft
      | ok t =>
        rw [hwrite] at hleft
        obtain ⟨-, rfl⟩ := Prod.mk.inj hleft
        refine ⟨hrest.site.trans hsite, hrest.runs.trans hruns, hrest.runCount.trans hcount,
          hrest.workspaceCount.trans hworkspaces, hstatus, ?_⟩
        rw [hproduct, hrest.tree, ← hwrite]

end Execute

/-- An engine that handles workspaces as the installed one does, and whose programs leave files nowhere
but in the workspace that they are given. They may fail to start, not answer in time, or end in any
other way. -/
structure IsTidy (engine : Engine σ) : Prop where
  newWorkspace_eq : engine.newWorkspace = newWorkspace?
  removeWorkspace_eq : engine.removeWorkspace = Session.removeTree
  writeInput_eq : engine.writeInput = (installed none).writeInput
  readOutput_eq : engine.readOutput = (installed none).readOutput
  hasAudio : ∀ {base : FileTree} {directory workspace : String} {place : List String},
    base.IsSpot directory workspace place → ∀ name,
      Respects (StaysAt base directory place) (engine.hasAudio workspace name)
  execute : ∀ {base : FileTree} {directory workspace name : String} {place words : List String}
    {duration : Option Binary64} {onFraction : Binary64 → Session σ Unit}
    {onLine : String → Session σ Unit}, base.IsSpot directory workspace place →
    words.getLast? = some name → IsName name → (∀ x, Respects AtRest (onFraction x)) →
    (∀ line, Respects AtRest (onLine line)) →
      Respects (StaysAt base directory place) (engine.execute workspace words duration onFraction onLine)

theorem installed_isTidy (path : Option String) : (installed path : Engine σ).IsTidy where
  newWorkspace_eq := rfl
  removeWorkspace_eq := rfl
  writeInput_eq := rfl
  readOutput_eq := rfl
  hasAudio _ name := (hasAudio_atRest _ name).mono fun _ _ => StaysAt.of_atRest
  execute hw hlast hname hfraction hline :=
    StaysAt.of_staysIn _ fun files => execute_staysIn hfraction hline hw hname (.head files) hlast

namespace IsTidy

variable {engine : Engine σ} (h : engine.IsTidy)

include h

theorem writeInput_staysAt (hw : base.IsSpot directory workspace place) (hname : IsName name)
    (data : ByteArray) :
    Respects (StaysAt base directory place) (engine.writeInput workspace name data) := by
  rw [h.writeInput_eq]
  exact StaysAt.of_staysIn _ fun files => writeInput_staysIn hw hname (.head files) data

theorem readOutput_atRest (workspace name : String) :
    Respects AtRest (engine.readOutput workspace name) := by
  rw [h.readOutput_eq]
  exact Engine.readOutput_atRest workspace name

theorem readOutput_ends (hname : IsName name) {data : ByteArray}
    (hread : Ends (engine.readOutput workspace name) s data s') :
    s.tree.readFile s.site.directory (join workspace name) = .ok data ∧ s' = s := by
  rw [h.readOutput_eq] at hread
  exact Engine.readOutput_ends hname hread

end IsTidy

end Engine

/-! ### Opening a workspace -/

/-- The files of a studio with the directory that workspaces are made in, which is made when it is
missing. -/
def Studio.ground (s : Studio σ) (cacheDirectory : Option String) : FileTree :=
  match cacheDirectory with
  | none => s.tree
  | some d =>
    if s.tree.holds s.site.directory d then s.tree
    else (s.tree.makeDirectories s.site.directory d).1

theorem Studio.grows_ground (s : Studio σ) (cacheDirectory : Option String) :
    s.tree.Grows (s.ground cacheDirectory) := by
  unfold ground
  split
  · exact .refl _
  · split
    · exact .refl _
    · exact s.tree.makeDirectories_grows _ _

theorem Studio.ground_of_held {cacheDirectory : Option String}
    (h : ∀ d, cacheDirectory = some d → s.tree.holds s.site.directory d = true) :
    s.ground cacheDirectory = s.tree := by
  cases cacheDirectory with
  | none => rfl
  | some d => exact if_pos (h d rfl)

theorem Studio.AtRest.ground {cacheDirectory : Option String} (h : s.AtRest s') :
    s'.ground cacheDirectory = s.ground cacheDirectory := by
  unfold Studio.ground
  rw [h.tree, h.site]

/-- The path of the next workspace. -/
def Studio.workspacePath (s : Studio σ) (cacheDirectory : Option String) : String :=
  join (cacheDirectory.getD s.site.tempDirectory) (Engine.workspaceName (s.workspaceCount + 1))

namespace Engine

theorem shared_ends {binary : Value} {engine : Engine σ} (h : Ends (shared binary) s engine s') :
    ∃ path, engine = installed (some path) := by
  obtain ⟨loaded, s₁, -, h⟩ := ends_bind.1 h
  exact ⟨loaded.path, (ends_pure.1 h).1.symm⟩

/-- What happens to the files when a workspace is asked for, which may be refused. -/
structure Opens (cacheDirectory : Option String) (s : Studio σ) (outcome : Except Fault String)
    (s' : Studio σ) : Prop where
  site : s'.site = s.site
  runs : s'.runs = s.runs
  runCount : s'.runCount = s.runCount
  refused : ∀ e, outcome = .error e → s'.tree = s.ground cacheDirectory
  opened : ∀ workspace, outcome = .ok workspace → workspace = s.workspacePath cacheDirectory ∧
    (s.ground cacheDirectory).makeDirectory s.site.directory workspace = .ok s'.tree

/-- The next workspace, in a directory that is there. -/
def numbered (cacheDirectory : Option String) : Session σ String := do
  let s ← get
  let number := s.workspaceCount + 1
  set { s with workspaceCount := number }
  let path := Path.join (cacheDirectory.getD s.site.tempDirectory) (workspaceName number)
  Session.makeDirectory path
  return path

theorem exec_numbered (cacheDirectory : Option String) (s : Studio σ) :
    (numbered cacheDirectory).exec s =
      match s.tree.makeDirectory s.site.directory (s.workspacePath cacheDirectory) with
        | .ok t => (.ok (s.workspacePath cacheDirectory),
            { s with tree := t, workspaceCount := s.workspaceCount + 1 })
        | .error e => (.error e, { s with workspaceCount := s.workspaceCount + 1 }) := by
  have hset (s s' : Studio σ) : Session.exec (set s' : Session σ Unit) s = (.ok (), s') := rfl
  have hpath : join (cacheDirectory.getD s.site.tempDirectory) (workspaceName (s.workspaceCount + 1)) =
      s.workspacePath cacheDirectory := rfl
  rw [numbered, exec_bind, exec_get]
  dsimp only
  rw [exec_bind, hset]
  dsimp only
  rw [hpath, exec_bind, exec_makeDirectory]
  dsimp only
  cases s.tree.makeDirectory s.site.directory (s.workspacePath cacheDirectory) <;> rfl

theorem numbered_opens {cacheDirectory : Option String} {t : FileTree}
    (ht : t = s.ground cacheDirectory) :
    Opens cacheDirectory s ((numbered cacheDirectory).exec { s with tree := t }).1
      ((numbered cacheDirectory).exec { s with tree := t }).2 := by
  rw [exec_numbered]
  have hpath : ({ s with tree := t } : Studio σ).workspacePath cacheDirectory =
      s.workspacePath cacheDirectory := rfl
  dsimp only
  rw [hpath]
  cases hmade : t.makeDirectory s.site.directory (s.workspacePath cacheDirectory) with
  | error e => exact ⟨rfl, rfl, rfl, fun _ _ => ht, nofun⟩
  | ok t' =>
    refine ⟨rfl, rfl, rfl, nofun, fun workspace hworkspace => ?_⟩
    obtain rfl := Except.ok.inj hworkspace
    exact ⟨rfl, ht ▸ hmade⟩

theorem newWorkspace?_some (d : String) : (newWorkspace? (some d) : Session σ String) =
    (do if ← Session.holds d then numbered (some d)
        else
          Session.makeDirectories d
          numbered (some d)) := by
  unfold newWorkspace? numbered
  dsimp only
  refine congrArg _ (funext fun held => ?_)
  cases held
  · rw [if_pos (by rfl), if_neg nofun]
  · rw [if_neg (by simp), if_pos rfl]

theorem newWorkspace?_opens (cacheDirectory : Option String) (s : Studio σ) :
    Opens cacheDirectory s ((newWorkspace? cacheDirectory).exec s).1
      ((newWorkspace? cacheDirectory).exec s).2 := by
  cases cacheDirectory with
  | none => exact numbered_opens rfl
  | some d =>
    rw [newWorkspace?_some, exec_bind, exec_holds]
    dsimp only
    split
    · rename_i hholds
      exact numbered_opens (if_pos hholds).symm
    · rename_i hmissing
      have hground : (s.tree.makeDirectories s.site.directory d).1 = s.ground (some d) :=
        (if_neg hmissing).symm
      rw [exec_bind, exec_makeDirectories]
      cases (s.tree.makeDirectories s.site.directory d).2 with
      | some e => exact ⟨rfl, rfl, rfl, fun _ _ => hground, nofun⟩
      | none => exact numbered_opens hground

end Engine

end Montage
