import Montage.Proofs.Engine.Rooms
import Montage.Proofs.Render.Footprint

/-!
# Runs that the engine plays

A run that finds its engine free, and room for a workspace, goes as the next run of the engine does: it
gives what that leaves when it ends well, and otherwise fails with a fault of the engine (`run_plays`).
An engine that does not load is not run at all (`run_unloaded`).
-/

namespace Montage

open Montage.Graph Session Studio FileTree

variable {σ : Type}

/-- What the engine leaves in the run that comes after so many others, when that ends well. -/
def Studio.product? (s : Studio σ) (number : Nat) : Option ByteArray :=
  let run := (s.runs.drop number).headD {}
  if run.status = 0 then Engine.Product.bytes? (s.runCount + number + 1) run.product else none

theorem Studio.product?_congr {s s' : Studio σ} (hruns : s'.runs = s.runs)
    (hcount : s'.runCount = s.runCount) : s'.product? = s.product? := by
  funext number
  rw [Studio.product?, Studio.product?, hruns, hcount]

/-- The times in the lines of the runs to come can be read. -/
def Studio.HasLegibleRuns (s : Studio σ) : Prop := ∀ run ∈ s.runs, Engine.IsLegible run

namespace Renderer

/-- What comes of a run: something with these data, or a fault of the engine. -/
inductive Answers {α : Type} (bytes : α → ByteArray) : Option ByteArray → Except Fault α → Prop
  | result (a : α) : Answers bytes (some (bytes a)) (.ok a)
  | failure (problem logText : String) (status : Option Int) :
      Answers bytes none (.error (.engineRun problem logText status))

theorem Answers.fault_eq {α : Type} {bytes : α → ByteArray} {product : Option ByteArray}
    {outcome : Except Fault α} {fault : Fault} (h : Answers bytes product outcome)
    (hfault : outcome = .error fault) :
    ∃ problem logText status, fault = .engineRun problem logText status := by
  cases h with
  | result a => cases hfault
  | failure problem logText status => exact ⟨problem, logText, status, (Except.error.inj hfault).symm⟩

theorem Answers.map {α : Type} {bytes : α → ByteArray} {product : Option ByteArray}
    {outcome : Except Fault α} (h : Answers bytes product outcome) :
    Answers (fun data => data) product (outcome.map bytes) := by
  cases h with
  | result a => exact @Answers.result _ (fun data => data) (bytes a)
  | failure problem logText status => exact .failure problem logText status

/-- A driver of the installed engine whose listeners idle. -/
structure IsQuiet (r : Renderer σ) (binary : Value) : Prop where
  loadEngine_eq : r.loadEngine = Engine.shared binary
  onProgress : ∀ percent, IsIdle (r.onProgress percent)
  onLine : ∀ line, IsIdle (r.onLine line)

/-- A program that can be run wherever there is room: it has all its files, whose names files can have,
and words for the engine whichever of its sounds are dropped. -/
structure IsPlayable (p : Program Binary64) (payloads : Payloads) : Prop where
  complete : missing p payloads = []
  isFileName : ∀ name ∈ fileNames p payloads, IsFileName name
  output_fresh : ∀ file ∈ written p payloads, file.1 ≠ outputNameOf p
  input_isName : ∀ input ∈ p.soundInputs, Path.IsName input.name
  isOk_arguments : ∀ indices : List Int, (indices.foldl Program.dropSound p).arguments.isOk = true

/-- A run that the engine has played: it was the next one, and all that it leaves is the workspace, if
that is to be kept. -/
structure Plays (r : Renderer σ) (s : Studio σ) (outcome : Except Fault RenderResult) (s' : Studio σ) :
    Prop where
  answers : Answers RenderResult.output (s.product? 0) outcome
  site : s'.site = s.site
  runs : s'.runs = s.runs.tail
  runCount : s'.runCount = s.runCount + 1
  workspaceCount : s'.workspaceCount = s.workspaceCount + 1
  loaded : s'.engine.isSome = true
  free : s'.pool.holder = none
  left : (∀ place, s'.tree.entry? place = FileTree.entry? (s.ground r.cacheDirectory) place) ∨
    r.keepTemp = true ∧ ∃ place files, (s.ground r.cacheDirectory).IsRoomy s.site.directory
      (s.workspacePath r.cacheDirectory) place ∧
      IsWorkspace (s.ground r.cacheDirectory) place files s'.tree

end Renderer

theorem Session.exec_readFile (path : String) (s : Studio σ) :
    (Session.readFile path).exec s = (s.tree.readFile s.site.directory path, s) := by
  have htree : Session.exec tree s = (.ok s.tree, s) := rfl
  have hsite : Session.exec site s = (.ok s.site, s) := rfl
  rw [Session.readFile, exec_bind, htree]
  dsimp only
  rw [exec_bind, hsite]
  dsimp only
  rw [exec_lift]

namespace Renderer

variable {r : Renderer σ} {binary : Value} {p : Program Binary64} {payloads : Payloads}
  {s s' : Studio σ} {base : FileTree} {workspace path : String} {place files : List String}
  {loaded : LoadedEngine} {count : Nat}

section Quiet

variable (hr : r.IsQuiet binary)

include hr

theorem note_isIdle (line : String) : IsIdle (r.note line) :=
  (IsIdle.changePool _).bind (hr.onLine line)

theorem advance_isIdle (fraction : Binary64) : IsIdle (r.advance fraction) :=
  (IsIdle.changePool _).bind (hr.onProgress _)

/-- A run whose engine does not load fails before it has a workspace. -/
theorem opened_fails {e : Fault} (hload : s.engineOutcome binary = .error e) :
    ∃ s', (r.opened p).exec s = (.error e, s') ∧ s.AtRest s' := by
  obtain ⟨s₁, hnoted, hidle⟩ :=
    IsIdle.forM (fun warning (_ : warning ∈ p.warnings) => note_isIdle hr ("warning: " ++ warning)) s
  obtain ⟨s₂, hfind, hrest, -⟩ := @exec_findEngine _ s₁ binary
  rw [hidle.engineOutcome, hload] at hfind
  refine ⟨s₂, ?_, AtRest.trans _ _ _ hidle.toAtRest hrest⟩
  rw [opened, exec_bind, show Session.exec _ s = _ from hnoted]
  dsimp only
  rw [exec_bind, hr.loadEngine_eq, Engine.shared, exec_bind, hfind]

theorem opened_ends' (hload : s.engineOutcome binary = .ok loaded)
    (hroom : s.HasRoom r.cacheDirectory (count + 1)) (hs : s.tree.IsSound) : ∃ s' place,
    Ends (r.opened p) s (Engine.installed (some loaded.path), s.workspacePath r.cacheDirectory) s' ∧
    (s.ground r.cacheDirectory).IsRoomy s.site.directory (s.workspacePath r.cacheDirectory) place ∧
    IsWorkspace (s.ground r.cacheDirectory) place [] s'.tree ∧ s'.site = s.site ∧ s'.runs = s.runs ∧
    s'.runCount = s.runCount ∧ s'.workspaceCount = s.workspaceCount + 1 ∧ s'.engine = some loaded := by
  obtain ⟨s₁, hnoted, hidle⟩ :=
    IsIdle.forM (fun warning (_ : warning ∈ p.warnings) => note_isIdle hr ("warning: " ++ warning)) s
  obtain ⟨s₂, hfind, hfound, -, hengine⟩ := @exec_findEngine _ s₁ binary
  rw [hidle.engineOutcome, hload] at hfind hengine
  have hrest := AtRest.trans _ _ _ hidle.toAtRest hfound
  obtain ⟨t, place, hopened, hroomy, hworkspace⟩ :=
    Engine.newWorkspace?_ends (hroom.of_atRest hrest) (hrest.tree ▸ hs)
  have hpath : s₂.workspacePath r.cacheDirectory = s.workspacePath r.cacheDirectory := by
    rw [Studio.workspacePath, Studio.workspacePath, hrest.site, hrest.workspaceCount]
  rw [hpath] at hopened
  rw [hpath, hrest.ground, hrest.site] at hroomy
  rw [hrest.ground] at hworkspace
  have hshared : Ends r.loadEngine s₁ (Engine.installed (some loaded.path)) s₂ := by
    rw [hr.loadEngine_eq]
    exact ends_bind.2 ⟨loaded, s₂, hfind, ends_pure.2 ⟨rfl, rfl⟩⟩
  refine ⟨_, place, ends_bind.2 ⟨(), s₁, hnoted, ends_bind.2 ⟨_, s₂, hshared, ends_bind.2
    ⟨_, _, hopened, ends_pure.2 ⟨rfl, rfl⟩⟩⟩⟩, hroomy, hworkspace, hrest.site, hrest.runs,
    hrest.runCount, ?_, hengine loaded rfl⟩
  exact congrArg (· + 1) hrest.workspaceCount

/-! ### In the workspace -/

omit hr in
theorem written_ends (hw : base.IsRoomy s.site.directory workspace place)
    (h : IsWorkspace base place files s.tree) {payloads : Payloads}
    (hnames : ∀ file ∈ payloads, IsFileName file.1) : ∃ t,
    Ends (payloads.forM fun (name, data) => (Engine.installed (some path)).writeInput workspace name data)
      s () { s with tree := t } ∧ IsWorkspace base place (payloads.map Prod.fst ++ files) t := by
  induction payloads generalizing s files with
  | nil => exact ⟨s.tree, ends_pure.2 ⟨rfl, rfl⟩, h⟩
  | cons file rest ih =>
    obtain ⟨hfirst, hrest⟩ := List.forall_mem_cons.1 hnames
    obtain ⟨t₁, hwrite, hfilled⟩ := Engine.writeInput_ends hw h (some path) hfirst file.2
    obtain ⟨t, hwrites, hall⟩ := @ih { s with tree := t₁ } _ hw hfilled hrest
    refine ⟨t, ends_bind.2 ⟨(), _, hwrite, hwrites⟩, hall.mono ?_⟩
    intro name hname
    simp only [List.map_cons, List.mem_append, List.mem_cons] at hname ⊢
    tauto

theorem exists_dropSilent {inputs : List (InputSpec Binary64)}
    (hnames : ∀ input ∈ inputs, Path.IsName input.name) (workspace path : String)
    (p : Program Binary64) (s : Studio σ) : ∃ p' s',
    Ends (r.dropSilent (Engine.installed (some path)) workspace inputs p) s p' s' ∧ s.Idles s' := by
  induction inputs generalizing p s with
  | nil => exact ⟨p, s, ends_pure.2 ⟨rfl, rfl⟩, Idles.refl s⟩
  | cons input rest ih =>
    obtain ⟨hfirst, hrest⟩ := List.forall_mem_cons.1 hnames
    obtain ⟨answer, s₁, hanswer, hidle⟩ := Engine.hasAudio_ends path hfirst workspace s
    cases answer with
    | true =>
      obtain ⟨p', s', hdrop, hidle'⟩ := ih hrest p s₁
      exact ⟨p', s', ends_bind.2 ⟨true, s₁, hanswer, hdrop⟩, hidle.trans hidle'⟩
    | false =>
      obtain ⟨s₂, hset, hidle₂⟩ := IsIdle.changePool (·.setProgram r.id (p.dropSound input.index)) s₁
      obtain ⟨s₃, hnote, hidle₃⟩ := note_isIdle hr
        s!"warning: {soundWarning input.index} ({input.name})" s₂
      obtain ⟨p', s', hdrop, hidle'⟩ := ih hrest (p.dropSound input.index) s₃
      exact ⟨p', s', ends_bind.2 ⟨false, s₁, hanswer, ends_bind.2 ⟨(), s₂, hset,
        ends_bind.2 ⟨(), s₃, hnote, hdrop⟩⟩⟩, hidle.trans (hidle₂.trans (hidle₃.trans hidle'))⟩

omit hr in
theorem executed_answers {p : Program Binary64} (hname : Path.IsName (outputNameOf p))
    {data : Option ByteArray}
    (hread : s.tree.readFile s.site.directory (Path.join workspace (outputNameOf p)) =
      match data with
        | some data => .ok data
        | none => .error (.io ⟨.notFound, Path.join workspace (outputNameOf p)⟩)) (status : Int) :
    ∃ outcome, (r.executed (Engine.installed (some path)) workspace p status).exec s = (outcome, s) ∧
      Answers Prod.fst (if status = 0 then data else none) outcome := by
  by_cases hstatus : status = 0
  · subst hstatus
    have hexec : ((Engine.installed (some path)).readOutput workspace (outputNameOf p)).exec s =
        (s.tree.readFile s.site.directory (Path.join workspace (outputNameOf p)), s) := by
      dsimp only [Engine.installed]
      rw [Engine.workspacePath_eq hname, exec_bind, exec_lift]
      exact exec_readFile _ s
    rw [hread] at hexec
    rw [if_pos rfl]
    cases data with
    | none => exact ⟨_, exec_executed_of_unread hexec, .failure _ _ _⟩
    | some data =>
      refine ⟨.ok (data, outputNameOf p), ?_, @Answers.result _ Prod.fst (data, outputNameOf p)⟩
      unfold executed output
      rw [if_neg (by simp), exec_bind, exec_bind, exec_attempt, hexec]
      rfl
  · rw [if_neg hstatus]
    exact ⟨_, exec_executed_of_ne hstatus, .failure _ _ _⟩

/-- A playable program is made ready in a workspace where nothing is. -/
theorem exists_ready (path : String) (hp : IsPlayable p payloads)
    (hw : base.IsRoomy s.site.directory workspace place) (h : IsWorkspace base place [] s.tree) :
    ∃ p' words t s₁, Ends (r.ready (Engine.installed (some path)) workspace p payloads) s (p', words) s₁ ∧
      outputNameOf p' = outputNameOf p ∧ words.getLast? = some (outputNameOf p) ∧
      IsWorkspace base place ((written p payloads).map Prod.fst) t ∧ Idles { s with tree := t } s₁ := by
  obtain ⟨t, hwrites, hfilled⟩ := written_ends hw h fun file hfile =>
    hp.isFileName _ (.tail _ (List.mem_map_of_mem hfile))
  rw [List.append_nil] at hfilled
  obtain ⟨p', s₁, hdrop, hidle⟩ :=
    exists_dropSilent hr hp.input_isName workspace path p { s with tree := t }
  obtain ⟨answers, -, -, hp'⟩ := dropSilent_ends hdrop
  have honame : outputNameOf p' = outputNameOf p := by rw [hp', outputNameOf_foldl_dropSound]
  obtain ⟨words, hwords⟩ : ∃ words, p'.arguments = .ok words := by
    rw [hp']
    exact Outcome.isOk_iff.1 (hp.isOk_arguments _)
  exact ⟨p', words, t, s₁, ends_bind.2 ⟨(), _, hwrites, ends_bind.2 ⟨p', s₁, hdrop,
    ends_bind.2 ⟨words, s₁, ends_lift.2 ⟨hwords, rfl⟩, ends_pure.2 ⟨rfl, rfl⟩⟩⟩⟩, honame,
    honame ▸ getLast?_arguments hwords, hfilled, hidle⟩

omit hr in
/-- What a run leaves is read back, and a file that it does not leave is not there. -/
theorem readFile_of_isRun {name : String} {status : Int} (hname : IsFileName name)
    (hw : base.IsRoomy s.site.directory workspace place) (h : IsWorkspace base place files s.tree)
    (hfresh : name ∉ files) (hran : Engine.IsRun workspace name status s s') :
    s'.tree.readFile s'.site.directory (Path.join workspace name) =
      match Engine.Product.bytes? (s.runCount + 1) (s.runs.headD {}).product with
        | some data => .ok data
        | none => .error (.io ⟨.notFound, Path.join workspace name⟩) := by
  have hleft := hran.left
  rw [hran.site]
  split
  · rename_i data hdata
    rw [hdata] at hleft
    exact readFile_of_writeFile h.isSound hleft
  · rename_i hnone
    rw [hnone] at hleft
    rw [show s'.tree = s.tree from hleft]
    exact h.readFile_of_not_mem hw hname hfresh

theorem execute_answers (path : String) (hp : IsPlayable p payloads)
    (hw : base.IsRoomy s.site.directory workspace place) (h : IsWorkspace base place [] s.tree)
    (hrun : Engine.IsLegible (s.runs.headD {})) : ∃ outcome s' files,
    (r.execute (Engine.installed (some path)) workspace p payloads).exec s = (outcome, s') ∧
    Answers Prod.fst (s.product? 0) outcome ∧ IsWorkspace base place files s'.tree ∧
    s'.site = s.site ∧ s'.runs = s.runs.tail ∧ s'.runCount = s.runCount + 1 ∧
    s'.workspaceCount = s.workspaceCount ∧ s'.engine = s.engine := by
  have hname : IsFileName (outputNameOf p) := hp.isFileName _ (.head _)
  obtain ⟨p', words, t, s₁, hready, honame, hlast, hfilled, hidle⟩ := exists_ready hr path hp hw h
  rw [← show s₁.site = s.site from hidle.site] at hw
  rw [← show s₁.tree = t from hidle.tree] at hfilled
  rw [← show s₁.runs = s.runs from hidle.runs] at hrun
  obtain ⟨s₂, hexecute, hran, hfilled', hengine⟩ := Engine.execute_ends hw hfilled
    (advance_isIdle hr) (note_isIdle hr) hrun hname hlast
  have hproduct : s.product? 0 = if (s₁.runs.headD {}).status = 0 then
      Engine.Product.bytes? (s₁.runCount + 1) (s₁.runs.headD {}).product else none := by
    rw [hidle.runs, hidle.runCount]
    rfl
  have hfresh : outputNameOf p ∉ (written p payloads).map Prod.fst := by
    intro hmem
    obtain ⟨file, hfile, heq⟩ := List.mem_map.1 hmem
    exact hp.output_fresh file hfile heq
  have hread := readFile_of_isRun hname hw hfilled hfresh hran
  obtain ⟨outcome, hexecuted, hanswers⟩ := @executed_answers _ r s₂ workspace path p'
    (honame ▸ hname.toIsName) _ (by rw [honame]; exact hread) (s₁.runs.headD {}).status
  refine ⟨outcome, s₂, _, (exec_execute hready hexecute).trans hexecuted, hproduct ▸ hanswers, hfilled',
    hran.site.trans hidle.site, ?_, ?_, ?_, hengine.trans hidle.engine⟩
  · rw [hran.runs, hidle.runs]
  · rw [hran.runCount, hidle.runCount]
  · rw [hran.workspaceCount, hidle.workspaceCount]

/-! ### The whole run -/

omit hr in
theorem closed_ends' (r : Renderer σ) (path : String) (hw : base.IsRoomy s.site.directory workspace place)
    (h : IsWorkspace base place files s.tree) : ∃ t,
    Ends (r.closed (Engine.installed (some path)) workspace) s () { s with tree := t } ∧
    ((∀ other, t.entry? other = base.entry? other) ∨ r.keepTemp = true ∧ t = s.tree) := by
  unfold closed
  cases hkeep : r.keepTemp with
  | true => exact ⟨s.tree, ends_pure.2 ⟨rfl, rfl⟩, .inr ⟨rfl, rfl⟩⟩
  | false =>
    exact ⟨_, exec_removeTree workspace s, .inl (h.removeTree hw.toIsSpot)⟩

theorem concluded_ends' (output : ByteArray × String) (s : Studio σ) : ∃ result s',
    Ends (r.concluded output) s result s' ∧ result.output = output.1 ∧ s.Idles s' := by
  obtain ⟨s', hadvance, hidle⟩ := advance_isIdle hr (.ofInt 1) s
  exact ⟨_, s', ends_bind.2 ⟨(), s', hadvance, ends_bind.2 ⟨_, s', ends_driver.2 ⟨rfl, rfl⟩,
    ends_pure.2 ⟨rfl, rfl⟩⟩⟩, rfl, hidle⟩

theorem started_plays (hp : IsPlayable p payloads) (hload : s.engineOutcome binary = .ok loaded)
    (hroom : s.HasRoom r.cacheDirectory (count + 1)) (hs : s.tree.IsSound)
    (hrun : Engine.IsLegible (s.runs.headD {})) : ∃ outcome s',
    (r.started p payloads).exec s = (outcome, s') ∧
    ∀ pool : DriverPool, pool.holder = none → r.Plays s outcome { s' with pool } := by
  obtain ⟨s₁, place, hopened, hroomy, hworkspace, hsite, hruns, hcount, hworkspaces, hengine⟩ :=
    opened_ends' hr (p := p) hload hroom hs
  have hroomy' := hroomy
  rw [← hsite] at hroomy'
  rw [← hruns] at hrun
  obtain ⟨outcome, s₂, files, hexecute, hanswers, hfilled, hsite', hruns', hcount', hworkspaces',
    hengine'⟩ := execute_answers hr loaded.path hp hroomy' hworkspace hrun
  rw [← hsite'] at hroomy'
  obtain ⟨t, hclosed, hleft⟩ := closed_ends' r loaded.path hroomy' hfilled
  have hstarted := exec_started hopened (show Ends _ _ () _ by rw [hexecute]; exact hclosed)
  rw [hexecute] at hstarted
  have hproduct : s₁.product? 0 = s.product? 0 := by rw [product?_congr hruns hcount]
  have hkept : (∀ place, t.entry? place = FileTree.entry? (s.ground r.cacheDirectory) place) ∨
      r.keepTemp = true ∧ ∃ place files, (s.ground r.cacheDirectory).IsRoomy s.site.directory
        (s.workspacePath r.cacheDirectory) place ∧
        IsWorkspace (s.ground r.cacheDirectory) place files t :=
    hleft.imp_right fun ⟨hkeep, ht⟩ => ⟨hkeep, place, files, hroomy, ht ▸ hfilled⟩
  have hloaded : s₂.engine.isSome = true := by
    rw [hengine', hengine]
    rfl
  rw [hproduct] at hanswers
  generalize hproduct' : s.product? 0 = product at hanswers
  cases hanswers with
  | failure problem logText status =>
    refine ⟨_, _, hstarted, fun pool hpool => ⟨hproduct' ▸ .failure _ _ _, hsite'.trans hsite, ?_, ?_, ?_,
      hloaded, hpool, hkept⟩⟩
    · exact hruns'.trans (congrArg List.tail hruns)
    · exact hcount'.trans (congrArg (· + 1) hcount)
    · exact hworkspaces'.trans hworkspaces
  | result output =>
    obtain ⟨result, s', hconcluded, hsame, hidle⟩ :=
      concluded_ends' hr output { s₂ with tree := t }
    refine ⟨.ok result, s', hstarted.trans hconcluded, fun pool hpool => ⟨?_, ?_, ?_, ?_, ?_, ?_, hpool, ?_⟩⟩
    · rw [hproduct', ← hsame]
      exact .result result
    · exact hidle.site.trans (hsite'.trans hsite)
    · exact hidle.runs.trans (hruns'.trans (congrArg List.tail hruns))
    · exact hidle.runCount.trans (hcount'.trans (congrArg (· + 1) hcount))
    · exact hidle.workspaceCount.trans (hworkspaces'.trans hworkspaces)
    · exact (congrArg Option.isSome hidle.engine).trans hloaded
    · dsimp only
      rw [hidle.tree]
      exact hkept

/-- A run that finds the engine free, and room for its workspace, is played by the engine. -/
theorem run_plays (hp : IsPlayable p payloads) (hfree : s.pool.holder = none)
    (hload : s.engineOutcome binary = .ok loaded) (hroom : s.HasRoom r.cacheDirectory (count + 1))
    (hs : s.tree.IsSound) (hrun : Engine.IsLegible (s.runs.headD {})) :
    ∃ outcome s', (r.run p payloads).exec s = (outcome, s') ∧ r.Plays s outcome s' := by
  have hbegun : s.Idles (s.begun r.id p) := ⟨⟨rfl, rfl, rfl, rfl, rfl⟩, rfl, rfl⟩
  rw [← hbegun.engineOutcome] at hload
  obtain ⟨outcome, s', hstarted, hplays⟩ :=
    started_plays hr hp hload (hroom.of_atRest hbegun.toAtRest) hs hrun
  have hran := exec_run_of_complete (r := r) hfree hp.complete
  rw [hstarted] at hran
  have hdone := hplays (s'.pool.release r.id (!outcome.isOk)) rfl
  exact ⟨outcome, _, hran, hdone.answers, hdone.site, hdone.runs, hdone.runCount, hdone.workspaceCount,
    hdone.loaded, rfl, hdone.left⟩

/-- A run whose engine does not load fails for that reason, and leaves nothing. -/
theorem run_unloaded (hcomplete : missing p payloads = []) (hfree : s.pool.holder = none) {e : Fault}
    (hload : s.engineOutcome binary = .error e) :
    ∃ s', (r.run p payloads).exec s = (.error e, s') ∧ s.AtRest s' := by
  have hbegun : s.Idles (s.begun r.id p) := ⟨⟨rfl, rfl, rfl, rfl, rfl⟩, rfl, rfl⟩
  rw [← hbegun.engineOutcome] at hload
  obtain ⟨s', hopened, hrest⟩ := opened_fails hr (p := p) hload
  have hran := exec_run_of_complete (r := r) hfree hcomplete
  have hstarted : (r.started p payloads).exec (s.begun r.id p) = (.error e, s') := by
    rw [started, exec_bind, hopened]
  rw [hstarted] at hran
  refine ⟨_, hran, AtRest.trans _ _ _ hbegun.toAtRest ?_⟩
  exact ⟨hrest.tree, hrest.site, hrest.runs, hrest.runCount, hrest.workspaceCount⟩

end Quiet

end Renderer

theorem Studio.HasLegibleRuns.headD {s : Studio σ} (h : s.HasLegibleRuns) :
    Engine.IsLegible (s.runs.headD {}) := by
  cases hruns : s.runs with
  | nil => exact fun line hline => absurd hline List.not_mem_nil
  | cons run rest => exact h run (by simp [hruns])

end Montage
