import Montage.Proofs.Export.Closed
import Montage.Proofs.Render.Footprint

/-!
# An export is all or nothing

Whatever the engine does in its workspaces, what goes wrong in an export before there is an output changes
nothing that is there, and what goes right ends up in the file of the output as the engine left it
(`ExportJob.run_isAtomic`). The only traces of an export besides are those of its workspaces: the
directory that they are made in, when it was missing, and the workspace itself, when it is to be kept.
-/

namespace Montage

open Montage.Graph Session Studio FileTree

variable {σ : Type}

/-! ### Files that are delivered -/

/-- A file is written into its directory, which is made when it is missing. -/
def FileTree.Delivers (t : FileTree) (directory file : String) (data : ByteArray) (t' : FileTree) :
    Prop :=
  ∃ t₁, (t.isDirectory directory (baseOf directory file) = true ∧ t₁ = t ∨
      t.isDirectory directory (baseOf directory file) = false ∧
        t.makeDirectories directory (baseOf directory file) = (t₁, none)) ∧
    t₁.writeFile directory file data = .ok t'

variable {t t' : FileTree} {directory file : String} {data : ByteArray}

theorem FileTree.Delivers.readFile (h : t.Delivers directory file data t') (hs : t.IsSound) :
    t'.readFile directory file = .ok data := by
  obtain ⟨t₁, hdirectory, hwrite⟩ := h
  refine readFile_of_writeFile ?_ hwrite
  obtain ⟨-, rfl⟩ | ⟨-, hmade⟩ := hdirectory
  · exact hs
  · have hgrows := t.makeDirectories_grows directory (baseOf directory file)
    rw [hmade] at hgrows
    exact hgrows.isSound hs

theorem Session.exec_isDirectory (path : String) (s : Studio σ) :
    (Session.isDirectory path).exec s = (.ok (s.tree.isDirectory s.site.directory path), s) := by
  have htree : Session.exec tree s = (.ok s.tree, s) := rfl
  have hsite : Session.exec site s = (.ok s.site, s) := rfl
  rw [Session.isDirectory, exec_bind, htree]
  dsimp only
  rw [exec_bind, hsite]
  dsimp only
  rw [exec_pure]

theorem ExportJob.writeOutput_ends {s : Studio σ}
    (h : s.tree.Delivers s.site.directory file data t) :
    ∃ s', Ends (writeOutput file data) s () s' ∧ s'.tree = t := by
  obtain ⟨t₁, hdirectory, hwrite⟩ := h
  have hensured : Ends (ensureDirectory (baseOf s.site.directory file)) s () { s with tree := t₁ } := by
    rw [Ends, ensureDirectory, exec_bind, exec_isDirectory]
    dsimp only
    obtain ⟨hheld, rfl⟩ | ⟨hmissing, hmade⟩ := hdirectory
    · rw [hheld]
      rfl
    · have hmissing' := exec_makeDirectories (baseOf s.site.directory file) s
      rw [hmade] at hmissing'
      rw [hmissing]
      exact hmissing'
  have hwritten : Ends (Session.writeFile file data) { s with tree := t₁ } () { s with tree := t } := by
    rw [Ends, exec_writeFile]
    dsimp only
    rw [hwrite]
  obtain ⟨s', hsaid⟩ := say_ends s!"wrote {file} ({Measure.fileSize data.size})" { s with tree := t }
  refine ⟨s', ?_, ((AtRest.say _).ends hsaid).tree⟩
  exact ends_bind.2 ⟨_, s, ends_site.2 ⟨rfl, rfl⟩, ends_bind.2 ⟨(), _, hensured,
    ends_bind.2 ⟨(), _, hwritten, hsaid⟩⟩⟩

namespace Renderer

variable {r : Renderer σ} {s s' : Studio σ}

theorem Leaves.isSound (h : r.Leaves s s') (hs : s.tree.IsSound) : s'.tree.IsSound := by
  cases h with
  | nothing h =>
    intro place n hn
    rw [h] at hn ⊢
    exact hs place n hn
  | ground h =>
    intro place n hn
    rw [h] at hn ⊢
    exact (s.grows_ground r.cacheDirectory).isSound hs place n hn
  | workspace _ _ h => exact h.isSound

/-- Whatever was there stays. -/
theorem Leaves.kept (h : r.Leaves s s') (hs : s.tree.IsSound) {place : List String} {e : FileEntry}
    (hplace : s.tree.entry? place = some e) : s'.tree.entry? place = some e := by
  have hgrows := s.grows_ground r.cacheDirectory
  have hground := hgrows.kept place e hplace
  cases h with
  | nothing h => rw [h, hplace]
  | ground h => rw [h, hground]
  | workspace _ _ h => rw [h.entry?_base (hgrows.isSound hs) (by rw [hground]; exact nofun), hground]

/-- Without a workspace to be kept, and without a directory to be made for it, nothing is left. -/
theorem Leaves.nowhere (h : r.Leaves s s') (hkeep : r.keepTemp = false)
    (hheld : ∀ d, r.cacheDirectory = some d → s.tree.holds s.site.directory d = true)
    (place : List String) : s'.tree.entry? place = s.tree.entry? place := by
  have hground := ground_of_held hheld
  cases h with
  | nothing h => exact h place
  | ground h => rw [h, hground]
  | workspace hkept => rw [hkeep] at hkept; cases hkept

end Renderer

theorem prepareExport_atRest (compiler : Compiler) (t : Timeline) (quality : Value)
    (resolver : Resolver) :
    Respects AtRest (prepareExport compiler t quality resolver : Session σ Supplied) := by
  refine respects_bind AtRest.trans (AtRest.resolveAll resolver _) fun assets => ?_
  refine respects_bind AtRest.trans (respects_lift AtRest.refl _) fun p => ?_
  refine respects_bind AtRest.trans (AtRest.say _) fun _ => ?_
  have hfonts (fonts : List String) (given : Supplied) :
      Respects AtRest (supplyFonts resolver fonts given : Session σ Supplied) := by
    induction fonts generalizing given with
    | nil => exact respects_pure AtRest.refl _
    | cons font rest ih =>
      refine respects_bind AtRest.trans (AtRest.font? resolver font) fun found => ?_
      cases found with
      | none => exact ih _
      | some data => exact ih _
  exact hfonts _ _

theorem hasOwnNames_of_isClosed {font? : String → Option ByteArray} {t : Timeline} {x : Supplied}
    (h : IsClosed font? t x x.program) : Renderer.HasOwnNames x.program x.payloads := by
  obtain ⟨e, hencode, hplain, hfresh⟩ := h.output
  have houtput : Renderer.outputNameOf x.program = e.outputName := by
    rw [Renderer.outputNameOf, hencode]
    rfl
  rw [← houtput] at hplain hfresh
  have hmem {file : String × ByteArray} := (written_perm x).mem_iff (a := file)
  exact ⟨fun file hfile => isName_of_isPlainName (h.names_plain file (hmem.1 hfile)),
    isName_of_isPlainName hplain, fun file hfile => hfresh file (hmem.1 hfile)⟩

theorem outputNameOf_prepared {compiler : Compiler} {t : Timeline} {quality : Value}
    {resolver : Resolver} {s s' : Studio σ} {x : Supplied}
    (h : Ends (prepareExport compiler t quality resolver) s x s') :
    Renderer.outputNameOf x.program = compiler.outputName := by
  obtain ⟨assets, p, hcompiled, hprogram, -⟩ := prepareExport_eq h
  have hencode : x.program.encode = p.encode := by rw [hprogram, foldl_dropFont_rest]
  rw [Renderer.outputNameOf, hencode, hcompiled.outputName_eq]
  rfl

/-- However an export goes, the files are as before but for the traces of its workspace, and what it
gives out is what the engine left under the name of the output. -/
theorem exportTimeline_leaves {r : Renderer σ} (hr : r.IsWatched) {canvas : Canvas} (t : Timeline)
    (quality : Value) (resolver : Resolver) {s : Studio σ} (hs : s.tree.IsSound) :
    let ran := (exportTimeline { canvas } t quality resolver r).exec s
    r.Leaves s ran.2 ∧ ran.2.site = s.site ∧ ∀ result, ran.1 = .ok result →
      ∃ x s₁, Ends (prepareExport { canvas } t quality resolver) s x s₁ ∧
        r.Yields x.program x.payloads s₁ result := by
  have hprepared := prepareExport_atRest { canvas } t quality resolver s
  rw [exportTimeline, exec_bind]
  rcases hprepare : Session.exec _ s with ⟨e | x, s₁⟩
  · rw [hprepare] at hprepared
    exact ⟨.of_atRest hprepared, hprepared.site, nofun⟩
  rw [hprepare] at hprepared
  dsimp only
  have hclosed := prepareExport_isClosed (show Ends _ s x s₁ from hprepare) []
  obtain ⟨hleaves, hsite, hyields⟩ := @Renderer.run_leaves _ r x.program x.payloads s₁ hr
    (hprepared.tree ▸ hs) fun _ => hasOwnNames_of_isClosed hclosed
  exact ⟨hleaves.congr hprepared (AtRest.refl _), hsite.trans hprepared.site,
    fun result hresult => ⟨x, s₁, hprepare, hyields result hresult⟩⟩

/-! ### Dry runs -/

/-- Nothing has been done but to report. -/
structure Studio.OnlySays (s s' : Studio σ) : Prop extends s.AtRest s' where
  versions : s'.versions = s.versions
  engine : s'.engine = s.engine
  pool : s'.pool = s.pool
  commands : s'.commands = s.commands
  probes : s'.probes = s.probes
  requests : s'.requests = s.requests

namespace Studio.OnlySays

theorem refl (s : Studio σ) : s.OnlySays s := ⟨AtRest.refl s, rfl, rfl, rfl, rfl, rfl, rfl⟩

theorem trans (s₁ s₂ s₃ : Studio σ) (h : s₁.OnlySays s₂) (h' : s₂.OnlySays s₃) : s₁.OnlySays s₃ where
  toAtRest := AtRest.trans _ _ _ h.toAtRest h'.toAtRest
  versions := h'.versions.trans h.versions
  engine := h'.engine.trans h.engine
  pool := h'.pool.trans h.pool
  commands := h'.commands.trans h.commands
  probes := h'.probes.trans h.probes
  requests := h'.requests.trans h.requests

theorem say (message : String) : Respects OnlySays (Session.say message : Session σ Unit) :=
  say_respects refl trans (fun _ _ => ⟨⟨rfl, rfl, rfl, rfl, rfl⟩, rfl, rfl, rfl, rfl, rfl, rfl⟩)
    (fun _ _ _ => ⟨⟨rfl, rfl, rfl, rfl, rfl⟩, rfl, rfl, rfl, rfl, rfl, rfl⟩)
    fun _ _ => ⟨⟨rfl, rfl, rfl, rfl, rfl⟩, rfl, rfl, rfl, rfl, rfl, rfl⟩

end Studio.OnlySays

namespace ExportJob

variable {job : ExportJob σ}

theorem dryRun_onlySays (job : ExportJob σ) : Respects OnlySays job.dryRun := by
  refine respects_bind OnlySays.trans (respects_lift OnlySays.refl _) fun p => ?_
  refine respects_bind OnlySays.trans ?_ fun _ => OnlySays.say _
  exact respects_forM OnlySays.refl OnlySays.trans (fun _ => OnlySays.say _) _

/-- A dry run only reports, and asks for neither its media nor its engine. Any other job that fails
before it has an output has only the traces of its workspace left behind, and changes nothing that was
there; one that has an output, which is what the engine left by that name, has it in its file when that
can be written. -/
theorem run_isAtomic {canvas : Canvas} (hcompiler : job.compiler = { canvas })
    (hr : job.renderer.IsWatched) :
    (job.request.options.dryRun = true →
      (∀ s : Studio σ, s.OnlySays (job.run.exec s).2) ∧
      ∀ resolver renderer, { job with resolver, renderer }.run = job.run) ∧
    (job.request.options.dryRun = false → ∀ s, s.tree.IsSound →
      let exported := (exportTimeline job.compiler job.request.timeline job.request.quality
        job.resolver job.renderer).exec s
      job.renderer.Leaves s exported.2 ∧
      (∀ place e, s.tree.entry? place = some e → exported.2.tree.entry? place = some e) ∧
      (job.renderer.keepTemp = false →
        (∀ d, job.renderer.cacheDirectory = some d → s.tree.holds s.site.directory d = true) →
        ∀ place, exported.2.tree.entry? place = s.tree.entry? place) ∧
      (∀ e, exported.1 = .error e → job.run.exec s = (.error e, exported.2)) ∧
      ∀ result, exported.1 = .ok result →
        result.outputName = job.compiler.outputName ∧
        (∃ x s₁, Ends (prepareExport job.compiler job.request.timeline job.request.quality
            job.resolver) s x s₁ ∧ job.renderer.Yields x.program x.payloads s₁ result) ∧
        ∀ t, exported.2.tree.Delivers s.site.directory job.request.outputFile result.output t →
          ∃ s', Ends job.run s (some result) s' ∧ s'.tree = t ∧
            t.readFile s.site.directory job.request.outputFile = .ok result.output) := by
  refine ⟨fun hdry => ⟨?_, fun resolver renderer => ?_⟩, fun hdry s hs => ?_⟩
  · have hrun : job.run = (do
        job.dryRun
        return none) := if_pos hdry
    rw [hrun]
    exact respects_bind OnlySays.trans job.dryRun_onlySays fun _ => respects_pure OnlySays.refl _
  · exact (if_pos hdry).trans (if_pos hdry).symm
  have hrun : job.run = (do
      let result ← exportTimeline job.compiler job.request.timeline job.request.quality job.resolver
        job.renderer
      writeOutput job.request.outputFile result.output
      return some result) := if_neg (by simp [hdry])
  have hexported := @exportTimeline_leaves _ job.renderer hr canvas job.request.timeline
    job.request.quality job.resolver s hs
  rw [← hcompiler] at hexported
  rw [hrun, exec_bind]
  rcases hexport : Session.exec _ s with ⟨outcome, s₁⟩
  rw [hexport] at hexported
  obtain ⟨hleaves, hsite, hyields⟩ := hexported
  refine ⟨hleaves, fun place e => hleaves.kept hs, hleaves.nowhere, ?_, fun result hresult => ?_⟩
  · rintro e ⟨⟩
    rfl
  dsimp only at hresult
  subst hresult
  obtain ⟨x, s₂, hprepared, hyield⟩ := hyields result rfl
  refine ⟨hyield.outputName_eq.trans (outputNameOf_prepared hprepared), ⟨x, s₂, hprepared, hyield⟩,
    fun t hdelivers => ?_⟩
  dsimp only at hsite hdelivers hleaves
  have hread := hdelivers.readFile (hleaves.isSound hs)
  rw [← hsite] at hdelivers
  obtain ⟨s', hwritten, htree⟩ := writeOutput_ends hdelivers
  exact ⟨s', ends_bind.2 ⟨result, s₁, hexport, ends_bind.2 ⟨(), s', hwritten,
    ends_pure.2 ⟨rfl, rfl⟩⟩⟩, htree, hread⟩

end ExportJob

/-! ### A blank film, with an output from before -/

def blankJob (options : ExportOptions) : ExportJob Unit where
  request := {
    file := "/job.yaml", options, outputFile := "/out/final.mp4", quality := "low"
    timeline := { tracks := [] } }
  resolver := {}
  renderer := {
    loadEngine := Engine.shared "ffmpeg"
    keepTemp := options.keepTemp
    cacheDirectory := options.cacheDirectory }

/-- A studio whose next run of the engine has this status. -/
def blankStudio (status : Int) : Studio Unit where
  tree := ⟨[(["out"], .directory), (["out", "final.mp4"], .file "old".toUTF8), (["tmp"], .directory)]⟩
  runs := [{ status }]
  front := ()

/-- An engine that cannot be asked for streams, and whose programs break off amid the output. -/
def Engine.broken : Engine Unit where
  newWorkspace := Engine.newWorkspace?
  removeWorkspace := Session.removeTree
  writeInput := (Engine.installed none).writeInput
  readOutput := (Engine.installed none).readOutput
  hasAudio _ _ := throw (.io ⟨.notFound, "ffmpeg"⟩)
  execute workspace words _ _ _ := do
    Session.writeFile (Path.join workspace (words.getLast?.getD "")) "half".toUTF8
    throw (.misuse .range)

theorem Engine.broken_isTidy : Engine.broken.IsTidy where
  newWorkspace_eq := rfl
  removeWorkspace_eq := rfl
  writeInput_eq := rfl
  readOutput_eq := rfl
  hasAudio _ _ := respects_throw StaysAt.refl _
  execute := by
    intro _ _ _ name _ _ _ _ _ hw hlast hname _ _
    refine StaysAt.of_staysIn name fun files => ?_
    refine respects_bind StaysIn.trans ?_ fun _ => respects_throw StaysIn.refl _
    rw [hlast]
    exact StaysIn.writeFile hw hname (.head files) _

/-- The job of the blank film with the broken engine. -/
def brokenJob : ExportJob Unit := { blankJob {} with renderer := { loadEngine := pure Engine.broken } }

theorem blankJob_isWatched (options : ExportOptions) : (blankJob options).renderer.IsWatched :=
  Renderer.isWatched_of_shared rfl (fun _ => respects_pure AtRest.refl ())
    fun _ => respects_pure AtRest.refl ()

theorem brokenJob_isWatched : brokenJob.renderer.IsWatched where
  loadEngine := respects_pure AtRest.refl Engine.broken
  engine h := (ends_pure.1 h).1 ▸ Engine.broken_isTidy
  onProgress _ := respects_pure AtRest.refl ()
  onLine _ := respects_pure AtRest.refl ()

theorem blankStudio_isSound (status : Int) : (blankStudio status).tree.IsSound :=
  isSound_of_entries (List.forall_mem_cons.2 ⟨rfl, List.forall_mem_cons.2 ⟨rfl,
    List.forall_mem_cons.2 ⟨rfl, List.forall_mem_nil _⟩⟩⟩)

/-- The render of a job, by itself. -/
def blankExport (job : ExportJob Unit) (status : Int) : Except Fault RenderResult × Studio Unit :=
  (exportTimeline job.compiler job.request.timeline job.request.quality job.resolver
    job.renderer).exec (blankStudio status)

theorem blankJob_isAtomic :
    (∃ result s', Ends (blankJob {}).run (blankStudio 0) (some result) s' ∧
      s'.tree.readFile "/" "/out/final.mp4" = .ok "rendered 1".toUTF8) ∧
    (∃ e s', (blankJob {}).run.exec (blankStudio 1) = (.error e, s') ∧
      ∀ place, s'.tree.entry? place = (blankStudio 1).tree.entry? place) ∧
    ∃ s', brokenJob.run.exec (blankStudio 0) = (.error (.misuse .range), s') ∧
      ∀ place, s'.tree.entry? place = (blankStudio 0).tree.entry? place := by
  obtain ⟨-, hrun⟩ := @ExportJob.run_isAtomic Unit (blankJob {}) {} rfl (blankJob_isWatched {})
  obtain ⟨-, hbroken⟩ := @ExportJob.run_isAtomic Unit brokenJob {} rfl brokenJob_isWatched
  refine ⟨?_, ?_, ?_⟩
  · obtain ⟨-, -, -, -, hdone⟩ := hrun rfl (blankStudio 0) (blankStudio_isSound 0)
    have hcheck : (blankExport (blankJob {}) 0).1.toOption.any (fun result =>
        result.output = "rendered 1".toUTF8 &&
        let t := (blankExport (blankJob {}) 0).2.tree
        t.isDirectory "/" (baseOf "/" "/out/final.mp4") &&
          (t.writeFile "/" "/out/final.mp4" result.output).isOk) = true := by
      decide +kernel
    obtain ⟨result, hresult, hcheck⟩ := Outcome.exists_ok_of_any hcheck
    rw [Bool.and_eq_true, Bool.and_eq_true, decide_eq_true_iff] at hcheck
    obtain ⟨houtput, hheld, hwrite⟩ := hcheck
    obtain ⟨t, hwrite⟩ := Outcome.isOk_iff.1 hwrite
    obtain ⟨-, -, hdelivered⟩ := hdone result hresult
    obtain ⟨s', hends, rfl, hread⟩ := hdelivered t ⟨_, .inl ⟨hheld, rfl⟩, hwrite⟩
    exact ⟨result, s', hends, houtput ▸ hread⟩
  · obtain ⟨-, -, hsame, hfailed, -⟩ := hrun rfl (blankStudio 1) (blankStudio_isSound 1)
    have hcheck : (blankExport (blankJob {}) 1).1.isOk = false := by decide +kernel
    rcases hexport : (blankExport (blankJob {}) 1).1 with e | result
    · exact ⟨e, _, hfailed e hexport, hsame rfl nofun⟩
    · rw [hexport] at hcheck
      cases hcheck
  · obtain ⟨-, -, hsame, hfailed, -⟩ := hbroken rfl (blankStudio 0) (blankStudio_isSound 0)
    have hcheck : (match (blankExport brokenJob 0).1 with
        | .error e => decide (e = .misuse .range)
        | .ok _ => false) = true := by
      decide +kernel
    rcases hexport : (blankExport brokenJob 0).1 with e | result
    · rw [hexport] at hcheck
      obtain rfl := of_decide_eq_true hcheck
      exact ⟨_, hfailed _ hexport, hsame rfl nofun⟩
    · rw [hexport] at hcheck
      cases hcheck

/-- What is asked for when the workspace is to be kept in the directory of the output. -/
def keptOptions : ExportOptions := { cacheDirectory := some "/out", keepTemp := true }

/-- A run that fails leaves its workspace in the directory of the output. -/
theorem blankJob_keepsWorkspace : ∃ e s', (blankJob keptOptions).run.exec (blankStudio 1) = (.error e, s') ∧
    baseOf "/" (blankJob keptOptions).request.outputFile = "/out" ∧
    ((blankStudio 1).tree.children ["out"]).map Prod.fst = ["final.mp4"] ∧
    (s'.tree.children ["out"]).map Prod.fst = ["final.mp4", "clipgraph-job-1"] := by
  have hfailed : ((blankJob keptOptions).run.exec (blankStudio 1)).1.isOk = false := by decide +kernel
  rcases hexec : (blankJob keptOptions).run.exec (blankStudio 1) with ⟨e | result, s'⟩
  · have hchildren :
        (((blankJob keptOptions).run.exec (blankStudio 1)).2.tree.children ["out"]).map Prod.fst =
          ["final.mp4", "clipgraph-job-1"] := by
      decide +kernel
    rw [hexec] at hchildren
    exact ⟨e, s', rfl, by decide +kernel, by decide +kernel, hchildren⟩
  · rw [hexec] at hfailed
    cases hfailed

end Montage
