import Montage.Proofs.Export.Supply
import Montage.Proofs.Graph.Compilable
import Montage.Proofs.Graph.Pruned
import Montage.Proofs.Render.Heard

/-!
# The plan is what runs

When all media and fonts of a job can be had, and its engine hears all sounds, the program of the run
is the program of the plan: with the same words for the engine, and with the same warnings
(`ExportJob.run_isPlanned`).
-/

namespace Montage.Graph

variable {c : Compiler} {t : Timeline} {quality : Value} {assets : Option Assets}

theorem layerWarnings_of_available
    (havailable : ∀ clip ∈ requiredClips t, clip.isAvailable assets = true) :
    layerWarnings t assets = layerWarnings t none := by
  have hclips : (requiredClips t).filterMapM (clipWarning? assets) =
      (requiredClips t).filterMapM (clipWarning? none) := by
    revert havailable
    induction requiredClips t with
    | nil => exact fun _ => rfl
    | cons clip rest ih =>
      intro havailable
      obtain ⟨hfirst, hrest⟩ := List.forall_mem_cons.1 havailable
      have hwarning : clipWarning? assets clip = .ok none := by
        rw [clipWarning?, (isAvailable_iff.1 hfirst).2]
        rfl
      rw [List.filterMapM_cons, List.filterMapM_cons, hwarning, clipWarning?_of_isAvailable hfirst,
        ih hrest]
  rw [layerWarnings, layerWarnings, hclips]

theorem placed_of_available {ls : List Layer}
    (havailable : ∀ layer ∈ ls, layer.clip.isAvailable assets = true) :
    placed assets ls = placed none ls := by
  have husable : ls.filterMap (usable? assets) = ls.filterMap (usable? none) :=
    List.filterMap_congr fun layer hlayer => (usable?_none (havailable layer hlayer)).symm
  rw [placed, placed, husable]

/-- With assets for all clips that need them, a program is what it is without looking for any. -/
theorem compile_of_available
    (havailable : ∀ clip ∈ requiredClips t, clip.isAvailable assets = true) :
    c.compile t quality assets = c.compile t quality none := by
  have hplaced : placed assets (layers t) = placed none (layers t) :=
    placed_of_available fun layer hlayer => havailable _ (List.mem_map_of_mem hlayer)
  rw [Compiler.compile, Compiler.compile, layerWarnings_of_available havailable, hplaced]

end Montage.Graph

namespace Montage

open Montage.Graph Session

variable {σ : Type} {s s' : Studio σ}

namespace Shelf

variable {shelf : Shelf} {clips : List Clip} {assets : Assets}

/-- Where every clip can be fetched, each has an asset. -/
theorem isAvailable_of_results (h : List.Forall₂ shelf.IsResult clips assets)
    (hfetched : ∀ clip ∈ clips, (shelf.bytes? clip.source).isSome) {clip : Clip}
    (hclip : clip ∈ clips) : clip.isAvailable (some assets) = true := by
  have hsource : clip.source.isSome := by
    have hbytes := hfetched clip hclip
    cases hsource : clip.source with
    | none => rw [hsource] at hbytes; cases hbytes
    | some source => rfl
  obtain ⟨result, hresult, -, hok⟩ := get?_of_results h hclip
  -- The asset is that of the last clip with the same id, which can be fetched as well.
  have hlast : ∃ last ∈ clips, lastNamed clips clip.id = some last := by
    have hfound : (lastNamed clips clip.id).isSome := by
      rw [lastNamed, List.find?_isSome]
      exact ⟨clip, List.mem_reverse.2 hclip, by simp⟩
    obtain ⟨last, hlast⟩ := Option.isSome_iff_exists.1 hfound
    exact ⟨last, List.mem_reverse.1 (List.mem_of_find?_eq_some hlast), hlast⟩
  obtain ⟨last, hmem, hlast⟩ := hlast
  have hbytes : shelf.bytesNamed? clips clip.id = shelf.bytes? last.source := by
    rw [bytesNamed?, hlast, Option.bind_some]
  rw [hbytes, hfetched last hmem] at hok
  simp [Clip.isAvailable, hsource, hresult, hok]

/-- Clips that can be fetched are all reported when their names can be written. -/
theorem fault_resolveAll (hfetched : ∀ clip ∈ clips, (shelf.bytes? clip.source).isSome) :
    (shelf.resolveAll clips).fault = none ↔ ∀ clip ∈ clips, clip.name.hasText = true := by
  rw [fault_resolveAll_iff]
  refine forall₂_congr fun clip hclip => and_iff_right ?_
  obtain ⟨data, hdata⟩ := Option.isSome_iff_exists.1 (hfetched clip hclip)
  rw [resolve, bytes?_eq_some.1 hdata]
  rfl

end Shelf

namespace Resolver

variable {resolver : Resolver} {clips : List Clip}

theorem font?_of_found {name : String} (hfound : (resolver.fontIn s name).isSome) :
    ∃ data, Ends (resolver.font? name) s (some data) s := by
  unfold fontIn at hfound
  cases hpath : Font.find s.tree s.site.directory s.site.fonts name resolver.fontDirectories with
  | none => simp [hpath] at hfound
  | some path =>
    cases hread : s.tree.readFile s.site.directory path with
    | error e => simp [hpath, hread, Except.toOption] at hfound
    | ok data =>
      have hfile : Ends (Session.readFile path) s data s :=
        ends_bind.2 ⟨_, s, ends_tree.2 ⟨rfl, rfl⟩, ends_bind.2 ⟨_, s, ends_site.2 ⟨rfl, rfl⟩,
          ends_lift.2 ⟨hread, rfl⟩⟩⟩
      refine ⟨data, ends_bind.2 ⟨_, s, ends_site.2 ⟨rfl, rfl⟩, ends_bind.2 ⟨_, s,
        ends_tree.2 ⟨rfl, rfl⟩, ?_⟩⟩⟩
      rw [hpath]
      exact ends_bind.2 ⟨data, s, hfile, ends_pure.2 ⟨rfl, rfl⟩⟩

end Resolver

/-- Fonts that are all found are supplied, and nothing is dropped for them. -/
theorem supplyFonts_of_found {resolver : Resolver} {fonts : List String}
    (hfonts : ∀ font ∈ fonts, (resolver.fontIn s font).isSome) (given : Supplied) :
    ∃ x, Ends (supplyFonts resolver fonts given) s x s := by
  induction fonts generalizing given with
  | nil => exact ⟨given, ends_pure.2 ⟨rfl, rfl⟩⟩
  | cons font rest ih =>
    obtain ⟨hfirst, hrest⟩ := List.forall_mem_cons.1 hfonts
    obtain ⟨data, hdata⟩ := Resolver.font?_of_found hfirst
    obtain ⟨x, hx⟩ := ih hrest { given with payloads := given.payloads ++ [(fontFile font, data)] }
    exact ⟨x, ends_bind.2 ⟨some data, s, hdata, hx⟩⟩

section Prepared

variable {compiler : Compiler} {t : Timeline} {quality : Value} {resolver : Resolver}
  (hclips : ∀ clip ∈ requiredClips t, ((resolver.shelfIn s).bytes? clip.source).isSome)
  (hfonts : ∀ p, compiler.compile t quality none = .ok p →
    ∀ font ∈ p.fonts, (resolver.fontIn s font).isSome)

include hclips hfonts

/-- The program of an export that lacks nothing is compiled without looking for anything. -/
theorem prepareExport_program {x : Supplied}
    (h : (prepareExport compiler t quality resolver).Ends s x s') :
    compiler.compile t quality none = .ok x.program := by
  obtain ⟨assets, s₁, hassets, h⟩ := ends_bind.1 h
  obtain ⟨p, s₂, hlift, h⟩ := ends_bind.1 h
  obtain ⟨⟨⟩, s₃, hsay, hsupply⟩ := ends_bind.1 h
  obtain ⟨hcompile, rfl⟩ := ends_lift.1 hlift
  have hresults := Resolver.ends_resolveAll hassets
  rw [compile_of_available fun clip => Shelf.isAvailable_of_results hresults hclips] at hcompile
  have hworld : s.SameWorld s₃ := .of_atRest (.trans s s₁ s₃
    ((Studio.AtRest.resolveAll resolver _).ends hassets) ((Studio.AtRest.say _).ends hsay))
  have hnone : missingFonts (resolver.fontIn s) p.fonts = [] := by
    refine List.filter_eq_nil_iff.2 fun font hfont hmissing => ?_
    have hfound := hfonts p hcompile font hfont
    rw [Option.isNone_iff_eq_none.1 hmissing] at hfound
    cases hfound
  obtain ⟨hprogram, -⟩ := supplyFonts_eq hsupply
  rw [resolver.fontIn_congr hworld, hnone] at hprogram
  rw [hcompile, hprogram]
  rfl

/-- An export that lacks nothing gets as far as its plan does, when the names of its clips can be
written. -/
theorem exists_prepared :
    (∃ x s', (prepareExport compiler t quality resolver).Ends s x s') ↔
      (∃ p, compiler.compile t quality none = .ok p) ∧
        ∀ clip ∈ requiredClips t, clip.name.hasText = true := by
  rw [← Shelf.fault_resolveAll hclips, ← Resolver.exists_resolved]
  constructor
  · rintro ⟨x, s', h⟩
    obtain ⟨assets, s₁, hassets, -⟩ := ends_bind.1 h
    exact ⟨⟨_, prepareExport_program hclips hfonts h⟩, assets, s₁, hassets⟩
  · rintro ⟨⟨p, hp⟩, assets, s₁, hassets⟩
    have hresults := Resolver.ends_resolveAll hassets
    have hcompile : compiler.compile t quality (some assets) = .ok p := by
      rw [compile_of_available fun clip => Shelf.isAvailable_of_results hresults hclips, hp]
    obtain ⟨s₂, hsay⟩ := say_ends (compiledLine p) s₁
    have hworld : s.SameWorld s₂ := .of_atRest (.trans s s₁ s₂
      ((Studio.AtRest.resolveAll resolver _).ends hassets) ((Studio.AtRest.say _).ends hsay))
    have hfound : ∀ font ∈ p.fonts, (resolver.fontIn s₂ font).isSome := by
      rw [resolver.fontIn_congr hworld]
      exact hfonts p hp
    obtain ⟨x, hx⟩ := supplyFonts_of_found hfound ⟨p, inputPayloads p assets⟩
    exact ⟨x, s₂, ends_bind.2 ⟨assets, s₁, hassets, ends_bind.2 ⟨p, s₁,
      ends_lift.2 ⟨hcompile, rfl⟩, ends_bind.2 ⟨(), s₂, hsay, hx⟩⟩⟩⟩

end Prepared

namespace ExportJob

variable {job : ExportJob σ}

/-- What a job does with the words for its engine. -/
def handed (job : ExportJob σ) (engine : Engine σ) (workspace : String) (p : Program Binary64)
    (words : List String) : Session σ (Option RenderResult) := do
  let result ← job.renderer.released (job.renderer.handed engine workspace p words)
  writeOutput job.request.outputFile result.output
  return some result

/-- A job that lacks neither media nor fonts has its plan carried out: its program is that of the plan,
and when the engine hears the sound of every input that is mixed, the words for the engine are those
of the plan, and what has been logged until then are the warnings of the plan. A plan without words, as
a number in it has too many digits, fails in the same way when it is run. -/
theorem run_isPlanned (hr : job.renderer.IsDiscreet) (hrun : job.request.options.dryRun = false)
    (hclips : ∀ clip ∈ requiredClips job.request.timeline,
      ((job.resolver.shelfIn s).bytes? clip.source).isSome)
    (hfonts : ∀ p, job.plan = .ok p → ∀ font ∈ p.fonts, (job.resolver.fontIn s font).isSome) :
    let prepared : Session σ Supplied :=
      prepareExport job.compiler job.request.timeline job.request.quality job.resolver
    ((∃ x s₁, prepared.Ends s x s₁) ↔ (∃ p, job.plan = .ok p) ∧
      ∀ clip ∈ requiredClips job.request.timeline, clip.name.hasText = true) ∧
    ∀ x s₁, prepared.Ends s x s₁ → job.plan = .ok x.program ∧
      x.program.arguments.isOk = x.program.hasText ∧ ∀ engine workspace s₂,
        job.renderer.Hears x.program x.payloads s₁ engine workspace s₂ →
        (∀ words, x.program.arguments = .ok words →
          job.run.exec s = (job.handed engine workspace x.program words).exec s₂) ∧
        (∀ e, x.program.arguments = .error e → (job.run.exec s).1 = .error e) ∧
        (s₂.pool.drivers job.renderer.id).lines = x.program.warnings.map ("warning: " ++ ·) := by
  refine ⟨exists_prepared hclips hfonts, fun x s₁ hprepared => ?_⟩
  have hplan : job.plan = .ok x.program := prepareExport_program hclips hfonts hprepared
  have hcompiled := Compiled.of_compile hplan
  obtain ⟨e, hencode, -⟩ := hcompiled.encode_eq
  refine ⟨hplan, Program.isOk_arguments hencode hcompiled.no_gate, fun engine workspace s₂ hhears => ?_⟩
  have hexec : job.run.exec s = (do
      let result ← job.renderer.run x.program x.payloads
      writeOutput job.request.outputFile result.output
      return some result : Session σ (Option RenderResult)).exec s₁ := by
    rw [run, if_neg (by simp [hrun]), exportTimeline]
    simp only [bind_assoc]
    rw [exec_bind, show Session.exec _ s = (.ok x, s₁) from hprepared]
  refine ⟨fun words hwords => ?_, fun e hwords => ?_, hhears.lines_eq hr⟩
  · rw [hexec, handed, exec_bind, exec_bind, Renderer.exec_run_of_hears hhears hwords]
  · have hfails := Renderer.run_of_unprinted hr hhears hwords
    rw [hexec, exec_bind]
    rcases hran : (job.renderer.run x.program x.payloads).exec s₁ with ⟨_ | _, _⟩
    · rw [hran] at hfails
      rw [Except.error.inj hfails]
    · rw [hran] at hfails
      cases hfails

end ExportJob

/-! ### A job that lacks nothing -/

def plannedJob : ExportJob Unit where
  request := {
    file := "/job.yaml", options := {}, outputFile := "/out.mp4", quality := "low"
    timeline := {
      tracks := [
        { id := "main", kind := .video, clips := [
          { id := "take", name := "take", start := 0, duration := 2,
            source := some ⟨.null, "a.mp4", "video/mp4"⟩ }] },
        { id := "spare", kind := .video, name := "spare", visible := false }]
      overlays := [{ id := "title", text := "One", start := 0, duration := 1, font := "Sans" }] } }
  resolver := { storage := some ⟨"/media"⟩, fontDirectories := ["/fonts"] }
  renderer := { loadEngine := Engine.shared "ffmpeg" }

def plannedStudio : Studio Unit where
  site := { fonts := {}, listings := [("input0.mp4", "Stream #0:1: Audio: aac")] }
  tree := ⟨[(["media"], .directory), (["media", "a.mp4"], .file "video".toUTF8),
    (["fonts"], .directory), (["fonts", "Sans.ttf"], .file "FONT sans".toUTF8), (["tmp"], .directory)]⟩
  front := ()

theorem sorted_of_lt {first second : String × ByteArray} (h : second.1 < first.1) :
    Payloads.sorted [first, second] = [second, first] := by
  have hlt : (!decide (second.1 < first.1)) = false := by
    rw [decide_eq_true h, Bool.not_true]
  rw [Payloads.sorted]
  -- The comparison is opaque to what follows, which would unfold the order of texts with the sort.
  generalize hcompare : (fun a b : String × ByteArray => !decide (b.1 < a.1)) = compare
  have hfirst : compare first second = false := hcompare ▸ hlt
  simp [List.mergeSort, hfirst]

/-- The file of the font is written before that of the input. -/
theorem plannedJob_hears : ∃ x s₁ engine workspace s₂,
    Ends (prepareExport {} plannedJob.request.timeline "low" plannedJob.resolver)
      plannedStudio x s₁ ∧
    x.program.warnings = ["skipping hidden video track spare"] ∧ x.program.hasText = true ∧
    plannedJob.renderer.Hears x.program x.payloads s₁ engine workspace s₂ := by
  have hcheck : ((prepareExport {} plannedJob.request.timeline "low" plannedJob.resolver).exec
      plannedStudio).1.toOption.any (fun x =>
        let s₁ := ((prepareExport {} plannedJob.request.timeline "low" plannedJob.resolver).exec
          plannedStudio).2
        s₁.pool.holder = none && Renderer.missing x.program x.payloads = [] && x.program.hasText &&
        x.program.warnings = ["skipping hidden video track spare"] &&
        x.payloads.map Prod.fst = ["input0.mp4", "fontSans.ttf"] &&
        ((plannedJob.renderer.probed x.program (x.payloads.reverse ++
          x.program.sideFiles.map fun file => (file.name, file.data))).exec
            (s₁.begun 0 x.program)).1.toOption.any
          fun probed => probed.2.2 = x.program.soundInputs.map fun _ => true) = true := by
    decide +kernel
  obtain ⟨x, hx, hcheck⟩ := Outcome.exists_ok_of_any hcheck
  obtain ⟨s₁, hs₁⟩ : ∃ s₁, ((prepareExport {} plannedJob.request.timeline "low"
      plannedJob.resolver).exec plannedStudio).2 = s₁ := ⟨_, rfl⟩
  rw [hs₁] at hcheck
  dsimp only at hcheck
  simp only [Bool.and_eq_true, decide_eq_true_iff] at hcheck
  obtain ⟨⟨⟨⟨⟨hfree, hcomplete⟩, htext⟩, hwarnings⟩, hnames⟩, hcheck⟩ := hcheck
  obtain ⟨⟨engine, workspace, answers⟩, hprobed, hanswers⟩ := Outcome.exists_ok_of_any hcheck
  obtain rfl := of_decide_eq_true hanswers
  have hsorted : x.payloads.sorted = x.payloads.reverse := by
    obtain ⟨first, rest, hpayloads, hfirst, hrest⟩ := List.map_eq_cons_iff.1 hnames
    obtain ⟨second, rest, rfl, hsecond, hrest⟩ := List.map_eq_cons_iff.1 hrest
    obtain rfl := List.map_eq_nil_iff.1 hrest
    rw [hpayloads, sorted_of_lt (by rw [hfirst, hsecond]; decide)]
    rfl
  rw [← hsorted] at hprobed
  exact ⟨x, s₁, engine, workspace, _, Prod.ext hx hs₁, hwarnings, htext, hfree, hcomplete,
    Prod.ext hprobed rfl⟩

theorem plannedJob_isPlanned :
    plannedJob.renderer.IsDiscreet ∧ plannedJob.request.options.dryRun = false ∧
    ∃ (x : Supplied) (s₁ : Studio Unit) (engine : Engine Unit) (workspace : String)
        (s₂ : Studio Unit) (words : List String),
      plannedJob.renderer.Hears x.program x.payloads s₁ engine workspace s₂ ∧
      plannedJob.plan = .ok x.program ∧ x.program.arguments = .ok words ∧
      plannedJob.run.exec plannedStudio =
        (plannedJob.handed engine workspace x.program words).exec s₂ ∧
      (s₂.pool.drivers 0).lines = ["warning: skipping hidden video track spare"] := by
  have hdiscreet : plannedJob.renderer.IsDiscreet :=
    Renderer.isDiscreet_of_shared rfl (fun _ => respects_pure Studio.KeepsHeld.refl ())
      fun _ => respects_pure Studio.KeepsHeld.refl ()
  have hclips : ∀ clip ∈ requiredClips plannedJob.request.timeline,
      ((plannedJob.resolver.shelfIn plannedStudio).bytes? clip.source).isSome := by
    decide +kernel
  have hfonts : ∀ p, plannedJob.plan = .ok p →
      ∀ font ∈ p.fonts, (plannedJob.resolver.fontIn plannedStudio font).isSome := by
    have hcheck : plannedJob.plan.toOption.any (fun p => p.fonts.all fun font =>
        (plannedJob.resolver.fontIn plannedStudio font).isSome) = true := by
      decide +kernel
    intro p hp
    rw [hp] at hcheck
    exact List.all_eq_true.1 hcheck
  obtain ⟨x, s₁, engine, workspace, s₂, hends, hwarnings, htext, hhears⟩ := plannedJob_hears
  obtain ⟨hplan, hprinted, hrun⟩ :=
    (ExportJob.run_isPlanned hdiscreet rfl hclips hfonts).2 x s₁ hends
  obtain ⟨hexec, -, hlines⟩ := hrun engine workspace s₂ hhears
  obtain ⟨words, hwords⟩ := Outcome.isOk_iff.1 (hprinted.trans htext)
  rw [hwarnings] at hlines
  exact ⟨hdiscreet, rfl, x, s₁, engine, workspace, s₂, words, hhears, hplan, hwords, hexec words hwords,
    hlines⟩

end Montage
