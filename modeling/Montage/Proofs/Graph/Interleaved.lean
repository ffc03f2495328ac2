import Montage.Proofs.Graph.Arguments
import Montage.Proofs.Graph.Compilable
import Montage.Proofs.Number.Maximum

/-!
# Tracks in another order

Layers are painted kind by kind, so that tracks of different kinds can stand in any order among each other:
timelines that differ in nothing else compile to programs that look the same (`compile_interleaved`). The
order of hidden tracks shows in the warnings, and a timeline of no length can come out as either zero.
-/

namespace Montage

/-- Two timelines with the same tracks of each kind, in the same order, which have the rest in common. -/
structure Timeline.IsInterleaved (t t' : Timeline) : Prop where
  tracks : ∀ kind, t.tracksOfKind kind = t'.tracksOfKind kind
  overlays : t.overlays = t'.overlays
  minimumDuration : t.minimumDuration = t'.minimumDuration

/-- Zero is written without its sign. -/
theorem Timecode.graphText_congr {x y : Binary64} {u : Int} (hx : x.toUnits? = some u)
    (hy : y.toUnits? = some u) : graphText x = graphText y := by
  have hneg : graphText (-.zero) = graphText .zero := by decide +kernel
  have hzero {z : Binary64} (hz : z.toUnits? = some 0) : graphText z = graphText .zero := by
    rcases Binary64.eq_zero_or_neg_zero hz with rfl | rfl
    · rfl
    · exact hneg
  rcases Binary64.eq_or_eq_zero_of_units hx hy with rfl | rfl
  · rfl
  · rw [hzero hx, hzero hy]

namespace Timeline.IsInterleaved

variable {t t' : Timeline}

theorem symm (h : t.IsInterleaved t') : t'.IsInterleaved t :=
  ⟨fun kind => (h.tracks kind).symm, h.overlays.symm, h.minimumDuration.symm⟩

theorem mem_tracks_iff (h : t.IsInterleaved t') (track : Track) : track ∈ t.tracks ↔ track ∈ t'.tracks := by
  have hkind (t : Timeline) : track ∈ t.tracks ↔ track ∈ t.tracksOfKind track.kind := by
    simp [tracksOfKind]
  rw [hkind, hkind, h.tracks]

theorem mem_finishes_iff (h : t.IsInterleaved t') (finish : Binary64) :
    finish ∈ t.finishes ↔ finish ∈ t'.finishes := by
  simp only [finishes, clips, List.mem_append, List.mem_map, List.mem_flatMap, h.mem_tracks_iff, h.overlays]

theorem graphText_totalDuration (h : t.IsInterleaved t') :
    Timecode.graphText t.totalDuration = Timecode.graphText t'.totalDuration := by
  unfold totalDuration
  rw [h.minimumDuration]
  rcases Binary64.foldl_max_congr h.mem_finishes_iff t'.minimumDuration with heq | ⟨u, hu, hu'⟩
  · rw [heq]
  · exact Timecode.graphText_congr hu hu'

theorem layers_eq (h : t.IsInterleaved t') : Graph.layers t = Graph.layers t' := by
  simp only [Graph.layers, h.tracks]

end Timeline.IsInterleaved

end Montage

namespace Montage.Graph

open Outcome

/-- Two programs that the engine and the files beside it show as the same. -/
structure Program.Agrees (p p' : Program Binary64) : Prop where
  arguments : p.arguments = p'.arguments
  graphText : p.resolveStatements.map graphText = p'.resolveStatements.map graphText
  inputs : p.inputs = p'.inputs
  sideFiles : p.sideFiles = p'.sideFiles
  fonts : p.fonts = p'.fonts
  payloadNames : p.payloadNames = p'.payloadNames

variable {c : Compiler} {t t' : Timeline} {quality : Value} {assets : Option Assets}
  {placed : List Placed} {stack : List (Statement Binary64)} {top : Label} {captions : List Caption}

theorem isCompilable_interleaved (h : t.IsInterleaved t') (hc : IsCompilable t assets) :
    IsCompilable t' assets where
  hidden track htrack := hc.hidden track ((h.mem_tracks_iff track).2 htrack)
  skipped := by
    have hskipped := hc.skipped
    rwa [requiredClips, h.layers_eq] at hskipped
  heard := by
    have hheard := hc.heard
    rwa [← soundLayers_eq, h.layers_eq, soundLayers_eq] at hheard
  anchored := h.overlays ▸ hc.anchored
  sized := h.overlays ▸ hc.sized

theorem assemble_agrees (hduration : Timecode.graphText t.totalDuration = Timecode.graphText t'.totalDuration)
    (warnings warnings' : List String) :
    (c.assemble t quality placed stack top captions warnings).Agrees
      (c.assemble t' quality placed stack top captions warnings') := by
  have hcanvas : (canvasStatement c.canvas t.totalDuration).resolve =
      (canvasStatement c.canvas t'.totalDuration).resolve := by
    simp only [canvasStatement, Statement.resolve, List.mapM_cons, Filter.resolve, GraphTime.render,
      hduration]
  have hstatements : (c.assemble t quality placed stack top captions warnings).resolveStatements =
      (c.assemble t' quality placed stack top captions warnings').resolveStatements := by
    simp only [Program.resolveStatements, Compiler.assemble, List.mapM_cons, List.cons_append, hcanvas]
  exact {
    arguments := by
      rw [Program.arguments, Program.arguments, hstatements]
      simp only [Compiler.assemble, Encode.arguments, GraphTime.render, hduration]
      rfl
    graphText := by rw [hstatements]
    inputs := rfl
    sideFiles := rfl
    fonts := rfl
    payloadNames := rfl }

theorem agrees_of_compile {p p' : Program Binary64} (h : t.IsInterleaved t')
    (hp : c.compile t quality assets = .ok p) (hp' : c.compile t' quality assets = .ok p') :
    p.Agrees p' := by
  obtain ⟨warnings, stack, top, captions, -, hstack, hcaptions, rfl⟩ := compile_eq_ok.1 hp
  obtain ⟨warnings', stack', top', captions', -, hstack', hcaptions', rfl⟩ := compile_eq_ok.1 hp'
  rw [h.layers_eq, hstack'] at hstack
  obtain ⟨rfl, rfl⟩ := Prod.mk.inj (Except.ok.inj hstack)
  rw [h.overlays] at hcaptions
  have hsame : captions.map id = captions'.map id :=
    map_eq_map_of_forall₂ hcaptions hcaptions' fun _ _ _ hfirst hsecond =>
      Except.ok.inj (hfirst.symm.trans hsecond)
  rw [List.map_id, List.map_id] at hsame
  subst hsame
  rw [h.layers_eq]
  exact assemble_agrees h.graphText_totalDuration warnings warnings'

/-- Timelines with the same tracks of each kind both fail to compile, or the engine cannot tell them
apart, whatever the quality and the assets. -/
theorem compile_interleaved (h : t.IsInterleaved t') :
    (∃ e e', c.compile t quality assets = .error e ∧ c.compile t' quality assets = .error e') ∨
    ∃ p p', c.compile t quality assets = .ok p ∧ c.compile t' quality assets = .ok p' ∧ p.Agrees p' := by
  -- Neither timeline is special, so that what lets one of them compile lets the other.
  have hok (t t' : Timeline) (h : t.IsInterleaved t') (hp : (c.compile t quality assets).isOk = true) :
      (c.compile t' quality assets).isOk = true := by
    obtain ⟨hcompilable, htexts⟩ := isOk_compile.1 hp
    exact isOk_compile.2 ⟨isCompilable_interleaved h hcompilable, h.overlays ▸ htexts⟩
  cases hp : c.compile t quality assets with
  | error e =>
    cases hp' : c.compile t' quality assets with
    | error e' => exact .inl ⟨e, e', rfl, rfl⟩
    | ok p' =>
      have hback := hok t' t h.symm (by rw [hp']; rfl)
      rw [hp] at hback
      cases hback
  | ok p =>
    obtain ⟨p', hp'⟩ := isOk_iff.1 (hok t t' h (by rw [hp]; rfl))
    exact .inr ⟨p, p', rfl, hp', agrees_of_compile h hp hp'⟩

def momentTrack (kind : TrackKind) (moment : Binary64) : Track where
  id := kind.name
  kind
  clips := [
    { id := kind.name, start := moment, duration := moment,
      source := some ⟨.text "talk.mp4", .null, .text "video/mp4"⟩ }]

/-- A picture that ends at a negative zero, and a sound that ends at zero. -/
def momentTimeline (kinds : List TrackKind) : Timeline where
  tracks := kinds.map fun kind => momentTrack kind (if kind = .video then -.zero else .zero)
  minimumDuration := -.ofInt 1

example : ((momentTimeline [.video, .audio]).totalDuration.repr,
    (momentTimeline [.audio, .video]).totalDuration.repr) = ("-0.0", "0.0") := by decide +kernel

theorem momentTimeline_isInterleaved :
    (momentTimeline [.video, .audio]).IsInterleaved (momentTimeline [.audio, .video]) :=
  ⟨fun kind => by cases kind <;> rfl, rfl, rfl⟩

theorem momentTimeline_agrees : ∃ p p',
    ({} : Compiler).compile (momentTimeline [.video, .audio]) "high" none = .ok p ∧
      ({} : Compiler).compile (momentTimeline [.audio, .video]) "high" none = .ok p' ∧ p.Agrees p' := by
  have hok : (({} : Compiler).compile (momentTimeline [.video, .audio]) "high" none).isOk = true := by
    decide +kernel
  rcases compile_interleaved momentTimeline_isInterleaved with ⟨e, e', he, -⟩ | hagrees
  · rw [he] at hok
    cases hok
  · exact hagrees

end Montage.Graph
