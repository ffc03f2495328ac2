import Mathlib.Data.List.Basic
import Montage.Graph.Layer

/-!
# The clips that get an input

A clip is used when it sits on a visible track and its source can be had. `Timeline.keptLayers` says
so directly, kind by kind; the layers that the compiler numbers are exactly these, in this order
(`placed_zipIdx`).
-/

namespace Montage

/-- Whether the source of a clip can be used: it has one and, where assets are given, theirs for the
clip is good. -/
def Clip.isAvailable (assets : Option Assets) (c : Clip) : Bool :=
  c.source.isSome && match assets with
    | none => true
    | some assets => (assets.get? c.id).any (·.ok)

namespace Timeline

variable (t : Timeline) (assets : Option Assets)

/-- The clips on the visible tracks of a kind, in track then clip order. -/
def shown (kind : TrackKind) : List Clip :=
  (t.tracks.filter fun track => track.kind = kind && track.visible).flatMap (·.clips)

/-- Those whose source can be used. -/
def available (kind : TrackKind) : List Clip :=
  (t.shown kind).filter (·.isAvailable assets)

end Timeline

end Montage

namespace Montage.Graph

variable {t : Timeline} {assets : Option Assets}

/-- The layers of the picture, from bottom to top. -/
def pictureLayers (t : Timeline) (assets : Option Assets) : List Layer :=
  (t.available assets .video).map (⟨.video, ·⟩) ++ (t.available assets .image).map (⟨.image, ·⟩)

/-- All layers with an input, in the order of the inputs. -/
def keptLayers (t : Timeline) (assets : Option Assets) : List Layer :=
  pictureLayers t assets ++ (t.available assets .audio).map (⟨.audio, ·⟩)

/-- A clip is left out for want of a source or for a problem, and for nothing else. -/
theorem isAvailable_iff {clip : Clip} :
    clip.isAvailable assets ↔ clip.source.isSome ∧ problem? assets clip = none := by
  cases hsource : clip.source with
  | none => simp [Clip.isAvailable, hsource]
  | some source =>
    cases assets with
    | none => simp [problem?, Clip.isAvailable, hsource]
    | some assets =>
      cases hresult : assets.get? clip.id with
      | none => simp [problem?, Clip.isAvailable, hsource, hresult]
      | some result => cases hok : result.ok <;>
          simp [problem?, Clip.isAvailable, hsource, hresult, hok]

/-- The layers are those of the visible tracks, whether their sources can be had or not. -/
theorem layers_eq :
    layers t = (t.shown .video).map (⟨.video, ·⟩) ++ (t.shown .image).map (⟨.image, ·⟩) ++
      (t.shown .audio).map (⟨.audio, ·⟩) := by
  have hkind : ∀ kind, (((t.tracksOfKind kind).filter (·.visible)).flatMap
      fun track => track.clips.map (Layer.mk kind)) = (t.shown kind).map (⟨kind, ·⟩) := by
    intro kind
    simp [Timeline.tracksOfKind, Timeline.shown, List.filter_filter, List.map_flatMap,
      Bool.and_comm]
  simp [layers, paintOrder, hkind]

theorem keptLayers_eq_filter :
    keptLayers t assets = (layers t).filter (·.clip.isAvailable assets) := by
  simp [keptLayers, pictureLayers, layers_eq, Timeline.available, List.filter_map,
    Function.comp_def]

theorem usable?_of_isAvailable {layer : Layer} (havailable : layer.clip.isAvailable assets) :
    ∃ source, layer.clip.source = some source ∧ usable? assets layer = some (layer, source) := by
  obtain ⟨hsome, hproblem⟩ := isAvailable_iff.1 havailable
  obtain ⟨source, hsource⟩ := Option.isSome_iff_exists.1 hsome
  exact ⟨source, hsource, by simp [usable?, hsource, hproblem]⟩

theorem usable?_eq_some {layer layer' : Layer} {source : Source}
    (h : usable? assets layer = some (layer', source)) :
    layer' = layer ∧ layer.clip.source = some source ∧ layer.clip.isAvailable assets := by
  unfold usable? at h
  split at h
  · rename_i source' hsource hproblem
    obtain ⟨rfl, rfl⟩ := Prod.mk.inj (Option.some.inj h)
    exact ⟨rfl, hsource, isAvailable_iff.2 ⟨by simp [hsource], hproblem⟩⟩
  · simp at h

theorem map_fst_filterMap_usable? (ls : List Layer) :
    (ls.filterMap (usable? assets)).map Prod.fst = ls.filter (·.clip.isAvailable assets) := by
  induction ls with
  | nil => rfl
  | cons layer ls ih =>
    by_cases havailable : layer.clip.isAvailable assets
    · obtain ⟨source, -, husable⟩ := usable?_of_isAvailable havailable
      simp [husable, havailable, ih]
    · have husable : usable? assets layer = none := by
        cases h : usable? assets layer with
        | none => rfl
        | some kept => exact absurd (usable?_eq_some h).2.2 havailable
      simp [husable, havailable, ih]

/-- The inputs are numbered in the order of the kept layers, without gaps. -/
theorem placed_zipIdx :
    (placed assets (layers t)).map (fun p => (p.layer, p.index)) =
      (keptLayers t assets).zipIdx := by
  rw [keptLayers_eq_filter, ← map_fst_filterMap_usable?, List.zipIdx_map]
  simp only [placed, List.map_map]
  rfl

theorem map_index_placed :
    (placed assets (layers t)).map (·.index) = List.range (keptLayers t assets).length := by
  have h := congrArg (List.map Prod.snd) (@placed_zipIdx t assets)
  simpa [Function.comp_def, List.range_eq_range'] using h

theorem nodup_index_placed : ((placed assets (layers t)).map (·.index)).Nodup := by
  rw [map_index_placed]
  exact List.nodup_range

theorem source_of_mem_placed {ls : List Layer} {p : Placed} (hmem : p ∈ placed assets ls) :
    p.clip.source = some p.source := by
  simp only [placed, List.mem_map] at hmem
  obtain ⟨⟨⟨layer, source⟩, index⟩, hzip, rfl⟩ := hmem
  obtain ⟨layer', -, husable⟩ := List.mem_filterMap.1 (List.fst_mem_of_mem_zipIdx hzip)
  obtain ⟨rfl, hsource, -⟩ := usable?_eq_some husable
  exact hsource

/-! ### A timeline with layers of every kind -/

def sampleSource (contentType : String) : Source := ⟨.null, .text "file", .text contentType⟩

/-- Two of the clips share an id, one has no source, and one is on a hidden track. -/
def sampleTimeline : Timeline where
  tracks := [
    { id := "sound", kind := .audio, clips := [
      { id := "song", start := 1, duration := 4, source := some (sampleSource "audio/mpeg") }] },
    { id := "main", kind := .video, clips := [
      { id := "take", start := 0, duration := 2, source := some (sampleSource "video/mp4") },
      { id := "gap", start := 2, duration := 1 },
      { id := "take", start := 1, duration := 3, source := some (sampleSource "video/mp4"),
        hasAudio := false }] },
    { id := "spare", kind := .video, visible := false, clips := [
      { id := "cut", start := 0, duration := 9, source := some (sampleSource "video/mp4") }] },
    { id := "marks", kind := .image, clips := [
      { id := "logo", start := 0, duration := 4, source := some (sampleSource "image/png") },
      { id := "lost", start := 0, duration := 4, source := some (sampleSource "image/png") }] }]
  overlays := [
    { id := "title", text := .text "One", start := 0, duration := 2 },
    { id := "credits", text := .text "Two", start := 1, duration := 3 }]

/-- The assets of all clips of the sample but one. -/
def sampleAssets : Assets :=
  [("song", ⟨some .empty, none⟩), ("take", ⟨some .empty, none⟩), ("logo", ⟨some .empty, none⟩),
    ("lost", ⟨none, some "not found"⟩)]

example :
    (keptLayers sampleTimeline (some sampleAssets)).map (·.clip.id) =
      ["take", "take", "logo", "song"] := by
  decide

end Montage.Graph
