import Montage.Proofs.Graph.Faults
import Montage.Proofs.Number.Order

/-!
# Clips that are left out leave nothing behind

A clip without an input has no part in a program: without it, and with the duration that it may have
brought, the timeline compiles to the same program (`compile_pruned`). Only warnings can tell the two
apart.
-/

namespace Montage

/-- Whether a clip of a track gets an input. -/
def Track.keeps (assets : Option Assets) (track : Track) (c : Clip) : Bool :=
  track.visible && track.kind ≠ .text && c.isAvailable assets

def Track.pruned (assets : Option Assets) (track : Track) : Track :=
  { track with clips := track.clips.filter (track.keeps assets) }

/-- A timeline without the clips that get no input, which still lasts as long. -/
def Timeline.pruned (t : Timeline) (assets : Option Assets) : Timeline :=
  { t with tracks := t.tracks.map (·.pruned assets), minimumDuration := t.totalDuration }

namespace Timeline

variable {t : Timeline} {assets : Option Assets}

theorem finishes_pruned_subset : (t.pruned assets).finishes ⊆ t.finishes := by
  intro finish hmem
  simp only [finishes, clips, List.mem_append, List.mem_map, List.mem_flatMap] at hmem ⊢
  refine hmem.imp_left ?_
  rintro ⟨c, ⟨_, hpruned, hc⟩, rfl⟩
  obtain ⟨track, htrack, rfl⟩ := List.mem_map.1 hpruned
  exact ⟨c, ⟨track, htrack, List.mem_of_mem_filter hc⟩, rfl⟩

/-- What is left does not end later than the whole. -/
theorem totalDuration_pruned : (t.pruned assets).totalDuration = t.totalDuration :=
  Binary64.foldl_max_eq_self fun _ hx =>
    Binary64.foldl_max_not_lt (.inr (finishes_pruned_subset hx))

theorem shown_pruned {kind : TrackKind} (hkind : kind ≠ .text) :
    (t.pruned assets).shown kind = t.available assets kind := by
  simp only [shown, available, pruned, List.filter_map, List.flatMap_map, List.filter_flatMap]
  refine List.flatMap_congr fun track htrack => ?_
  obtain ⟨-, hshown⟩ := List.mem_filter.1 htrack
  obtain ⟨hsame, hvisible⟩ : track.kind = kind ∧ track.visible = true := by
    simpa [Track.pruned] using hshown
  refine List.filter_congr fun c _ => ?_
  simp [Track.keeps, hvisible, hsame, hkind]

end Timeline

end Montage

namespace Montage.Graph

open Outcome

variable {c : Compiler} {t : Timeline} {quality : Value} {assets : Option Assets}
  {p : Program Binary64}

theorem layers_pruned : layers (t.pruned assets) = keptLayers t assets := by
  rw [layers_eq, Timeline.shown_pruned (by decide), Timeline.shown_pruned (by decide),
    Timeline.shown_pruned (by decide)]
  rfl

theorem usable?_none {layer : Layer} (havailable : layer.clip.isAvailable assets = true) :
    usable? none layer = usable? assets layer := by
  obtain ⟨source, hsource, husable⟩ := usable?_of_isAvailable havailable
  rw [husable]
  simp [usable?, problem?, hsource]

/-- The clips that are left get the inputs that they had. -/
theorem placed_pruned : placed none (layers (t.pruned assets)) = placed assets (layers t) := by
  have hlayers : (layers (t.pruned assets)).filterMap (usable? none) =
      (layers t).filterMap (usable? assets) := by
    rw [layers_pruned, keptLayers_eq_filter, List.filterMap_filter]
    refine List.filterMap_congr fun layer _ => ?_
    split
    · rename_i havailable
      exact usable?_none havailable
    · rename_i havailable
      cases husable : usable? assets layer with
      | none => rfl
      | some kept => exact absurd (usable?_eq_some husable).2.2 havailable
  rw [placed, placed, hlayers]

theorem requiredClips_pruned :
    requiredClips (t.pruned assets) = (requiredClips t).filter (·.isAvailable assets) := by
  rw [requiredClips, layers_pruned, keptLayers_eq_filter, requiredClips, List.filter_map]
  rfl

theorem clipWarning?_of_isAvailable {clip : Clip} (havailable : clip.isAvailable assets = true) :
    clipWarning? none clip = .ok none := by
  obtain ⟨source, hsource⟩ := Option.isSome_iff_exists.1 (isAvailable_iff.1 havailable).1
  simp only [clipWarning?, problem?, hsource]
  rfl

/-- Hidden tracks are still warned about, and nothing else is. -/
theorem layerWarnings_pruned {warnings : List String} (h : layerWarnings t assets = .ok warnings) :
    ∃ hidden, layerWarnings (t.pruned assets) none = .ok hidden := by
  obtain ⟨hidden, hhidden, -⟩ := bind_eq_ok.1 h
  refine ⟨hidden ++ [], bind_eq_ok.2 ⟨hidden, ?_, bind_eq_ok.2 ⟨[], ?_, rfl⟩⟩⟩
  · simp only [Timeline.pruned, List.filter_map, List.mapM_map]
    exact hhidden
  · rw [requiredClips_pruned]
    induction requiredClips t with
    | nil => rfl
    | cons clip clips ih =>
      cases havailable : clip.isAvailable assets with
      | false => simpa [havailable] using ih
      | true =>
        rw [List.filter_cons_of_pos havailable, List.filterMapM_cons,
          clipWarning?_of_isAvailable havailable]
        exact ih

/-- Without the clips that get no input, and with the duration that the timeline has with them, the
program is the same. Its inputs are those of the clips that are left. -/
theorem compile_pruned (h : c.compile t quality assets = .ok p) :
    (∃ p', c.compile (t.pruned assets) quality none = .ok p' ∧
      { p' with warnings := p.warnings } = p) ∧
    List.Forall₂ (fun (numbered : Clip × Nat) input => input.index = numbered.2 ∧
        input.clipId = some numbered.1.id ∧ input.source = numbered.1.source)
      ((requiredClips t).filter (·.isAvailable assets)).zipIdx p.inputs := by
  have hcompiled := Compiled.of_compile h
  constructor
  · obtain ⟨warnings, hwarnings, h⟩ := bind_eq_ok.1 h
    obtain ⟨⟨stack, top⟩, hstack, h⟩ := bind_eq_ok.1 h
    obtain ⟨captions, hcaptions, h⟩ := bind_eq_ok.1 h
    obtain ⟨-, -, h⟩ := bind_eq_ok.1 h
    obtain ⟨hidden, hhidden⟩ := layerWarnings_pruned hwarnings
    rw [← placed_pruned] at hstack
    have hpruned : Compiled c (t.pruned assets) quality none
        (c.assemble (t.pruned assets) quality (placed none (layers (t.pruned assets))) stack top
          captions hidden) :=
      .intro (.of_stackLayers hstack) (mapM_eq_ok.1 hcaptions)
    refine ⟨_, bind_eq_ok.2 ⟨hidden, hhidden, bind_eq_ok.2 ⟨(stack, top), hstack, bind_eq_ok.2
      ⟨captions, hcaptions, bind_eq_ok.2 ⟨(), hpruned.checkTerminals, rfl⟩⟩⟩⟩, ?_⟩
    rw [← pure_eq_ok.1 h]
    simp only [Compiler.assemble, Timeline.totalDuration_pruned, placed_pruned]
  · have hinputs := hcompiled.inputs_kept
    have hclips : (requiredClips t).filter (·.isAvailable assets) =
        (keptLayers t assets).map (·.clip) := by
      rw [← requiredClips_pruned, requiredClips, layers_pruned]
    rw [hclips, List.zipIdx_map, List.forall₂_map_left_iff]
    exact hinputs.imp fun _ _ hinput => ⟨hinput.index_eq, hinput.clip_eq, hinput.source_eq⟩

/-- One clip of the sample has no source, one no asset, and one is hidden. -/
theorem sampleTimeline_pruned :
    (sampleTimeline.pruned (some sampleAssets)).clips.map (·.id) =
        ["song", "take", "take", "logo"] ∧
      ∃ p p', ({} : Compiler).compile sampleTimeline (.text "high") (some sampleAssets) = .ok p ∧
        ({} : Compiler).compile (sampleTimeline.pruned (some sampleAssets)) (.text "high") none =
          .ok p' ∧
        p'.statements = p.statements := by
  refine ⟨by decide, ?_⟩
  obtain ⟨p, hp⟩ := sampleTimeline_compiles
  obtain ⟨⟨p', hp', hsame⟩, -⟩ := compile_pruned hp
  exact ⟨p, p', hp, hp', congrArg (·.statements) hsame⟩

end Montage.Graph
