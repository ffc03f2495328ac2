import Montage.Proofs.Graph.Faults
import Montage.Proofs.Graph.Sound
import Montage.Proofs.Timeline.Entries

/-!
# Which timelines compile

A timeline that was read from a snapshot compiles when its values can be used, and only then
(`compile_isOk_iff`): the names that a warning needs can be written, no sound starts too late to be
counted in milliseconds, the texts are at finite places, and no font size is a whole number beyond all
binary numbers. The last of these is a slip: sizes that are no numbers at all give the default.
-/

namespace Montage

open Outcome

theorem Value.isOk_toText (v : Value) : v.toText.isOk = v.hasText := by
  unfold Value.toText
  split <;> simp_all [Except.isOk, Except.toBool]

theorem Timecode.isOk_round (x : Binary64) : (Timecode.round x).isOk = x.isFinite := by
  rw [← Timecode.isSome_ratio?, Timecode.round]
  cases Timecode.ratio? x <;> rfl

theorem Value.isOk_toRatio (v : Value) : v.toRatio.isOk = (Ratio.read v.display).isOk := by
  unfold Value.toRatio
  split <;> simp_all [Except.isOk, Except.toBool]

theorem Measure.isOk_percentOf (x : Binary64) (length : Int) :
    (Measure.percentOf x length).isOk = true ↔ x.isFinite = true := by
  rw [Measure.percentOf, isOk_bind_of_forall fun _ => rfl, Value.isOk_toRatio,
    ← Timecode.isSome_ratio?]
  change (Ratio.read x.repr).isOk = true ↔ (Ratio.read x.repr).toOption.isSome = true
  cases Ratio.read x.repr <;> rfl

/-- Whether a value is no whole number beyond all binary numbers. -/
def Value.isInRange : Value → Bool
  | .int n => (Binary64.ofInt n).isFinite
  | _ => true

theorem Value.toBinary64_ne_range {v : Value} :
    v.toBinary64 ≠ .error (.misuse .range) ↔ v.isInRange = true := by
  cases v with
  | int n => cases h : (Binary64.ofInt n).isFinite <;>
      simp [Value.toBinary64, Value.Number.toBinary64, Value.isInRange, h]
  | text s => cases hread : (Value.text s).numeral?.bind Text.readBinary64? <;>
      simp [Value.toBinary64, Value.isInRange, hread]
  | bytes data => cases hread : (Value.bytes data).numeral?.bind Text.readBinary64? <;>
      simp [Value.toBinary64, Value.isInRange, hread]
  | _ => simp [Value.toBinary64, Value.isInRange]

end Montage

namespace Montage.Graph

open Outcome

/-- Whether the compiler can use the values of a timeline. -/
structure IsCompilable (t : Timeline) (assets : Option Assets) : Prop where
  hidden : ∀ track ∈ t.tracks, track.visible = false → track.kind ≠ .text →
    track.name.hasText = true
  skipped : ∀ clip ∈ requiredClips t, clip.isAvailable assets = false → clip.name.hasText = true
  heard : ∀ numbered ∈ soundLayers t assets,
    (Binary64.max .zero numbered.1.start * .ofInt 1000).isFinite = true
  anchored : ∀ o ∈ t.overlays, o.x.isFinite = true ∧ o.y.isFinite = true
  sized : ∀ o ∈ t.overlays, o.fontSize.isInRange = true

instance (t : Timeline) (assets : Option Assets) : Decidable (IsCompilable t assets) :=
  decidable_of_iff
    ((∀ track ∈ t.tracks, track.visible = false → track.kind ≠ .text → track.name.hasText = true) ∧
      (∀ clip ∈ requiredClips t, clip.isAvailable assets = false → clip.name.hasText = true) ∧
      (∀ numbered ∈ soundLayers t assets,
        (Binary64.max .zero numbered.1.start * .ofInt 1000).isFinite = true) ∧
      (∀ o ∈ t.overlays, o.x.isFinite = true ∧ o.y.isFinite = true) ∧
      ∀ o ∈ t.overlays, o.fontSize.isInRange = true)
    ⟨fun ⟨hidden, skipped, heard, anchored, sized⟩ => ⟨hidden, skipped, heard, anchored, sized⟩,
      fun h => ⟨h.hidden, h.skipped, h.heard, h.anchored, h.sized⟩⟩

variable {c : Compiler} {canvas : Canvas} {t : Timeline} {quality : Value} {assets : Option Assets}
  {p : Program Binary64}

/-! ### Warnings -/

theorem isOk_clipWarning? (clip : Clip) : (clipWarning? assets clip).isOk = true ↔
    (clip.isAvailable assets = false → clip.name.hasText = true) := by
  have hproblem : problem? assets clip = none ↔ clip.isAvailable assets = true := by
    rw [isAvailable_iff]
    cases hsource : clip.source <;> simp [problem?, hsource]
  unfold clipWarning?
  cases hwhy : problem? assets clip with
  | none =>
    refine ⟨fun _ hlost => ?_, fun _ => rfl⟩
    rw [hproblem.1 hwhy] at hlost
    cases hlost
  | some why =>
    have hlost : clip.isAvailable assets = false := by
      rw [← Bool.not_eq_true, ← hproblem, hwhy]
      exact Option.some_ne_none why
    dsimp only
    rw [isOk_bind_of_forall fun _ => rfl, Value.isOk_toText]
    simp [hlost]

theorem isOk_layerWarnings : (layerWarnings t assets).isOk = true ↔
    (∀ track ∈ t.tracks, track.visible = false → track.kind ≠ .text → track.name.hasText = true) ∧
      ∀ clip ∈ requiredClips t, clip.isAvailable assets = false → clip.name.hasText = true := by
  have hclips : ((requiredClips t).filterMapM (clipWarning? assets)).isOk = true ↔
      ∀ clip ∈ requiredClips t, clip.isAvailable assets = false → clip.name.hasText = true := by
    rw [isOk_filterMapM]
    exact forall₂_congr fun clip _ => isOk_clipWarning? clip
  have htracks : ((t.tracks.filter fun track => !track.visible && track.kind ≠ .text).mapM
      fun track => (do return s!"skipping hidden {track.kind.name} track " ++ (← track.name.toText) :
        Except Fault String)).isOk = true ↔ ∀ track ∈ t.tracks, track.visible = false →
          track.kind ≠ .text → track.name.hasText = true := by
    have hname : ∀ track : Track, (do return s!"skipping hidden {track.kind.name} track " ++
        (← track.name.toText) : Except Fault String).isOk = track.name.hasText := by
      intro track
      rw [← Value.isOk_toText]
      cases track.name.toText <;> rfl
    rw [isOk_mapM]
    simp only [hname, List.mem_filter]
    simp
  rw [layerWarnings, isOk_bind, ← hclips, ← htracks, isOk_iff]
  constructor
  · rintro ⟨hidden, hhidden, hrest⟩
    exact ⟨⟨hidden, hhidden⟩, (isOk_bind_of_forall fun _ => rfl).1 hrest⟩
  · rintro ⟨⟨hidden, hhidden⟩, hrest⟩
    exact ⟨hidden, hhidden, (isOk_bind_of_forall fun _ => rfl).2 hrest⟩

/-! ### Layers -/

theorem Placed.isOk_sounds (q : Placed) : q.sounds.isOk = true ↔
    (q.isHeard = true → (Binary64.max .zero q.clip.start * .ofInt 1000).isFinite = true) := by
  rw [← Timecode.isOk_round, Placed.sounds]
  by_cases hheard : q.isHeard = true
  · rw [if_pos hheard, isOk_bind_of_forall fun _ => rfl, Placed.sound,
      isOk_bind_of_forall fun _ => rfl, Timecode.milliseconds]
    exact ⟨fun h _ => h, fun h => h hheard⟩
  · rw [if_neg hheard]
    exact ⟨fun _ h => absurd h hheard, fun _ => rfl⟩

theorem isOk_stackLayers {ps : List Placed} {stage : Nat} {below : Label} :
    (stackLayers canvas ps stage below).isOk = true ↔ ∀ q ∈ ps, q.sounds.isOk = true := by
  induction ps generalizing stage below with
  | nil => exact ⟨fun _ _ hq => absurd hq List.not_mem_nil, fun _ => rfl⟩
  | cons q rest ih =>
    rw [stackLayers, isOk_bind, List.forall_mem_cons, isOk_iff]
    constructor
    · rintro ⟨sounds, hsounds, hrest⟩
      refine ⟨⟨sounds, hsounds⟩, ?_⟩
      split at hrest
      · exact ih.1 ((isOk_bind_of_forall fun _ => rfl).1 hrest)
      · exact ih.1 ((isOk_bind_of_forall fun _ => rfl).1 hrest)
    · rintro ⟨⟨sounds, hsounds⟩, hrest⟩
      refine ⟨sounds, hsounds, ?_⟩
      split
      · exact (isOk_bind_of_forall fun _ => rfl).2 (ih.2 hrest)
      · exact (isOk_bind_of_forall fun _ => rfl).2 (ih.2 hrest)

theorem isOk_stackLayers_placed :
    (stackLayers canvas (placed assets (layers t)) 0 .base).isOk = true ↔
      ∀ numbered ∈ soundLayers t assets,
        (Binary64.max .zero numbered.1.start * .ofInt 1000).isFinite = true := by
  rw [isOk_stackLayers, ← soundLayers_eq]
  simp only [Placed.isOk_sounds, List.forall_mem_map, List.mem_filter, and_imp]

/-! ### Texts -/

theorem isOk_fontSizeOf (o : TextOverlay) :
    (fontSizeOf o).isOk = true ↔ o.fontSize.isInRange = true := by
  rw [← Value.toBinary64_ne_range, fontSizeOf]
  split
  · rename_i hread
    exact ⟨nofun, fun hne => absurd hread hne⟩
  · rename_i hother hread
    exact ⟨fun _ heq => hother (Except.error.inj (hread.symm.trans heq)), fun _ => rfl⟩
  · rename_i x hread
    refine ⟨fun _ heq => ?_, fun _ => ?_⟩
    · rw [hread] at heq
      cases heq
    · split <;> rfl

theorem isOk_ofOverlay {index : Nat} {o : TextOverlay} :
    (Caption.ofOverlay canvas index o).isOk = true ↔ (captionData o.text).isOk = true ∧
      (o.x.isFinite = true ∧ o.y.isFinite = true) ∧ o.fontSize.isInRange = true := by
  rw [← Measure.isOk_percentOf o.x canvas.width, ← Measure.isOk_percentOf o.y canvas.height,
    ← isOk_fontSizeOf]
  simp only [isOk_iff, ofOverlay_eq_ok]
  constructor
  · rintro ⟨-, data, x, y, size, hdata, hx, hy, hsize, -⟩
    exact ⟨⟨data, hdata⟩, ⟨⟨x, hx⟩, ⟨y, hy⟩⟩, ⟨size, hsize⟩⟩
  · rintro ⟨⟨data, hdata⟩, ⟨⟨x, hx⟩, ⟨y, hy⟩⟩, ⟨size, hsize⟩⟩
    exact ⟨_, data, x, y, size, hdata, hx, hy, hsize, rfl⟩

/-! ### Programs -/

/-- The compiler gives the program of its parts, when it can make them. -/
theorem compile_eq_ok : c.compile t quality assets = .ok p ↔
    ∃ warnings stack top captions, layerWarnings t assets = .ok warnings ∧
      stackLayers c.canvas (placed assets (layers t)) 0 .base = .ok (stack, top) ∧
      List.Forall₂ (IsCaption c.canvas) t.overlays.zipIdx captions ∧
      p = c.assemble t quality (placed assets (layers t)) stack top captions warnings := by
  constructor
  · intro h
    obtain ⟨warnings, hwarnings, h⟩ := bind_eq_ok.1 h
    obtain ⟨⟨stack, top⟩, hstack, h⟩ := bind_eq_ok.1 h
    obtain ⟨captions, hcaptions, h⟩ := bind_eq_ok.1 h
    obtain ⟨-, -, h⟩ := bind_eq_ok.1 h
    exact ⟨warnings, stack, top, captions, hwarnings, hstack, mapM_eq_ok.1 hcaptions,
      (pure_eq_ok.1 h).symm⟩
  · rintro ⟨warnings, stack, top, captions, hwarnings, hstack, hcaptions, rfl⟩
    have hcompiled : Compiled c t quality assets
        (c.assemble t quality (placed assets (layers t)) stack top captions warnings) :=
      .intro (.of_stackLayers hstack) hcaptions
    exact bind_eq_ok.2 ⟨warnings, hwarnings, bind_eq_ok.2 ⟨(stack, top), hstack, bind_eq_ok.2
      ⟨captions, mapM_eq_ok.2 hcaptions, bind_eq_ok.2 ⟨(), hcompiled.checkTerminals, rfl⟩⟩⟩⟩

theorem exists_captions_iff {overlays : List TextOverlay} :
    (∃ captions, List.Forall₂ (IsCaption canvas) overlays.zipIdx captions) ↔
      ∀ o ∈ overlays, (captionData o.text).isOk = true ∧
        (o.x.isFinite = true ∧ o.y.isFinite = true) ∧ o.fontSize.isInRange = true := by
  have hmapM : (∃ captions, List.Forall₂ (IsCaption canvas) overlays.zipIdx captions) ↔
      (overlays.zipIdx.mapM fun (o, index) => Caption.ofOverlay canvas index o).isOk = true := by
    rw [isOk_iff]
    exact exists_congr fun captions => mapM_eq_ok.symm
  rw [hmapM, isOk_mapM]
  simp only [isOk_ofOverlay]
  conv_rhs => rw [← List.zipIdx_map_fst 0 overlays, List.forall_mem_map]

/-- Texts apart, a timeline compiles when its values can be used. -/
theorem isOk_compile : (c.compile t quality assets).isOk = true ↔
    IsCompilable t assets ∧ ∀ o ∈ t.overlays, (captionData o.text).isOk = true := by
  have hparts : (c.compile t quality assets).isOk = true ↔
      (∃ warnings, layerWarnings t assets = .ok warnings) ∧
        (∃ stacked, stackLayers c.canvas (placed assets (layers t)) 0 .base = .ok stacked) ∧
        ∃ captions, List.Forall₂ (IsCaption c.canvas) t.overlays.zipIdx captions := by
    rw [isOk_iff]
    simp only [compile_eq_ok]
    constructor
    · rintro ⟨p, warnings, stack, top, captions, hwarnings, hstack, hcaptions, -⟩
      exact ⟨⟨warnings, hwarnings⟩, ⟨(stack, top), hstack⟩, ⟨captions, hcaptions⟩⟩
    · rintro ⟨⟨warnings, hwarnings⟩, ⟨⟨stack, top⟩, hstack⟩, ⟨captions, hcaptions⟩⟩
      exact ⟨_, warnings, stack, top, captions, hwarnings, hstack, hcaptions, rfl⟩
  rw [hparts, ← isOk_iff, isOk_layerWarnings, ← isOk_iff, isOk_stackLayers_placed,
    exists_captions_iff]
  constructor
  · rintro ⟨⟨hidden, skipped⟩, heard, htexts⟩
    constructor
    · exact {
        hidden, skipped, heard
        anchored := fun o ho => (htexts o ho).2.1
        sized := fun o ho => (htexts o ho).2.2 }
    · exact fun o ho => (htexts o ho).1
  · rintro ⟨h, htexts⟩
    exact ⟨⟨h.hidden, h.skipped⟩, h.heard, fun o ho => ⟨htexts o ho, h.anchored o ho, h.sized o ho⟩⟩

/-! ### Timelines from snapshots -/

/-- The texts of a snapshot are written out when it is read. -/
theorem text_of_ofValue {snapshot minimum : Value}
    (h : Timeline.ofValue snapshot minimum = .ok t) : ∀ o ∈ t.overlays, ∃ s, o.text = .text s := by
  obtain ⟨entries, -, hoverlays⟩ := (Timeline.isOf_of_ofValue h).overlays
  intro o ho
  obtain ⟨numbered, -, hof⟩ := exists_left_of_forall₂ hoverlays ho
  exact ⟨_, hof.text_eq⟩

/-- A timeline that was read compiles just when its values can be used, whatever the quality. -/
theorem compile_isOk_iff {snapshot minimum : Value}
    (h : Timeline.ofValue snapshot minimum = .ok t) :
    (∃ p, c.compile t quality assets = .ok p) ↔ IsCompilable t assets := by
  rw [← isOk_iff, isOk_compile]
  refine and_iff_left fun o ho => ?_
  obtain ⟨s, hs⟩ := text_of_ofValue h o ho
  rw [hs]
  rfl

/-- Times before the start and without a value, and styles that mean nothing. -/
def oddSnapshot : Value := .record [
  ("tracks", .list [.record [("type", "video"), ("clips", .list [
    .record [("url", "a"), ("start_time", .int (-2)), ("duration", .float .nan)],
    .record [("start_time", .float (.infinite false)), ("duration", .int 1)]])]]),
  ("text_overlays", .list [.record [("text", .int 7), ("duration", .int (-1)), ("x", .int (-900)),
    ("font_size", "huge"), ("color", .list []), ("font", .int 3)]])]

theorem oddSnapshot_compiles : ∃ t, Timeline.ofValue oddSnapshot = .ok t ∧
    ∃ p, ({} : Compiler).compile t "best" none = .ok p := by
  have hcheck : (Timeline.ofValue oddSnapshot).toOption.any
      (fun t => decide (IsCompilable t none)) = true := by decide +kernel
  obtain ⟨t, ht, hcompilable⟩ := exists_ok_of_any hcheck
  exact ⟨t, ht, (compile_isOk_iff ht).2 (of_decide_eq_true hcompilable)⟩

def hugeSnapshot : Value := .record [("text_overlays", .list [
  .record [("text", "a"), ("duration", .int 1), ("font_size", .int (10 ^ 400))]])]

theorem hugeSnapshot_not_compiles : ∃ t, Timeline.ofValue hugeSnapshot = .ok t ∧
    ¬ ∃ p, ({} : Compiler).compile t "medium" none = .ok p := by
  have hcheck : (Timeline.ofValue hugeSnapshot).toOption.any
      (fun t => !(({} : Compiler).compile t "medium" none).isOk) = true := by decide +kernel
  obtain ⟨t, ht, hfails⟩ := exists_ok_of_any hcheck
  refine ⟨t, ht, fun hok => ?_⟩
  rw [isOk_iff.2 hok] at hfails
  cases hfails

end Montage.Graph
