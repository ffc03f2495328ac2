import Montage.Proofs.Graph.Legible
import Montage.Proofs.Graph.Picture
import Montage.Proofs.Number.Maximum
import Montage.Proofs.Number.Places

/-!
# The canvas covers every layer

The canvas of a compiled program, its output and the program last the same time. No layer or text is shown
after that time, also as the times are printed, and the time is the least that no clip or text ends after
(`compile_isCovered`).
-/

namespace Montage

/-- The duration of a timeline is its minimum or an end, and none of these is later. -/
theorem Timeline.totalDuration_isMaximum {t : Timeline}
    (hfinite : ∀ x ∈ t.minimumDuration :: t.finishes, x.isFinite = true) :
    Binary64.IsMaximum (t.minimumDuration :: t.finishes) t.totalDuration := by
  have hminimum := Binary64.isNaN_of_isFinite (hfinite _ (.head _))
  refine ⟨List.mem_cons.2 (Binary64.foldl_max_eq_or_mem _ _), fun x hx => ?_⟩
  have hlt : t.totalDuration.lt x = false := by
    refine Binary64.foldl_max_not_lt ((List.mem_cons.1 hx).imp_left ?_)
    rintro rfl
    exact Binary64.lt_irrefl _
  have htotal : t.totalDuration.isNaN = false := Binary64.isNaN_foldl_max hminimum
  rw [Binary64.le_eq_not_lt htotal (Binary64.isNaN_of_isFinite (hfinite x hx)), hlt]
  rfl

namespace Graph

variable {τ σ : Type}

/-- When a filter shows what it draws. -/
def Filter.window? : Filter τ → Option (Window τ)
  | .overlay window _ _ => some window
  | .drawText text => some text.window
  | .gate window => some window
  | _ => none

/-- How long a canvas lasts. -/
def Filter.canvasDuration? : Filter τ → Option τ
  | .color _ _ _ duration => some duration
  | _ => none

def Statement.windows (s : Statement τ) : List (Window τ) := s.filters.filterMap (·.window?)

def Statement.canvasDurations (s : Statement τ) : List τ := s.filters.filterMap (·.canvasDuration?)

theorem Statement.windows_map (f : τ → σ) (s : Statement τ) :
    (s.map f).windows = s.windows.map (·.map f) := by
  have hfilter (g : Filter τ) : (g.map f).window? = g.window?.map (·.map f) := by cases g <;> rfl
  simp only [windows, Statement.map, List.filterMap_map, List.map_filterMap, Function.comp_def, hfilter]

theorem Statement.canvasDurations_map (f : τ → σ) (s : Statement τ) :
    (s.map f).canvasDurations = s.canvasDurations.map f := by
  have hfilter (g : Filter τ) : (g.map f).canvasDuration? = g.canvasDuration?.map f := by
    cases g <;> rfl
  simp only [canvasDurations, Statement.map, List.filterMap_map, List.map_filterMap, Function.comp_def,
    hfilter]

variable {c : Compiler} {t : Timeline} {quality : Value} {assets : Option Assets} {q : Placed}
  {s : Statement Binary64} {p : Program Binary64}

/-- A program for one duration: of the canvas, of the output and of the program itself. -/
structure Program.Lasts (p : Program Binary64) (duration : Binary64) : Prop where
  total_eq : p.totalDuration = duration
  canvas_eq : p.statements.flatMap (·.canvasDurations) = [duration]
  encode_eq : ∃ e, p.encode = some e ∧ e.duration = some duration
  shown : ∀ s ∈ p.statements, ∀ w ∈ s.windows, w.finish.le duration = true

/-- The words for the engine say that the canvas and the output last the same time, and that nothing is
shown after it. -/
structure Program.SaysLasts (p : Program Binary64) (duration : String) : Prop where
  encoded : ∃ e words, p.encode = some e ∧ e.arguments = .ok words ∧
    (optionsOf words).getLast? = some ("-t", duration)
  words : p.hasText = true → ∃ words, p.arguments = .ok words ∧
    valuesOf "-filter_complex" words = [graphText p.printed] ∧
    (optionsOf words).getLast? = some ("-t", duration)
  canvas_eq : p.printed.flatMap (·.canvasDurations) = [duration]
  shown : ∀ s ∈ p.printed, ∀ w ∈ s.windows, IsAtMost w.finish duration

/-! ### Layers -/

theorem clip_mem_of_mem_layers {layer : Layer} (h : layer ∈ layers t) : layer.clip ∈ t.clips := by
  simp only [layers, Timeline.tracksOfKind, List.mem_flatMap, List.mem_filter, List.mem_map] at h
  obtain ⟨_, -, track, ⟨⟨htrack, -⟩, -⟩, clip, hclip, rfl⟩ := h
  exact List.mem_flatMap.2 ⟨track, htrack, hclip⟩

theorem clip_mem_of_mem_placed (h : q ∈ placed assets (layers t)) : q.clip ∈ t.clips := by
  have hnumbered : (q.layer, q.index) ∈ (keptLayers t assets).zipIdx := by
    rw [← placed_zipIdx]
    exact List.mem_map_of_mem h
  have hkept := List.fst_mem_of_mem_zipIdx hnumbered
  rw [keptLayers_eq_filter] at hkept
  exact clip_mem_of_mem_layers (List.mem_of_mem_filter hkept)

theorem Placed.Makes.canvasDurations_eq {canvas : Canvas} {stage : Nat} (h : q.Makes canvas stage s) :
    s.canvasDurations = [] := by
  cases h with
  | visual _ => cases himage : q.isImage <;> simp [Placed.visual, himage, Statement.canvasDurations,
      Filter.canvasDuration?]
  | laidOver _ _ _ => rfl
  | delayed _ _ => rfl

theorem Placed.Makes.finish_eq {canvas : Canvas} {stage : Nat} (h : q.Makes canvas stage s) :
    ∀ w ∈ s.windows, w.finish = q.clip.finish := by
  intro w hw
  cases h with
  | visual _ => cases himage : q.isImage <;> simp [Placed.visual, himage, Statement.windows,
      Filter.window?] at hw
  | laidOver _ _ _ => rw [List.mem_singleton.1 hw]
  | delayed _ _ => cases hw

/-! ### Programs -/

namespace Compiled

variable (h : Compiled c t quality assets p)
include h

theorem canvasDurations_eq : p.statements.flatMap (·.canvasDurations) = [t.totalDuration] := by
  obtain @⟨stack, top, captions, _, hstack, -⟩ := h
  have hlayers : stack.flatMap (·.canvasDurations) = [] := by
    refine List.flatMap_eq_nil_iff.2 fun s hs => ?_
    obtain ⟨q, -, hmakes⟩ := hstack.makes rfl s hs
    exact hmakes.canvasDurations_eq
  have hmix (sounds : List Label) :
      (mixStatement? sounds).toList.flatMap (·.canvasDurations) = [] := by
    cases sounds <;> rfl
  have htexts : (captionStatements top 0 captions).flatMap (·.canvasDurations) = [] := by
    refine List.flatMap_eq_nil_iff.2 fun s hs => ?_
    obtain ⟨-, hfilters, -⟩ := captionStatements_cases (hstack.isPoint_top rfl) s hs
    rcases hfilters with hfilters | ⟨d, hfilters⟩ <;> rw [Statement.canvasDurations, hfilters] <;> rfl
  have hcanvas : (canvasStatement c.canvas t.totalDuration).canvasDurations = [t.totalDuration] := rfl
  simp only [Compiler.assemble, List.flatMap_append, List.flatMap_cons, hcanvas, hlayers, hmix, htexts,
    List.append_nil]

/-- Every window ends with a clip or a text of the timeline. -/
theorem finish_mem {w : Window Binary64} (hs : s ∈ p.statements) (hw : w ∈ s.windows) :
    w.finish ∈ t.finishes := by
  obtain ⟨captions, hcaptions, hdraws, -, -⟩ := h.draws
  cases h.role hs with
  | canvas hcanvas => rw [hcanvas] at hw; cases hw
  | layer hq hmakes =>
    rw [hmakes.finish_eq w hw]
    exact List.mem_append_left _ (List.mem_map_of_mem (clip_mem_of_mem_placed hq))
  | mix _ hmix => rw [hmix] at hw; cases hw
  | text _ _ hfilters _ =>
    rcases hfilters with hfilters | ⟨d, hfilters⟩
    · rw [Statement.windows, hfilters] at hw
      cases hw
    · rw [Statement.windows, hfilters] at hw
      obtain rfl := List.mem_singleton.1 hw
      have hdrawn : d ∈ captions.map (·.filter) := by
        rw [← hdraws.drawTexts_eq]
        refine List.mem_flatMap.2 ⟨s, hs, ?_⟩
        rw [Statement.drawTexts, hfilters]
        exact .head _
      obtain ⟨caption, hcaption, rfl⟩ := List.mem_map.1 hdrawn
      obtain ⟨⟨o, i⟩, ho, hmade⟩ := Outcome.exists_left_of_forall₂ hcaptions hcaption
      rw [hmade.spec.2.1]
      exact List.mem_append_right _ (List.mem_map_of_mem (List.fst_mem_of_mem_zipIdx ho))

theorem lasts (hmaximum : Binary64.IsMaximum (t.minimumDuration :: t.finishes) t.totalDuration) :
    p.Lasts t.totalDuration where
  total_eq := by cases h; rfl
  canvas_eq := h.canvasDurations_eq
  encode_eq := by cases h; exact ⟨_, rfl, rfl⟩
  shown _ hs _ hw := hmaximum.le _ (.tail _ (h.finish_mem hs hw))

theorem statements_ne_nil : p.statements ≠ [] := by
  obtain ⟨s, hs, -⟩ := h.isLegible.canvas
  exact List.ne_nil_of_mem hs

end Compiled

/-- With the duration as its last option, the output lasts as long as the arguments say last. -/
theorem Encode.getLast?_options {e : Encode Binary64} {duration : Binary64}
    (hduration : e.duration = some duration) :
    e.options.getLast? = some ("-t", Timecode.graphText duration) := by
  rw [Encode.options, hduration]
  simp [List.getLast?_append]

theorem Program.words_of_duration {e : Encode Binary64} {duration : Binary64} (hencode : p.encode = some e)
    (hduration : e.duration = some duration) (hsome : p.statements ≠ [])
    (hgate : ∀ s ∈ p.statements, ∀ f ∈ s.filters, ∀ w, f ≠ .gate w) (htext : p.hasText = true) :
    ∃ words, p.arguments = .ok words ∧ valuesOf "-filter_complex" words = [graphText p.printed] ∧
      (optionsOf words).getLast? = some ("-t", Timecode.graphText duration) := by
  obtain ⟨words, hwords, -, hgraph⟩ := Program.valuesOf_inputs hencode hsome hgate htext
  refine ⟨words, hwords, hgraph, ?_⟩
  rw [Program.arguments_eq hencode hgate htext] at hwords
  rw [← Except.ok.inj hwords, optionsOf_wordsOf, List.getLast?_append,
    Encode.getLast?_options hduration]
  rfl

theorem Compiled.saysLasts (h : Compiled c t quality assets p)
    (hfinite : ∀ x ∈ t.minimumDuration :: t.finishes, x.isFinite = true) :
    p.SaysLasts (Timecode.graphText t.totalDuration) := by
  have hmaximum := t.totalDuration_isMaximum hfinite
  have hlasts := h.lasts hmaximum
  obtain ⟨e, hencode, hduration⟩ := hlasts.encode_eq
  refine ⟨⟨e, _, hencode, e.arguments_eq, ?_⟩,
    Program.words_of_duration hencode hduration h.statements_ne_nil h.no_gate, ?_, ?_⟩
  · rw [optionsOf_wordsOf, Encode.getLast?_options hduration]
  · rw [Program.printed, List.flatMap_map]
    simp only [Statement.canvasDurations_map]
    rw [← List.map_flatMap, hlasts.canvas_eq]
    rfl
  · intro r hr w hw
    obtain ⟨s, hs, rfl⟩ := List.mem_map.1 hr
    rw [Statement.windows_map] at hw
    obtain ⟨v, hv, rfl⟩ := List.mem_map.1 hw
    exact Timecode.graphText_isAtMost (hfinite _ (.tail _ (h.finish_mem hs hv)))
      (hfinite _ hmaximum.mem) (hlasts.shown s hs v hv)

/-- What covers every layer and no more: for which time a program lasts, as it is and as it is printed. -/
structure Program.IsCovered (p : Program Binary64) (t : Timeline) (duration : Binary64) : Prop where
  lasts : p.Lasts duration
  saysLasts : p.SaysLasts (Timecode.graphText duration)
  isMaximum : Binary64.IsMaximum (t.minimumDuration :: t.finishes) duration

/-- A program lasts until the latest end of a clip or text, whether it shows it or not, or the minimum. -/
theorem compile_isCovered (h : c.compile t quality assets = .ok p)
    (hfinite : ∀ x ∈ t.minimumDuration :: t.finishes, x.isFinite = true) :
    p.IsCovered t t.totalDuration :=
  have hcompiled := Compiled.of_compile h
  have hmaximum := t.totalDuration_isMaximum hfinite
  ⟨hcompiled.lasts hmaximum, hcompiled.saysLasts hfinite, hmaximum⟩

/-- The clip on the hidden track of the sample ends last. -/
theorem sampleTimeline_isCovered :
    ∃ p, ({} : Compiler).compile sampleTimeline (.text "high") (some sampleAssets) = .ok p ∧
      p.IsCovered sampleTimeline (.ofInt 9) := by
  obtain ⟨p, hp⟩ := sampleTimeline_compiles
  have hduration : sampleTimeline.totalDuration = .ofInt 9 := by decide +kernel
  refine ⟨p, hp, ?_⟩
  rw [← hduration]
  exact compile_isCovered hp (by decide +kernel)

end Graph

end Montage
