import Mathlib.Data.List.Nodup
import Montage.Proofs.Graph.Flow
import Montage.Proofs.Graph.LabelText
import Montage.Proofs.Graph.Stack

/-!
# The labels of a compiled graph

Which labels each part of a compiled graph opens, takes and reads: its layers (`Stacked`), the mix of
their sounds, and the texts over the picture.
-/

namespace Montage.Graph

variable {canvas : Canvas} {ps : List Placed} {stage : Nat} {below top : Label}
  {stack : List (Statement Binary64)}

/-- Whether a label is made up by the compiler for a point inside the graph or at its end. -/
def Label.isPoint (l : Label) : Bool := !l.isStream && !l.isNamed

namespace Placed

/-- The streams that a layer reads from its input. -/
def streams (p : Placed) : List Label :=
  (if p.isSeen then [.stream p.index .picture] else []) ++
    (if p.isHeard then [.stream p.index .sound] else [])

/-- The labels of what a layer gives to the mix. -/
def soundLabels (p : Placed) : List Label := if p.isHeard then [.audio p.index] else []

theorem wires_visual (p : Placed) (canvas : Canvas) : (p.visual canvas).wires = [] := rfl

theorem wires_delayed (p : Placed) (delay : Int) : (p.delayed delay).wires = [] := rfl

theorem wires_laidOver (p : Placed) (stage : Nat) (hbelow : below.isPoint = true) :
    (p.laidOver stage below).wires = [below, .visual p.index] := by
  cases below <;> first | rfl | cases hbelow

theorem streams_laidOver (p : Placed) (stage : Nat) (hbelow : below.isPoint = true) :
    (p.laidOver stage below).streams = [] := by
  cases below <;> first | rfl | cases hbelow

theorem Sounding.flow {p : Placed} {sounds : List (Statement Binary64)}
    (h : p.Sounding sounds) : Flow [] sounds p.soundLabels := by
  cases h with
  | silent hheard =>
    rw [soundLabels, hheard]
    exact .done (.refl [])
  | heard hheard _ =>
    rw [soundLabels, hheard]
    exact Flow.single (p.wires_delayed _) []

theorem Sounding.streams_eq {p : Placed} {sounds : List (Statement Binary64)}
    (h : p.Sounding sounds) :
    sounds.flatMap (·.streams) = if p.isHeard then [.stream p.index .sound] else [] := by
  cases h with
  | silent hheard => rw [hheard]; rfl
  | heard hheard _ => rw [hheard]; rfl

end Placed

theorem Stacked.isPoint_top (h : Stacked canvas ps stage below stack top)
    (hbelow : below.isPoint = true) : top.isPoint = true := by
  induction h with
  | done => exact hbelow
  | seen _ _ _ ih => exact ih rfl
  | unseen _ _ _ ih => exact ih hbelow

/-- The layers take the picture below and leave the picture on top, with all sounds beside it. -/
theorem Stacked.flow (h : Stacked canvas ps stage below stack top)
    (hbelow : below.isPoint = true) :
    Flow [below] stack (top :: ps.flatMap (·.soundLabels)) := by
  induction h with
  | done => exact .done (.refl _)
  | @seen p rest stage below top sounds more hseen hsounds _ ih =>
    have hvisual : Flow [below] [p.visual canvas] [.visual p.index, below] :=
      Flow.single (p.wires_visual canvas) [below]
    have hover : Flow [below, .visual p.index] [p.laidOver stage below] [.stage stage] :=
      Flow.single (p.wires_laidOver stage hbelow) []
    have hsound : Flow [.stage stage] sounds (p.soundLabels ++ [.stage stage]) :=
      hsounds.flow.frame [.stage stage]
    have hmore := (ih rfl).frame p.soundLabels
    refine (hvisual.append ((hover.perm_left (.swap _ _ _)).append
      (hsound.append (hmore.perm_left List.perm_append_comm)))).perm_right ?_
    exact List.perm_append_comm.cons top
  | @unseen p rest stage below top sounds more hseen hsounds _ ih =>
    have hsound : Flow [below] sounds (p.soundLabels ++ [below]) := hsounds.flow.frame [below]
    have hmore := (ih hbelow).frame p.soundLabels
    refine (hsound.append (hmore.perm_left List.perm_append_comm)).perm_right ?_
    exact List.perm_append_comm.cons top

/-- The layers read the streams of their inputs and no others. -/
theorem Stacked.streams_eq (h : Stacked canvas ps stage below stack top)
    (hbelow : below.isPoint = true) :
    stack.flatMap (·.streams) = ps.flatMap (·.streams) := by
  induction h with
  | done => rfl
  | @seen p rest stage below top sounds more hseen hsounds _ ih =>
    have hvisual : (p.visual canvas).streams = [.stream p.index .picture] := rfl
    rw [List.flatMap_cons, List.flatMap_cons, List.flatMap_append, List.flatMap_cons, ih rfl,
      hsounds.streams_eq, p.streams_laidOver stage hbelow, hvisual, Placed.streams, hseen]
    simp
  | @unseen p rest stage below top sounds more hseen hsounds _ ih =>
    rw [List.flatMap_append, List.flatMap_cons, ih hbelow, hsounds.streams_eq, Placed.streams,
      hseen]
    simp

/-- What a layer adds to a graph that has so many pictures laid over one another. -/
inductive Placed.Makes (canvas : Canvas) (stage : Nat) (p : Placed) : Statement Binary64 → Prop
  | visual (hseen : p.isSeen = true) : Makes canvas stage p (p.visual canvas)
  | laidOver {k : Nat} {below : Label} (hseen : p.isSeen = true) (hstage : stage ≤ k)
      (hbelow : below.isPoint = true) :
      Makes canvas stage p (p.laidOver k below)
  | delayed {delay : Int} (hheard : p.isHeard = true) (hdelay : p.clip.delay = .ok delay) :
      Makes canvas stage p (p.delayed delay)

theorem Placed.Makes.later {canvas : Canvas} {stage : Nat} {p : Placed} {s : Statement Binary64}
    (h : p.Makes canvas (stage + 1) s) : p.Makes canvas stage s := by
  cases h with
  | visual hseen => exact .visual hseen
  | laidOver hseen hstage hbelow => exact .laidOver hseen (by omega) hbelow
  | delayed hheard hdelay => exact .delayed hheard hdelay

theorem Placed.Sounding.makes {p : Placed} {sounds : List (Statement Binary64)}
    (h : p.Sounding sounds) : ∀ s ∈ sounds, p.Makes canvas stage s := by
  cases h with
  | silent _ => simp
  | heard hheard hdelay => simpa using Placed.Makes.delayed hheard hdelay

/-- Every statement of the layers is made for one of them. -/
theorem Stacked.makes (h : Stacked canvas ps stage below stack top)
    (hbelow : below.isPoint = true) :
    ∀ s ∈ stack, ∃ p ∈ ps, p.Makes canvas stage s := by
  induction h with
  | done => simp
  | @seen p rest stage below top sounds more hseen hsounds _ ih =>
    intro s hs
    simp only [List.mem_cons, List.mem_append] at hs
    rcases hs with rfl | rfl | hs | hs
    · exact ⟨p, by simp, .visual hseen⟩
    · exact ⟨p, by simp, .laidOver hseen (Nat.le_refl _) hbelow⟩
    · exact ⟨p, by simp, hsounds.makes s hs⟩
    · obtain ⟨q, hq, hmakes⟩ := ih rfl s hs
      exact ⟨q, by simp [hq], hmakes.later⟩
  | @unseen p rest stage below top sounds more hseen hsounds _ ih =>
    intro s hs
    rcases List.mem_append.1 hs with hs | hs
    · exact ⟨p, by simp, hsounds.makes s hs⟩
    · obtain ⟨q, hq, hmakes⟩ := ih hbelow s hs
      exact ⟨q, by simp [hq], hmakes⟩

/-- The labels that layers make carry the number of an input or that of a picture. -/
theorem Stacked.output_cases (h : Stacked canvas ps stage below stack top)
    (hbelow : below.isPoint = true) {l : Label}
    (hl : l ∈ stack.map (·.output)) :
    (∃ p ∈ ps, l = .visual p.index ∨ l = .audio p.index) ∨ ∃ k, stage ≤ k ∧ l = .stage k := by
  obtain ⟨s, hs, rfl⟩ := List.mem_map.1 hl
  obtain ⟨p, hp, hmakes⟩ := h.makes hbelow s hs
  cases hmakes with
  | visual _ => exact .inl ⟨p, hp, .inl rfl⟩
  | @laidOver k _ _ hstage _ => exact .inr ⟨k, hstage, rfl⟩
  | delayed _ _ => exact .inl ⟨p, hp, .inr rfl⟩

theorem Placed.Sounding.outputs_eq {p : Placed} {sounds : List (Statement Binary64)}
    (h : p.Sounding sounds) : sounds.map (·.output) = p.soundLabels := by
  cases h with
  | silent hheard => rw [Placed.soundLabels, hheard]; rfl
  | heard hheard _ => rw [Placed.soundLabels, hheard]; rfl

/-- A number that no layer has is in no label, and no stage is made again. -/
theorem Stacked.not_made (h : Stacked canvas ps stage below stack top)
    (hbelow : below.isPoint = true) {i : Nat} (hi : i ∉ ps.map (·.index)) :
    .visual i ∉ stack.map (·.output) ∧ .audio i ∉ stack.map (·.output) ∧
      ∀ k, k < stage → .stage k ∉ stack.map (·.output) := by
  have hindex : ∀ p ∈ ps, i ≠ p.index := fun p hp heq => hi (List.mem_map.2 ⟨p, hp, heq.symm⟩)
  refine ⟨fun hmade => ?_, fun hmade => ?_, fun k hk hmade => ?_⟩
  · rcases h.output_cases hbelow hmade with ⟨p, hp, hl | hl⟩ | ⟨j, -, hl⟩
    · exact hindex p hp (Label.visual.inj hl)
    · cases hl
    · cases hl
  · rcases h.output_cases hbelow hmade with ⟨p, hp, hl | hl⟩ | ⟨j, -, hl⟩
    · cases hl
    · exact hindex p hp (Label.audio.inj hl)
    · cases hl
  · rcases h.output_cases hbelow hmade with ⟨p, hp, hl | hl⟩ | ⟨j, hj, hl⟩
    · cases hl
    · cases hl
    · have hkj := Label.stage.inj hl
      omega

/-- No label is made twice, since no number is given twice. -/
theorem Stacked.nodup_outputs (h : Stacked canvas ps stage below stack top)
    (hbelow : below.isPoint = true) (hindex : (ps.map (·.index)).Nodup) :
    (stack.map (·.output)).Nodup := by
  induction h with
  | done => simp
  | @seen p rest stage below top sounds more hseen hsounds hmore ih =>
    obtain ⟨hfresh, hrest⟩ := List.nodup_cons.1 hindex
    obtain ⟨hvisual, haudio, hstage⟩ := hmore.not_made rfl hfresh
    have hstage := hstage stage (Nat.lt_succ_self stage)
    have hmade : (p.visual canvas :: p.laidOver stage below :: (sounds ++ more)).map (·.output) =
        .visual p.index :: .stage stage :: (p.soundLabels ++ more.map (·.output)) := by
      rw [← hsounds.outputs_eq]
      simp [Placed.visual, Placed.laidOver]
    have hmore := ih rfl hrest
    rw [hmade]
    generalize more.map (·.output) = outputs at hvisual haudio hstage hmore
    cases hheard : p.isHeard <;> simp [Placed.soundLabels, *]
  | @unseen p rest stage below top sounds more hseen hsounds hmore ih =>
    obtain ⟨hfresh, hrest⟩ := List.nodup_cons.1 hindex
    obtain ⟨-, haudio, -⟩ := hmore.not_made hbelow hfresh
    have hmore := ih hbelow hrest
    rw [List.map_append, hsounds.outputs_eq]
    generalize more.map (·.output) = outputs at haudio hmore
    cases hheard : p.isHeard <;> simp [Placed.soundLabels, *]

/-! ### Texts over the picture -/

/-- What each text adds: it takes one label, and draws or passes through. -/
theorem captionStatements_cases {captions : List Caption} {index : Nat}
    (hbelow : below.isPoint = true) :
    ∀ s ∈ captionStatements below index captions,
      (∃ l : Label, l.isPoint = true ∧ s.inputs = [l]) ∧
      (s.filters = [.passthrough] ∨ ∃ d, s.filters = [.drawText d]) ∧
      (s.output = .finalPicture ∨ ∃ k, index ≤ k ∧ s.output = .caption k) := by
  fun_induction captionStatements below index captions with
  | case1 below index =>
    intro s hs
    obtain rfl := List.mem_singleton.1 hs
    exact ⟨⟨below, hbelow, rfl⟩, .inl rfl, .inl rfl⟩
  | case2 below index caption =>
    intro s hs
    obtain rfl := List.mem_singleton.1 hs
    exact ⟨⟨below, hbelow, rfl⟩, .inr ⟨_, rfl⟩, .inl rfl⟩
  | case3 below index caption rest hrest ih =>
    intro s hs
    rcases List.mem_cons.1 hs with rfl | hs
    · exact ⟨⟨below, hbelow, rfl⟩, .inr ⟨_, rfl⟩, .inr ⟨index, Nat.le_refl _, rfl⟩⟩
    · obtain ⟨hinputs, hfilters, houtput⟩ := ih rfl s hs
      refine ⟨hinputs, hfilters, houtput.imp_right ?_⟩
      rintro ⟨k, hk, houtput⟩
      exact ⟨k, by omega, houtput⟩

theorem wires_of_inputs_eq {s : Statement Binary64} {l : Label} (hl : l.isPoint = true)
    (hinputs : s.inputs = [l]) : s.wires = [l] ∧ s.streams = [] := by
  rw [Statement.wires, Statement.streams, hinputs]
  cases l <;> first | exact ⟨rfl, rfl⟩ | cases hl

/-- The texts turn the picture below into the whole picture. -/
theorem captionStatements_flow {captions : List Caption} {index : Nat}
    (hbelow : below.isPoint = true) :
    Flow [below] (captionStatements below index captions) [.finalPicture] := by
  fun_induction captionStatements below index captions with
  | case1 below index => exact Flow.single (wires_of_inputs_eq hbelow rfl).1 []
  | case2 below index caption => exact Flow.single (wires_of_inputs_eq hbelow rfl).1 []
  | case3 below index caption rest hrest ih =>
    exact (Flow.single (wires_of_inputs_eq hbelow rfl).1 []).append (ih rfl)

theorem captionStatements_nodup {captions : List Caption} {index : Nat} (below : Label) :
    ((captionStatements below index captions).map (·.output)).Nodup := by
  fun_induction captionStatements below index captions with
  | case1 below index => simp
  | case2 below index caption => simp
  | case3 below index caption rest hrest ih =>
    refine List.nodup_cons.2 ⟨fun hmem => ?_, ih⟩
    obtain ⟨s, hs, houtput⟩ := List.mem_map.1 hmem
    rcases (captionStatements_cases rfl s hs).2.2 with hfinal | ⟨k, hk, hcaption⟩
    · cases hfinal.symm.trans houtput
    · have := Label.caption.inj (hcaption.symm.trans houtput)
      omega

/-! ### The mix -/

theorem map_audio_eq (ps : List Placed) :
    ((ps.filter (·.isHeard)).map fun p => Label.audio p.index) = ps.flatMap (·.soundLabels) := by
  induction ps with
  | nil => rfl
  | cons p ps ih => cases hheard : p.isHeard <;> simp [Placed.soundLabels, hheard, ih]

/-- The mix takes all sounds that it is given. -/
theorem mixStatement?_flow {sounds : List Label} (hsounds : ∀ l ∈ sounds, l.isStream = false) :
    Flow sounds (mixStatement? sounds).toList ((mixStatement? sounds).map (·.output)).toList := by
  cases sounds with
  | nil => exact .done (.refl _)
  | cons l sounds =>
    have hwires : (Statement.mk (τ := Binary64) (l :: sounds) [.mix (l :: sounds).length]
        .finalSound).wires = l :: sounds :=
      List.filter_eq_self.2 fun l' hl' => by simp [hsounds l' hl']
    simpa [mixStatement?] using Flow.single hwires []

end Montage.Graph
