import Montage.Proofs.Graph.Arguments
import Montage.Proofs.Graph.Assembly
import Montage.Proofs.Number.HalfUp

/-!
# What a compiled graph sounds like

`soundReading` reads a graph as the sounds that are mixed, each an input with what was done to it.
`soundLayers` are the clips whose sound a timeline asks for: first those of the video tracks that
have sound, then those of the audio tracks. A compiled graph mixes just these, and the arguments of
the engine speak of sound only if there are any (`compile_sound`).
-/

namespace Montage.Graph

open Outcome

/-- The sound of an input, with what was done to it; the delay is in milliseconds. -/
structure Strain where
  input : Nat
  range : Option (Binary64 × Binary64) := none
  reset : Bool := false
  delay : Option Int := none
  deriving DecidableEq

/-- A sound is trimmed, reset and delayed at most once each, and in this order. -/
def soundReading : Reading (List Strain) where
  stream
    | i, .sound => some [{ input := i }]
    | _, .picture => none
  apply
    | .trim true start duration, [[⟨i, none, false, none⟩]] =>
      some [⟨i, some (start, duration), false, none⟩]
    | .resetSound, [[⟨i, range, false, none⟩]] => some [⟨i, range, true, none⟩]
    | .delay milliseconds, [[⟨i, range, true, none⟩]] =>
      some [⟨i, range, true, some milliseconds⟩]
    | .mix n, sounds => if n = sounds.length then some sounds.flatten else none
    | _, _ => none

/-- The clips that are heard, with the numbers of their inputs. -/
def soundLayers (t : Timeline) (assets : Option Assets) : List (Clip × Nat) :=
  (t.available assets .video).zipIdx.filter (·.1.hasAudio) ++
    (t.available assets .audio).zipIdx (pictureLayers t assets).length

/-- The sound that a clip asks for: its range of its own input, moved to the nearest millisecond of
its start, or to that of zero when it starts before. -/
structure IsStrain (numbered : Clip × Nat) (strain : Strain) : Prop where
  input_eq : strain.input = numbered.2
  range_eq : strain.range = some (numbered.1.trimStart, numbered.1.duration)
  reset_eq : strain.reset = true
  delay_eq : ∃ delay exact, strain.delay = some delay ∧
    Timecode.ratio? (.max .zero numbered.1.start * .ofInt 1000) = some exact ∧
    (delay : ℚ) - 1 / 2 ≤ exact.value ∧ exact.value < delay + 1 / 2

variable {c : Compiler} {t : Timeline} {quality : Value} {assets : Option Assets}
  {p : Program Binary64} {q : Placed} {val : Label → Option (List Strain)}
  {ss : List (Statement Binary64)}

theorem soundLayers_eq :
    ((placed assets (layers t)).filter (·.isHeard)).map (fun q => (q.clip, q.index)) =
      soundLayers t assets := by
  let isHeard (numbered : Layer × Nat) : Bool :=
    numbered.1.kind = .audio || (numbered.1.kind = .video && numbered.1.clip.hasAudio)
  have hkind : ∀ kind n (clips : List Clip),
      (((clips.map (Layer.mk kind)).zipIdx n).filter isHeard).map
          (fun numbered => (numbered.1.clip, numbered.2)) =
        (clips.zipIdx n).filter fun numbered => isHeard (⟨kind, numbered.1⟩, numbered.2) := by
    intro kind n clips
    rw [List.zipIdx_map, List.filter_map, List.map_map]
    exact List.map_id _
  calc ((placed assets (layers t)).filter (·.isHeard)).map (fun q => (q.clip, q.index))
    _ = (((placed assets (layers t)).map fun q => (q.layer, q.index)).filter isHeard).map
          fun numbered => (numbered.1.clip, numbered.2) := by
      rw [List.filter_map, List.map_map]
      rfl
    _ = ((keptLayers t assets).zipIdx.filter isHeard).map
          fun numbered => (numbered.1.clip, numbered.2) := by rw [placed_zipIdx]
    _ = soundLayers t assets := by
      simp only [keptLayers, pictureLayers, List.zipIdx_append, List.filter_append,
        List.map_append, hkind]
      simp [soundLayers, pictureLayers, isHeard]

theorem Stacked.sounding {canvas : Canvas} {ps : List Placed} {stage : Nat} {below top : Label}
    {stack : List (Statement Binary64)} (h : Stacked canvas ps stage below stack top) :
    ∀ q ∈ ps, ∃ sounds, q.Sounding sounds ∧ sounds ⊆ stack := by
  induction h with
  | done => simp
  | seen _ hsounds _ ih =>
    refine List.forall_mem_cons.2 ⟨⟨_, hsounds, fun s hs => by simp [hs]⟩, fun q hq => ?_⟩
    obtain ⟨sounds, hsounding, hsub⟩ := ih q hq
    exact ⟨sounds, hsounding, fun s hs => by simp [hsub hs]⟩
  | unseen _ hsounds _ ih =>
    refine List.forall_mem_cons.2 ⟨⟨_, hsounds, fun s hs => by simp [hs]⟩, fun q hq => ?_⟩
    obtain ⟨sounds, hsounding, hsub⟩ := ih q hq
    exact ⟨sounds, hsounding, fun s hs => by simp [hsub hs]⟩

theorem Stacked.heard {canvas : Canvas} {ps : List Placed} {stage : Nat} {below top : Label}
    {stack : List (Statement Binary64)} (h : Stacked canvas ps stage below stack top)
    (hq : q ∈ ps) (hheard : q.isHeard = true) :
    ∃ delay, q.clip.delay = .ok delay ∧ q.delayed delay ∈ stack := by
  obtain ⟨sounds, hsounding, hsub⟩ := h.sounding q hq
  cases hsounding with
  | silent hsilent => simp [hheard] at hsilent
  | heard _ hdelay => exact ⟨_, hdelay, hsub (List.mem_singleton.2 rfl)⟩

theorem sound_delayed {delay : Int} (hsolves : soundReading.Solves ss val)
    (hmem : q.delayed delay ∈ ss) :
    val (.audio q.index) =
      some [⟨q.index, some (q.clip.trimStart, q.clip.duration), true, some delay⟩] := by
  have hstream := hsolves.stream_eq q.index .sound
  have haudio : val (.audio q.index) = _ := hsolves.output_eq _ hmem
  rw [haudio, Reading.statement, Placed.delayed]
  simp [hstream, Reading.chain, soundReading]

theorem strain_of_delayed {delay : Int} (hsolves : soundReading.Solves ss val)
    (hdelay : q.clip.delay = .ok delay) (hmem : q.delayed delay ∈ ss) :
    ∃ strain, IsStrain (q.clip, q.index) strain ∧ val (.audio q.index) = some [strain] := by
  obtain ⟨exact, hexact, hnear⟩ := Timecode.round_eq_ok hdelay
  refine ⟨_, ?_, sound_delayed hsolves hmem⟩
  exact ⟨rfl, rfl, rfl, delay, exact, rfl, hexact, hnear⟩

theorem Compiled.heard (h : Compiled c t quality assets p) (hq : q ∈ placed assets (layers t))
    (hheard : q.isHeard = true) :
    ∃ delay, q.clip.delay = .ok delay ∧ q.delayed delay ∈ p.statements := by
  obtain @⟨stack, top, captions, warnings, hstack, -⟩ := h
  obtain ⟨delay, hdelay, hmem⟩ := hstack.heard hq hheard
  exact ⟨delay, hdelay, by simp [Compiler.assemble, hmem]⟩

theorem text_mix (labels : List Label) :
    ((Statement.mk labels [.mix labels.length] .finalSound).map Timecode.graphText).text =
      String.join (labels.map (·.pad)) ++ s!"amix=inputs={labels.length}:normalize=0" ++
        "[outa]" := by
  have hfilter : (Filter.mix (τ := String) labels.length).text =
      s!"amix=inputs={labels.length}:normalize=0" := rfl
  have hpad : Label.finalSound.pad = "[outa]" := rfl
  simp only [Statement.map, Statement.text, List.map_cons, List.map_nil, Filter.map, hfilter, hpad,
    String.intercalate_singleton]

/-- The statement that makes the whole sound is the mix, when there is anything to mix. -/
theorem Compiled.filter_finalSound (h : Compiled c t quality assets p) :
    p.statements.filter (·.output = .finalSound) =
      (mixStatement? (((placed assets (layers t)).filter (·.isHeard)).map
        fun q => .audio q.index)).toList := by
  obtain @⟨stack, top, captions, warnings, hstack, -⟩ := h
  generalize hsounds : ((placed assets (layers t)).filter (·.isHeard)).map
    (fun q => Label.audio q.index) = sounds
  have hnone : ∀ {ss : List (Statement Binary64)}, .finalSound ∉ ss.map (·.output) →
      ss.filter (·.output = .finalSound) = [] := by
    intro ss hss
    refine List.filter_eq_nil_iff.2 fun s hs houtput => hss ?_
    exact of_decide_eq_true houtput ▸ List.mem_map_of_mem hs
  have hlayers := hnone (finalSound_not_mem_of_part hstack.part_eq (by decide))
  have htexts := hnone (finalSound_not_mem_of_part
    (captionStatements_part (hstack.isPoint_top rfl) captions) (by decide))
  simp only [Compiler.assemble, hsounds, List.filter_append, List.filter_cons, hlayers, htexts]
  cases sounds <;> rfl

/-- The statement that makes the whole sound mixes all layers that are heard. -/
theorem Compiled.eq_mix (h : Compiled c t quality assets p) {s : Statement Binary64}
    (hs : s ∈ p.statements) (hsound : s.output = .finalSound) :
    mixStatement? (((placed assets (layers t)).filter (·.isHeard)).map fun q => .audio q.index) =
      some s := by
  have hmem : s ∈ p.statements.filter (·.output = .finalSound) :=
    List.mem_filter.2 ⟨hs, decide_eq_true hsound⟩
  rw [h.filter_finalSound] at hmem
  exact Option.mem_toList.1 hmem

/-- The one mix of a program has as many sounds as the timeline asks for. -/
theorem Compiled.mix_of_finalSound (h : Compiled c t quality assets p) {s : Statement Binary64}
    (hs : s ∈ p.statements) (hsound : s.output = .finalSound) :
    s.inputs.length = (soundLayers t assets).length ∧ s.filters = [.mix s.inputs.length] := by
  have hmix := h.eq_mix hs hsound
  unfold mixStatement? at hmix
  split at hmix
  · cases hmix
  · rw [← Option.some.inj hmix, ← soundLayers_eq]
    simp

/-- The numbers of a layer are those of the canvas, its place at the top left, and its delay. -/
theorem Placed.Makes.hasText {canvas : Canvas} {stage : Nat} {q : Placed} {s : Statement Binary64}
    (h : q.Makes canvas stage s) (hwidth : (Value.int canvas.width).hasText = true)
    (hheight : (Value.int canvas.height).hasText = true) (hzero : (Value.int 0).hasText = true)
    (hdelay : ∀ delay, q.clip.delay = .ok delay → (Value.int delay).hasText = true) :
    s.hasText = true := by
  cases h with
  | visual _ =>
    cases himage : q.isImage <;> simp [Placed.visual, himage, Statement.hasText, Filter.hasText,
      Filter.numbers, hwidth, hheight]
  | laidOver _ _ _ =>
    simp [Placed.laidOver, Statement.hasText, Filter.hasText, Filter.numbers, hzero]
  | @delayed delay _ hdelayed =>
    simp [Placed.delayed, Statement.hasText, Filter.hasText, Filter.numbers, hdelay delay hdelayed]

/-- The numbers of a program are those of its canvas, the delays, their count, and those of its texts. -/
theorem Compiled.hasText (h : Compiled c t quality assets p)
    (hwidth : (Value.int c.canvas.width).hasText = true)
    (hheight : (Value.int c.canvas.height).hasText = true)
    (hdelay : ∀ q ∈ placed assets (layers t), ∀ delay, q.clip.delay = .ok delay →
      (Value.int delay).hasText = true)
    (hcount : (Value.int (soundLayers t assets).length).hasText = true)
    (htexts : ∀ s ∈ p.statements, ∀ d, .drawText d ∈ s.filters →
      (Filter.drawText d).hasText = true) : p.hasText = true := by
  refine List.all_eq_true.2 fun s hs => ?_
  cases h.role hs with
  | canvas hs =>
    simp [hs, canvasStatement, Statement.hasText, Filter.hasText, Filter.numbers, hwidth, hheight]
  | @layer q hmem hmakes =>
    exact hmakes.hasText hwidth hheight (hasText_of_le hcount (Nat.zero_le _)) (hdelay q hmem)
  | mix _ hmix =>
    obtain ⟨hlength, hfilters⟩ := h.mix_of_finalSound hs (by rw [hmix])
    rw [Statement.hasText, hfilters, hlength]
    simp [Filter.hasText, Filter.numbers, hcount]
  | text _ _ hfilters _ =>
    rcases hfilters with hfilters | ⟨d, hfilters⟩
    · rw [Statement.hasText, hfilters]
      rfl
    · have hmem : .drawText d ∈ s.filters := by
        rw [hfilters]
        exact List.mem_singleton_self _
      rw [Statement.hasText, hfilters, List.all_cons, htexts s hs d hmem]
      rfl

/-! ### The sound of a program -/

/-- The one statement that makes the whole sound mixes the given clips in this order. -/
structure IsMix (heard : List (Clip × Nat)) (p : Program Binary64) (mix : Statement Binary64) :
    Prop where
  only : p.statements.filter (·.output = .finalSound) = [mix]
  text_eq : (mix.map Timecode.graphText).text =
    String.join (mix.inputs.map (·.pad)) ++ s!"amix=inputs={heard.length}:normalize=0" ++ "[outa]"
  mixed : ∃ strains, List.Forall₂ IsStrain heard strains ∧
    mix.inputs.mapM (soundReading.meaning p.statements) = some (strains.map ([·]))

/-- A program in which one statement mixes the sounds of some layers, each of which means the sound
that its clip asks for. -/
theorem isMix_of_delayed {qs : List Placed} (hqs : qs ≠ [])
    (hsolves : soundReading.Solves p.statements (soundReading.meaning p.statements))
    (hmix : p.statements.filter (·.output = .finalSound) =
      (mixStatement? (qs.map fun q => .audio q.index)).toList)
    (hdelayed : ∀ q ∈ qs, ∃ delay, q.clip.delay = .ok delay ∧ q.delayed delay ∈ p.statements) :
    ∃ mix, IsMix (qs.map fun q => (q.clip, q.index)) p mix := by
  have hstrains : ∃ strains, List.Forall₂ (fun q strain => IsStrain (q.clip, q.index) strain ∧
      soundReading.meaning p.statements (.audio q.index) = some [strain]) qs strains := by
    refine exists_forall₂ fun q hq => ?_
    obtain ⟨delay, hdelay, hmem⟩ := hdelayed q hq
    exact strain_of_delayed hsolves hdelay hmem
  obtain ⟨strains, hstrains⟩ := hstrains
  cases qs with
  | nil => exact absurd rfl hqs
  | cons q qs =>
    refine ⟨⟨_, [.mix _], .finalSound⟩, hmix, ?_, strains, ?_, ?_⟩
    · rw [text_mix, List.length_map, List.length_map]
    · exact List.forall₂_map_left_iff.2 (hstrains.imp fun _ _ => And.left)
    · refine mapM_eq_some.2 ?_
      rw [List.forall₂_map_left_iff, List.forall₂_map_right_iff]
      exact hstrains.imp fun _ _ => And.right

/-- What a program has to do for the sound that its timeline asks for, if any. -/
structure SoundGraph (t : Timeline) (assets : Option Assets) (p : Program Binary64) : Prop where
  inputs : ∀ numbered ∈ soundLayers t assets, ∃ input, p.inputs[numbered.2]? = some input ∧
    input.index = numbered.2 ∧ input.source = numbered.1.source ∧
    input.clipId = some numbered.1.id
  heard : soundLayers t assets ≠ [] →
    (∃ mix, IsMix (soundLayers t assets) p mix) ∧ p.sound = some .finalSound ∧
    (∃ values, p.Gives "-map" values ∧ "[outa]" ∈ values) ∧ p.Gives "-c:a" ["aac"]
  silent : soundLayers t assets = [] →
    (∀ s ∈ p.statements, s.output ≠ .finalSound) ∧ p.sound = none ∧
    (∃ values, p.Gives "-map" values ∧ "[outa]" ∉ values) ∧ p.Gives "-c:a" []

namespace Compiled

variable (h : Compiled c t quality assets p)
include h

theorem sound_inputs : ∀ numbered ∈ soundLayers t assets, ∃ input,
    p.inputs[numbered.2]? = some input ∧ input.index = numbered.2 ∧
      input.source = numbered.1.source ∧ input.clipId = some numbered.1.id := by
  intro numbered hmem
  rw [← soundLayers_eq] at hmem
  obtain ⟨q, hq, rfl⟩ := List.mem_map.1 hmem
  have hkept : (q.layer, q.index) ∈ (keptLayers t assets).zipIdx := by
    rw [← placed_zipIdx]
    exact List.mem_map_of_mem (List.mem_filter.1 hq).1
  obtain ⟨input, hinput, hspec⟩ := h.input_of_kept hkept
  exact ⟨input, hinput, hspec.index_eq, hspec.source_eq, hspec.clip_eq⟩

theorem isMix (hheard : soundLayers t assets ≠ []) :
    ∃ mix, IsMix (soundLayers t assets) p mix := by
  rw [← soundLayers_eq] at hheard ⊢
  refine isMix_of_delayed (by simpa using hheard) (h.solves soundReading) h.filter_finalSound ?_
  intro q hq
  exact h.heard (List.mem_filter.1 hq).1 (List.mem_filter.1 hq).2

/-- The program has a sound when there is something to mix. -/
theorem sound_eq_none_iff : p.sound = none ↔ soundLayers t assets = [] := by
  have hfilter := h.filter_finalSound
  have hmade : .finalSound ∈ p.statements.map (·.output) ↔
      p.statements.filter (·.output = .finalSound) ≠ [] := by
    simp [List.filter_eq_nil_iff]
  rw [h.sound_eq, ← soundLayers_eq, List.map_eq_nil_iff]
  generalize (placed assets (layers t)).filter (·.isHeard) = heard at *
  cases heard <;> simp_all [mixStatement?]

theorem soundGraph : SoundGraph t assets p where
  inputs := h.sound_inputs
  heard hheard := by
    obtain ⟨hmap, hcodec⟩ := h.mapped
    have hsound : p.sound = some .finalSound := by
      have hne := mt h.sound_eq_none_iff.1 hheard
      rw [h.sound_eq] at hne ⊢
      split at hne <;> simp_all
    rw [hsound] at hmap hcodec
    exact ⟨h.isMix hheard, hsound, ⟨_, hmap, by decide⟩, hcodec⟩
  silent hsilent := by
    obtain ⟨hmap, hcodec⟩ := h.mapped
    have hsound := h.sound_eq_none_iff.2 hsilent
    rw [hsound] at hmap hcodec
    refine ⟨fun s hs houtput => ?_, hsound, ⟨_, hmap, by decide⟩, hcodec⟩
    rw [h.sound_eq, if_pos (houtput ▸ List.mem_map_of_mem hs)] at hsound
    cases hsound

end Compiled

/-- A compiled graph mixes the sounds that the timeline asks for, and is silent without any. -/
theorem compile_sound (h : c.compile t quality assets = .ok p) : SoundGraph t assets p :=
  (Compiled.of_compile h).soundGraph

theorem sampleTimeline_sound :
    (soundLayers sampleTimeline (some sampleAssets)).map (fun numbered =>
        (numbered.1.id, numbered.2)) = [("take", 0), ("song", 3)] ∧
      ∃ p, ({} : Compiler).compile sampleTimeline (.text "high") (some sampleAssets) = .ok p ∧
        p.sound = some .finalSound := by
  refine ⟨by decide, ?_⟩
  obtain ⟨p, hp⟩ := sampleTimeline_compiles
  exact ⟨p, hp, ((compile_sound hp).heard (by decide)).2.1⟩

end Montage.Graph
