import Montage.Proofs.Graph.Muted
import Montage.Proofs.Studio.Session
import Montage.Render.Renderer

/-!
# Inputs without an audio stream

A driver asks the engine about every input whose sound is part of the mix, and drops the sounds of
those without an audio stream. What then runs mixes the layers of the other inputs
(`compile_muted`).
-/

namespace Montage.Renderer

open Montage.Graph Session

variable {σ : Type} {r : Renderer σ} {engine : Engine σ} {workspace : String}
  {s s' : Studio σ} {p p' : Program Binary64} {inputs : List (InputSpec Binary64)}

/-- The engine is asked about inputs one after the other, and says of each whether it has an audio
stream. Where it has none, the driver changes its program and notes a warning. -/
inductive Asked (r : Renderer σ) (engine : Engine σ) (workspace : String) :
    List (InputSpec Binary64 × Bool) → Studio σ → Studio σ → Prop
  | done {s : Studio σ} : Asked r engine workspace [] s s
  | heard {input : InputSpec Binary64} {answers : List (InputSpec Binary64 × Bool)}
      {s s₁ s' : Studio σ} (hanswer : Ends (engine.hasAudio workspace input.name) s true s₁)
      (hrest : Asked r engine workspace answers s₁ s') :
      Asked r engine workspace ((input, true) :: answers) s s'
  | silent {input : InputSpec Binary64} {answers : List (InputSpec Binary64 × Bool)}
      {p : Program Binary64} {line : String} {s s₁ s₂ s₃ s' : Studio σ}
      (hanswer : Ends (engine.hasAudio workspace input.name) s false s₁)
      (hprogram : Ends (r.setProgram p) s₁ () s₂) (hnote : Ends (r.note line) s₂ () s₃)
      (hrest : Asked r engine workspace answers s₃ s') :
      Asked r engine workspace ((input, false) :: answers) s s'

/-- The numbers of the inputs that have no audio stream. -/
def silentInputs (answers : List (InputSpec Binary64 × Bool)) : List Int :=
  (answers.filter fun answer => !answer.2).map fun answer => (answer.1.index : Int)

theorem dropSilent_ends (h : Ends (r.dropSilent engine workspace inputs p) s p' s') :
    ∃ answers, r.Asked engine workspace answers s s' ∧ answers.map Prod.fst = inputs ∧
      p' = (silentInputs answers).foldl Program.dropSound p := by
  induction inputs generalizing p s with
  | nil =>
    obtain ⟨rfl, rfl⟩ := ends_pure.1 h
    exact ⟨[], .done, rfl, rfl⟩
  | cons input rest ih =>
    obtain ⟨answer, s₁, hanswer, h⟩ := ends_bind.1 h
    cases answer with
    | true =>
      obtain ⟨answers, hasked, hinputs, hp⟩ := ih h
      exact ⟨(input, true) :: answers, .heard hanswer hasked, by rw [List.map_cons, hinputs], hp⟩
    | false =>
      obtain ⟨⟨⟩, s₂, hprogram, h⟩ := ends_bind.1 h
      obtain ⟨⟨⟩, s₃, hnote, h⟩ := ends_bind.1 h
      obtain ⟨answers, hasked, hinputs, hp⟩ := ih h
      exact ⟨(input, false) :: answers, .silent hanswer hprogram hnote hasked,
        by rw [List.map_cons, hinputs], hp⟩

theorem mem_silentInputs {answers : List (InputSpec Binary64 × Bool)} {i : Int} :
    i ∈ silentInputs answers ↔ ∃ input, (input, false) ∈ answers ∧ (input.index : Int) = i := by
  simp [silentInputs]

end Montage.Renderer

namespace Montage.Graph

open Renderer

variable {c : Compiler} {t : Timeline} {quality : Value} {assets : Option Assets}
  {p : Program Binary64}

/-- The layers that remain are those whose inputs have an audio stream. -/
theorem Compiled.remainingLayers_silentInputs (h : Compiled c t quality assets p)
    {answers : List (InputSpec Binary64 × Bool)} (hanswers : answers.map Prod.fst = p.soundInputs) :
    remainingLayers t assets (silentInputs answers) =
      (soundLayers t assets).filter fun numbered =>
        answers.any fun answer => answer.2 && answer.1.index = numbered.2 := by
  -- Inputs have different numbers, so no two answers are about the same one.
  have hnodup : (answers.map fun answer => answer.1.index).Nodup := by
    have hordered := (h.isMuted []).inputs_ordered
    rw [h.muted_nil, ← hanswers, List.map_map] at hordered
    exact hordered.imp Nat.ne_of_lt
  refine List.filter_congr fun numbered hnumbered => ?_
  rw [← soundLayers_eq] at hnumbered
  obtain ⟨q, hq, rfl⟩ := List.mem_map.1 hnumbered
  obtain ⟨answer, hanswer, hinput⟩ : ∃ answer ∈ answers, answer.1 = q.input := by
    have hasked : q.input ∈ answers.map Prod.fst := by
      rw [hanswers, h.soundInputs_eq]
      exact List.mem_map_of_mem hq
    exact List.mem_map.1 hasked
  have hindex : answer.1.index = q.index := congrArg InputSpec.index hinput
  have honly : ∀ other ∈ answers, other.1.index = q.index → other = answer :=
    fun other hother heq => List.inj_on_of_nodup_map hnodup hother hanswer (heq.trans hindex.symm)
  rw [Bool.eq_iff_iff, decide_eq_true_iff, mem_silentInputs, List.any_eq_true]
  constructor
  · intro hheard
    refine ⟨answer, hanswer, ?_⟩
    cases hyes : answer.2 with
    | true => simpa using hindex
    | false =>
      exact absurd ⟨answer.1, by rwa [← hyes], by exact_mod_cast hindex⟩ hheard
  · rintro ⟨other, hother, hyes⟩ ⟨input, hsilent, hsame⟩
    obtain ⟨hyes, heq⟩ := Bool.and_eq_true_iff.1 hyes
    rw [honly other hother (of_decide_eq_true heq),
      ← honly (input, false) hsilent (by exact_mod_cast hsame)] at hyes
    cases hyes

/-- However the sounds of inputs are dropped from a compiled program, what is left is a whole program
that mixes the sounds of all other layers; which inputs they are decides what is left. What runs on
the engine mixes the layers of the inputs that have an audio stream. -/
theorem compile_muted {σ : Type} (h : c.compile t quality assets = .ok p) :
    (∀ indices : List Int, IsMuted t assets indices p (indices.foldl Program.dropSound p)) ∧
    (∀ xs ys : List Int, (∀ i, i ∈ xs ↔ i ∈ ys) →
      { xs.foldl Program.dropSound p with warnings := [] } =
        { ys.foldl Program.dropSound p with warnings := [] }) ∧
    ∀ (r : Renderer σ) (engine : Engine σ) (workspace : String) (s s' : Studio σ)
      (p' : Program Binary64),
      Session.Ends (r.dropSilent engine workspace p.soundInputs p) s p' s' →
      ∃ answers, r.Asked engine workspace answers s s' ∧ answers.map Prod.fst = p.soundInputs ∧
        IsMuted t assets (silentInputs answers) p p' ∧
        remainingLayers t assets (silentInputs answers) =
          (soundLayers t assets).filter fun numbered =>
            answers.any fun answer => answer.2 && answer.1.index = numbered.2 := by
  have hcompiled := Compiled.of_compile h
  refine ⟨fun indices => ?_, fun xs ys hsame => ?_, fun r engine workspace s s' p' hends => ?_⟩
  · rw [hcompiled.foldl_dropSound]
    exact hcompiled.isMuted indices
  · rw [hcompiled.foldl_dropSound, hcompiled.foldl_dropSound]
    exact p.muted_congr hsame
  · obtain ⟨answers, hasked, hinputs, rfl⟩ := dropSilent_ends hends
    refine ⟨answers, hasked, hinputs, ?_, hcompiled.remainingLayers_silentInputs hinputs⟩
    rw [hcompiled.foldl_dropSound]
    exact hcompiled.isMuted _

theorem sampleTimeline_muted :
    (remainingLayers sampleTimeline (some sampleAssets) [3, -1, 3, 9]).map (·.2) = [0] ∧
    ∃ p, ({} : Compiler).compile sampleTimeline (.text "high") (some sampleAssets) = .ok p ∧
      ([3, -1, 3, 9].foldl Program.dropSound p).sound ≠ none ∧
      ([0, 3].foldl Program.dropSound p).sound = none := by
  refine ⟨by decide, ?_⟩
  obtain ⟨p, hp⟩ := sampleTimeline_compiles
  have hmuted := (@compile_muted _ _ _ _ _ Unit hp).1
  refine ⟨p, hp, ?_, ?_⟩
  · exact mt (hmuted [3, -1, 3, 9]).sound_eq_none_iff.1 (by decide)
  · exact (hmuted [0, 3]).sound_eq_none_iff.2 (by decide)

end Montage.Graph
