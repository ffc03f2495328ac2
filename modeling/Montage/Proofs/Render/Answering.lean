import Montage.Proofs.Render.Heard

/-!
# An engine that knows its answers

An engine whose status and product are a function of the words that it is given: what a run comes to
depends on the program alone, and the engine is free again afterwards (`run_answering`).
-/

namespace Montage

open Montage.Graph Session Studio

/-- An engine that knows what to answer to any words: with a status, and with a product in which it
leaves the words that it was given last. -/
def Engine.answering (status : List String → Int) : Engine (List String) where
  newWorkspace _ := pure "work"
  removeWorkspace _ := pure ()
  writeInput _ _ _ := pure ()
  readOutput _ _ := do return ("\n".intercalate (← get).front).toUTF8
  hasAudio _ _ := pure true
  execute _ words _ _ _ := do
    present fun _ => words
    return status words

namespace Renderer

/-- A driver of this engine, with nobody to hear of it. -/
def answering (status : List String → Int) : Renderer (List String) where
  loadEngine := pure (.answering status)

/-- What a run of a program comes to on this engine. -/
def answerTo (status : List String → Int) (p : Program Binary64) (_ : Payloads) :
    Except Fault RenderResult := do
  let words ← p.arguments
  let log := "\n".intercalate (p.warnings.map ("warning: " ++ ·))
  if status words ≠ 0 then
    .error (.engineRun s!"engine exited with status {status words}" log (some (status words)))
  else return { output := ("\n".intercalate words).toUTF8, outputName := outputNameOf p,
                logText := log, progress := 100 }

variable {status : List String → Int} {p : Program Binary64} {payloads : Payloads}
  {words : List String} {s : Studio (List String)}

theorem answering_isDiscreet : (answering status).IsDiscreet where
  loadEngine := respects_pure KeepsHeld.refl _
  engine := by
    intro s engine s' h
    obtain ⟨rfl, -⟩ := ends_pure.1 h
    exact {
      newWorkspace := fun _ => respects_pure KeepsHeld.refl _
      removeWorkspace := fun _ => respects_pure KeepsHeld.refl ()
      removeWorkspace_ends := fun _ s => ⟨s, ends_pure.2 ⟨rfl, rfl⟩⟩
      writeInput := fun _ _ _ => respects_pure KeepsHeld.refl ()
      readOutput := fun _ _ => respects_get fun s => KeepsHeld.refl s
      hasAudio := fun _ _ => respects_pure KeepsHeld.refl true
      execute := fun R hkept _ _ _ _ _ _ _ _ s => hkept s _ fun _ => rfl }
  onProgress := fun _ => respects_pure KeepsHeld.refl ()
  onLine := fun _ => respects_pure KeepsHeld.refl ()

theorem answering_hears (hfree : s.pool.holder = none)
    (hcomplete : missing p payloads = []) :
    ∃ s', (answering status).Hears p payloads s (Engine.answering status) "work" s' := by
  obtain ⟨s₁, hnoted⟩ := exists_ends_forM (g := fun warning =>
    (answering status).note ("warning: " ++ warning)) (fun _ _ => ⟨_, rfl⟩) p.warnings
      (s.begun 0 p)
  obtain ⟨s₂, hwritten⟩ := exists_ends_forM (g := fun file : String × ByteArray =>
    (Engine.answering status).writeInput "work" file.1 file.2) (fun _ s => ⟨s, rfl⟩)
      (written p payloads) s₁
  have hasked : Ends (p.soundInputs.mapM fun input => (Engine.answering status).hasAudio "work" input.name)
      s₂ (p.soundInputs.map fun _ => true) s₂ := by
    induction p.soundInputs with
    | nil => exact ends_pure.2 ⟨rfl, rfl⟩
    | cons input rest ih =>
      rw [List.mapM_cons]
      exact ends_bind.2 ⟨true, s₂, rfl, ends_bind.2 ⟨_, s₂, ih, ends_pure.2 ⟨rfl, rfl⟩⟩⟩
  have hopened : Ends ((answering status).opened p) (s.begun 0 p)
      (Engine.answering status, "work") s₁ :=
    ends_bind.2 ⟨(), s₁, hnoted, rfl⟩
  exact ⟨s₂, hfree, hcomplete, ends_bind.2 ⟨_, s₁, hopened, ends_bind.2 ⟨(), s₂, hwritten,
    ends_bind.2 ⟨_, s₂, hasked, ends_pure.2 ⟨rfl, rfl⟩⟩⟩⟩⟩

theorem exec_concluded_answering (output : ByteArray × String) :
    (((answering status).concluded output).exec s).1 = .ok {
      output := output.1, outputName := output.2, logText := (s.pool.drivers 0).logText
      progress := 100 } := by
  have hfull : Measure.progressOf (.ofInt 1) = 100 := by decide +kernel
  have hadvance (fraction : Binary64) : Ends ((answering status).advance fraction) s ()
      { s with pool := s.pool.advance 0 (Measure.progressOf fraction) } := rfl
  rw [concluded, exec_bind, show Session.exec _ s = _ from hadvance (.ofInt 1), hfull]
  rfl

theorem run_answering (hfree : s.pool.holder = none)
    (hcomplete : missing p payloads = []) (hwords : p.arguments = .ok words) :
    ∃ s', ((answering status).run p payloads).exec s = (answerTo status p payloads, s') ∧
      s'.pool.holder = none := by
  obtain ⟨s₁, hhears⟩ : ∃ s₁,
      (answering status).Hears p payloads s (Engine.answering status) "work" s₁ :=
    answering_hears hfree hcomplete
  have hlog : (s₁.pool.drivers 0).logText = "\n".intercalate (p.warnings.map ("warning: " ++ ·)) := by
    rw [DriverState.logText, ← hhears.lines_eq answering_isDiscreet]
    rfl
  obtain ⟨s₂, hpool, hfront, hexecute⟩ : ∃ s₂ : Studio (List String), s₂.pool = s₁.pool ∧
      s₂.front = words ∧ Ends ((Engine.answering status).execute "work" words (some p.totalDuration)
        (answering status).advance (answering status).note) s₁ (status words) s₂ :=
    ⟨{ s₁ with front := words }, rfl, rfl, rfl⟩
  have hanswer : (((answering status).handed (Engine.answering status) "work" p words).exec s₁).1 =
      answerTo status p payloads := by
    rw [answerTo, hwords, ← hlog, ← hpool, handed, exec_bind, exec_attempt, exec_bind,
      show Session.exec _ s₁ = _ from hexecute]
    change _ = if status words ≠ 0 then _ else _
    by_cases hstatus : status words = 0
    · have hexecuted : Ends ((answering status).executed (Engine.answering status) "work" p 0) s₂
          (("\n".intercalate s₂.front).toUTF8, outputNameOf p) s₂ := rfl
      have hclosed : Ends ((answering status).closed (Engine.answering status) "work") s₂ () s₂ := rfl
      rw [if_neg (not_not.2 hstatus), hstatus]
      dsimp only
      rw [show Session.exec _ s₂ = _ from hexecuted]
      dsimp only
      rw [exec_bind, show Session.exec _ s₂ = _ from hclosed]
      dsimp only
      rw [exec_bind, exec_lift]
      dsimp only
      rw [exec_concluded_answering, hfront]
      rfl
    · rw [if_pos hstatus]
      dsimp only
      rw [exec_executed_of_ne hstatus]
      rfl
  refine ⟨(((answering status).run p payloads).exec s).2, Prod.ext ?_ rfl, ?_⟩
  · rw [exec_run_of_hears hhears hwords, exec_released, hanswer]
  · rw [exec_run_of_hears hhears hwords, exec_released]
    rfl

end Renderer

end Montage
