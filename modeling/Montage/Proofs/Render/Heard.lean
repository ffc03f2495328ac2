import Montage.Proofs.Render.Runs

/-!
# Runs whose inputs are all heard

A run of a program whose inputs all have an audio stream hands the words of this very program to the
engine (`exec_run_of_hears`). By then it has noted the warnings of the program and no others.
-/

namespace Montage.Renderer

open Montage.Graph Session Studio

variable {σ : Type} (r : Renderer σ)

/-- What a run does until it has the words for its engine, as long as there is nothing to drop: it
writes its files into a workspace, and asks about each input in its mix. -/
def probed (p : Program Binary64) (files : Payloads) :
    Session σ (Engine σ × String × List Bool) := do
  let (engine, workspace) ← r.opened p
  files.forM fun (name, data) => engine.writeInput workspace name data
  let answers ← p.soundInputs.mapM fun input => engine.hasAudio workspace input.name
  return (engine, workspace, answers)

/-- A run that begins in a studio finds the engine free, has all its files, and is told of each input in
its mix that it has an audio stream. -/
def Hears (p : Program Binary64) (payloads : Payloads) (s : Studio σ) (engine : Engine σ)
    (workspace : String) (s' : Studio σ) : Prop :=
  s.pool.holder = none ∧ missing p payloads = [] ∧
    Ends (r.probed p (written p payloads)) (s.begun r.id p)
      (engine, workspace, p.soundInputs.map fun _ => true) s'

/-- What a run does with the words for its engine, until it has a result. -/
def handed (engine : Engine σ) (workspace : String) (p : Program Binary64) (words : List String) :
    Session σ RenderResult := do
  let outcome ← attempt (do
    let status ← engine.execute workspace words (some p.totalDuration) r.advance r.note
    r.executed engine workspace p status)
  r.closed engine workspace
  r.concluded (← lift outcome)

/-- Gives the engine back after a part of a run, however it went. -/
def released (part : Session σ RenderResult) : Session σ RenderResult := do
  let outcome ← attempt part
  changePool (·.release r.id (outcome matches .error _))
  lift outcome

theorem exec_released (part : Session σ RenderResult) (s : Studio σ) :
    (r.released part).exec s =
      ((part.exec s).1, { (part.exec s).2 with
        pool := (part.exec s).2.pool.release r.id (!(part.exec s).1.isOk) }) := by
  rw [released, exec_bind, exec_attempt]
  generalize part.exec s = ran
  rcases ran with ⟨_ | _, _⟩ <;> rfl

variable {r} {p : Program Binary64} {payloads : Payloads} {s s' : Studio σ} {engine : Engine σ}
  {workspace : String} {words : List String}

/-- Nothing is dropped for inputs that are heard. -/
theorem dropSilent_of_heard {inputs : List (InputSpec Binary64)}
    (h : Ends (inputs.mapM fun input => engine.hasAudio workspace input.name) s
      (inputs.map fun _ => true) s') :
    Ends (r.dropSilent engine workspace inputs p) s p s' := by
  induction inputs generalizing s with
  | nil =>
    obtain ⟨-, rfl⟩ := ends_pure.1 h
    exact ends_pure.2 ⟨rfl, rfl⟩
  | cons input rest ih =>
    rw [List.mapM_cons] at h
    obtain ⟨answer, s₁, hanswer, h⟩ := ends_bind.1 h
    obtain ⟨answers, s₂, hrest, h⟩ := ends_bind.1 h
    obtain ⟨heq, rfl⟩ := ends_pure.1 h
    obtain ⟨rfl, rfl⟩ := List.cons.inj heq
    exact ends_bind.2 ⟨true, s₁, hanswer, ih hrest⟩

theorem probed_ends {files : Payloads} {answers : List Bool}
    (h : Ends (r.probed p files) s (engine, workspace, answers) s') : ∃ s₁ s₂,
    Ends (r.opened p) s (engine, workspace) s₁ ∧
    Ends (files.forM fun (name, data) => engine.writeInput workspace name data) s₁ () s₂ ∧
    Ends (p.soundInputs.mapM fun input => engine.hasAudio workspace input.name) s₂ answers s' := by
  obtain ⟨⟨loaded, place⟩, s₁, hopened, h⟩ := ends_bind.1 h
  obtain ⟨⟨⟩, s₂, hwritten, h⟩ := ends_bind.1 h
  obtain ⟨heard, s₃, hasked, h⟩ := ends_bind.1 h
  obtain ⟨heq, rfl⟩ := ends_pure.1 h
  obtain ⟨rfl, rfl, rfl⟩ : loaded = engine ∧ place = workspace ∧ heard = answers := by
    simpa using heq
  exact ⟨s₁, s₂, hopened, hwritten, hasked⟩

theorem exec_run_of_hears (h : r.Hears p payloads s engine workspace s')
    (hwords : p.arguments = .ok words) :
    (r.run p payloads).exec s = (r.released (r.handed engine workspace p words)).exec s' := by
  obtain ⟨hfree, hcomplete, hprobed⟩ := h
  obtain ⟨s₁, s₂, hopened, hwritten, hasked⟩ := probed_ends hprobed
  have hready : Ends (r.ready engine workspace p payloads) s₁ (p, words) s' :=
    ends_bind.2 ⟨(), s₂, hwritten, ends_bind.2 ⟨p, s', dropSilent_of_heard hasked,
      ends_bind.2 ⟨words, s', ends_lift.2 ⟨hwords, rfl⟩, ends_pure.2 ⟨rfl, rfl⟩⟩⟩⟩
  have hexecute : (r.execute engine workspace p payloads).exec s₁ = (do
      let status ← engine.execute workspace words (some p.totalDuration) r.advance r.note
      r.executed engine workspace p status).exec s' := by
    rw [execute_eq, exec_bind, show (r.ready engine workspace p payloads).exec s₁ = _ from hready]
  have hstarted : (r.started p payloads).exec (s.begun r.id p) =
      (r.handed engine workspace p words).exec s' := by
    rw [started, exec_bind, show (r.opened p).exec (s.begun r.id p) = _ from hopened, handed]
    dsimp only
    rw [exec_bind, exec_bind, exec_attempt, exec_attempt, hexecute]
  rw [exec_run_of_complete hfree hcomplete, hstarted, exec_released]

/-- A run whose program has no words fails for that reason. -/
theorem run_of_unprinted (hr : r.IsDiscreet) (h : r.Hears p payloads s engine workspace s') {e : Fault}
    (hwords : p.arguments = .error e) : ((r.run p payloads).exec s).1 = .error e := by
  obtain ⟨hfree, hcomplete, hprobed⟩ := h
  obtain ⟨s₁, s₂, hopened, hwritten, hasked⟩ := probed_ends hprobed
  have hready : (r.ready engine workspace p payloads).exec s₁ = (.error e, s') := by
    rw [ready, exec_bind, show Session.exec _ s₁ = (.ok (), s₂) from hwritten]
    dsimp only
    rw [exec_bind, show Session.exec _ s₂ = (.ok p, s') from dropSilent_of_heard hasked]
    dsimp only
    rw [exec_bind, exec_lift, hwords]
  have hfault : (r.execute engine workspace p payloads).exec s₁ = (.error e, s') := by
    rw [execute_eq, exec_bind, hready]
  rw [exec_run_of_complete hfree hcomplete]
  exact started_of_fault hr hopened hfault

/-! ### The lines until then -/

theorem note_ends (hr : r.IsDiscreet) (hheld : s.pool.holder = some r.id) {line : String}
    (h : Ends (r.note line) s () s') : s'.pool = s.pool.note r.id line := by
  obtain ⟨⟨⟩, s₁, hchange, hheard⟩ := ends_bind.1 h
  obtain rfl := (ends_modify.1 hchange).symm
  exact (hr.onLine line).ends hheard (by simp [hheld, DriverPool.note])

theorem forM_note_ends (hr : r.IsDiscreet) (hheld : s.pool.holder = some r.id)
    {warnings : List String}
    (h : Ends (warnings.forM fun warning => r.note ("warning: " ++ warning)) s () s') :
    s'.pool = s.pool.performs r.id (warnings.map fun warning => .note ("warning: " ++ warning)) := by
  induction warnings generalizing s with
  | nil =>
    obtain ⟨-, rfl⟩ := ends_pure.1 h
    rfl
  | cons warning rest ih =>
    obtain ⟨⟨⟩, s₁, hnote, h⟩ := ends_bind.1 h
    have hpool := note_ends hr hheld hnote
    rw [ih (by rw [hpool]; exact hheld) h, hpool]
    rfl

/-- All that is logged before the engine gets its words are the warnings of the program. -/
theorem Hears.lines_eq (hr : r.IsDiscreet) (h : r.Hears p payloads s engine workspace s') :
    (s'.pool.drivers r.id).lines = p.warnings.map ("warning: " ++ ·) := by
  obtain ⟨-, -, hprobed⟩ := h
  obtain ⟨s₁, s₂, hopened, hwritten, hasked⟩ := probed_ends hprobed
  have hengine := opened_isDiscreet hr hopened
  obtain ⟨⟨⟩, s₃, hnotes, hrest⟩ := ends_bind.1 hopened
  obtain ⟨loaded, s₄, hload, hrest⟩ := ends_bind.1 hrest
  obtain ⟨place, s₅, hplace, hrest⟩ := ends_bind.1 hrest
  obtain ⟨heq, rfl⟩ := ends_pure.1 hrest
  obtain ⟨rfl, rfl⟩ := Prod.mk.inj heq
  have hnoted := forM_note_ends hr begun_holder hnotes
  have hquiet : s₃.KeepsHeld s' := by
    refine KeepsHeld.trans _ _ _ (hr.loadEngine.ends hload) ?_
    refine KeepsHeld.trans _ _ _ ((hengine.newWorkspace _).ends hplace) ?_
    refine KeepsHeld.trans _ _ _ ((respects_forM KeepsHeld.refl KeepsHeld.trans
      (fun file : String × ByteArray => hengine.writeInput _ file.1 file.2) _).ends hwritten) ?_
    exact (respects_mapM KeepsHeld.refl KeepsHeld.trans
      (fun input : InputSpec Binary64 => hengine.hasAudio _ input.name) _).ends hasked
  have hheld : s₃.pool.holder ≠ none := by
    rw [hnoted, DriverPool.performs_holder, begun_holder]
    exact nofun
  have hlines : linesOf (p.warnings.map fun warning => .note ("warning: " ++ warning)) =
      p.warnings.map ("warning: " ++ ·) := by
    rw [linesOf, List.filterMap_map, ← List.filterMap_eq_map]
    rfl
  rw [hquiet hheld, hnoted, DriverPool.performs_lines, hlines]
  simp [Studio.begun, DriverPool.start]

end Montage.Renderer
