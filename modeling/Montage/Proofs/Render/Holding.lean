import Montage.Proofs.Render.Parts
import Montage.Proofs.Render.Stage

/-!
# While the engine is held

A run that is attempted while the engine is held changes nothing. Engines and listeners that reach
the drivers in no other way, and by the reports of a run, are discreet: under them a run does nothing
but its own work on its own driver.
-/

namespace Montage

open Montage.Graph Session

variable {σ : Type}

namespace Studio

/-- As long as the engine is held, the drivers stay as they are. -/
def KeepsHeld (s s' : Studio σ) : Prop := s.pool.holder ≠ none → s'.pool = s.pool

/-- A driver that holds the engine works, and nothing else happens to the drivers. -/
def Works (id : Nat) (s s' : Studio σ) : Prop :=
  s.pool.holder = some id → ∃ works, s'.pool = s.pool.performs id works

theorem KeepsHeld.refl (s : Studio σ) : s.KeepsHeld s := fun _ => rfl

theorem KeepsHeld.trans (s₁ s₂ s₃ : Studio σ) (h : s₁.KeepsHeld s₂) (h' : s₂.KeepsHeld s₃) :
    s₁.KeepsHeld s₃ := by
  intro hheld
  have hpool := h hheld
  exact (h' (by rwa [hpool])).trans hpool

variable {id : Nat}

theorem KeepsHeld.works {s s' : Studio σ} (h : s.KeepsHeld s') : s.Works id s' :=
  fun hholder => ⟨[], h (by rw [hholder]; exact nofun)⟩

theorem Works.refl (s : Studio σ) : s.Works id s := (KeepsHeld.refl s).works

theorem Works.trans (s₁ s₂ s₃ : Studio σ) (h : s₁.Works id s₂) (h' : s₂.Works id s₃) :
    s₁.Works id s₃ := by
  intro hholder
  obtain ⟨works, hpool⟩ := h hholder
  have hholder' : s₂.pool.holder = some id := by rw [hpool, DriverPool.performs_holder, hholder]
  obtain ⟨more, hpool'⟩ := h' hholder'
  exact ⟨works ++ more, by rw [hpool', hpool, DriverPool.performs_append]⟩

end Studio

open Studio

/-- An engine that leaves drivers alone, but for attempts to run them and for the reports of the
program that it executes. Its workspaces can always be removed. -/
structure Engine.IsDiscreet (engine : Engine σ) : Prop where
  newWorkspace : ∀ directory, Respects KeepsHeld (engine.newWorkspace directory)
  removeWorkspace : ∀ workspace, Respects KeepsHeld (engine.removeWorkspace workspace)
  removeWorkspace_ends : ∀ workspace s, ∃ s', Ends (engine.removeWorkspace workspace) s () s'
  writeInput : ∀ workspace name data, Respects KeepsHeld (engine.writeInput workspace name data)
  readOutput : ∀ workspace name, Respects KeepsHeld (engine.readOutput workspace name)
  hasAudio : ∀ workspace name, Respects KeepsHeld (engine.hasAudio workspace name)
  /-- Whatever holds of the reports, and is kept up while the engine is held, holds of the whole. -/
  execute : ∀ R : Studio σ → Studio σ → Prop, (∀ s s', KeepsHeld s s' → R s s') →
    (∀ s₁ s₂ s₃, R s₁ s₂ → R s₂ s₃ → R s₁ s₃) → ∀ onFraction onLine,
    (∀ x, Respects R (onFraction x)) → (∀ line, Respects R (onLine line)) →
    ∀ workspace arguments duration,
      Respects R (engine.execute workspace arguments duration onFraction onLine)

/-- A driver whose engine is discreet, and whose listeners are. -/
structure Renderer.IsDiscreet (r : Renderer σ) : Prop where
  loadEngine : Respects KeepsHeld r.loadEngine
  engine : ∀ {s engine s'}, Ends r.loadEngine s engine s' → engine.IsDiscreet
  onProgress : ∀ percent, Respects KeepsHeld (r.onProgress percent)
  onLine : ∀ line, Respects KeepsHeld (r.onLine line)

namespace Renderer

section Attempt

variable (r : Renderer σ) (p : Program Binary64) (payloads : Payloads)

theorem exec_run_of_held {s : Studio σ} (hheld : s.pool.holder ≠ none) :
    (r.run p payloads).exec s = (.error .engineBusy, s) := by
  have hacquire : s.pool.acquire r.id = .error .engineBusy :=
    if_pos (Option.isSome_iff_ne_none.2 hheld)
  rw [run, exec_bind, exec_get]
  dsimp only
  rw [exec_bind, exec_lift, hacquire]

theorem exec_run_of_free {s : Studio σ} (hfree : s.pool.holder = none) :
    (r.run p payloads).exec s =
      let ran := (r.runHolding p payloads).exec { s with pool := s.pool.entered r.id p }
      (ran.1, { ran.2 with pool := ran.2.pool.release r.id (!ran.1.isOk) }) := by
  have hacquire : s.pool.acquire r.id = .ok { s.pool with holder := some r.id } :=
    if_neg (by simp [hfree])
  have hentered : DriverPool.setProgram { s.pool with holder := some r.id } r.id p =
      s.pool.entered r.id p := rfl
  rw [run, exec_bind, exec_get]
  dsimp only
  rw [exec_bind, exec_lift, hacquire]
  dsimp only
  rw [exec_bind, changePool, exec_modify, hentered]
  dsimp only
  rw [exec_bind, exec_attempt]
  -- Whether the run failed is all that giving the engine back asks of its outcome.
  generalize (r.runHolding p payloads).exec { s with pool := s.pool.entered r.id p } = ran
  rcases ran with ⟨_ | _, _⟩ <;> rfl

theorem respects_run : Respects KeepsHeld (r.run p payloads) := by
  intro s hheld
  rw [exec_run_of_held r p payloads hheld]

end Attempt

/-! ### The work of a run -/

section Work

variable {r : Renderer σ} (hr : r.IsDiscreet)

theorem respects_changePool {id : Nat} {f : DriverPool → DriverPool} (w : Work)
    (h : ∀ pool, f pool = pool.perform id w) :
    Respects (Works id) (changePool f : Session σ Unit) :=
  respects_modify fun s _ => ⟨[w], h s.pool⟩

include hr

theorem respects_note (line : String) : Respects (Works r.id) (r.note line) :=
  respects_bind Works.trans (respects_changePool (.note line) fun _ => rfl) fun _ =>
    (hr.onLine line).mono fun _ _ h => h.works

theorem respects_advance (fraction : Binary64) : Respects (Works r.id) (r.advance fraction) :=
  respects_bind Works.trans (respects_changePool (.advance _) fun _ => rfl) fun _ =>
    (hr.onProgress _).mono fun _ _ h => h.works

variable {engine : Engine σ} (hengine : engine.IsDiscreet) (workspace : String)
  (p : Program Binary64) (payloads : Payloads)

theorem respects_opened : Respects (Works r.id) (r.opened p) :=
  opened_respects Works.refl Works.trans (respects_note hr) (hr.loadEngine.mono fun _ _ h => h.works)
    fun hload => ((hr.engine hload).newWorkspace _).mono fun _ _ h => h.works

include hengine

theorem respects_ready : Respects (Works r.id) (r.ready engine workspace p payloads) := by
  refine ready_respects Works.refl Works.trans (fun file _ => ?_) fun inputs => ?_
  · exact (hengine.writeInput workspace file.1 file.2).mono fun _ _ h => h.works
  · exact dropSilent_respects Works.refl Works.trans
      (fun name => (hengine.hasAudio workspace name).mono fun _ _ h => h.works)
      (fun _ => respects_changePool (.setProgram _) fun _ => rfl) (respects_note hr) inputs p

theorem respects_engine_execute (arguments : List String) (duration : Option Binary64) :
    Respects (Works r.id)
      (engine.execute workspace arguments duration r.advance r.note) :=
  hengine.execute _ (fun _ _ h => h.works) Works.trans _ _ (respects_advance hr) (respects_note hr) _ _ _

omit hr in
theorem respects_executed (status : Int) :
    Respects (Works r.id) (r.executed engine workspace p status) :=
  executed_respects Works.refl Works.trans
    (fun name => (hengine.readOutput workspace name).mono fun _ _ h => h.works) status

theorem respects_execute : Respects (Works r.id) (r.execute engine workspace p payloads) := by
  rw [execute_eq]
  refine respects_bind Works.trans (respects_ready hr hengine workspace p payloads) fun ready => ?_
  refine respects_bind Works.trans (respects_engine_execute hr hengine _ _ _) fun status => ?_
  exact respects_executed hengine workspace _ status

omit hr in
theorem respects_closed : Respects KeepsHeld (r.closed engine workspace) :=
  closed_respects KeepsHeld.refl (hengine.removeWorkspace workspace)

omit hengine in
theorem respects_concluded (output : ByteArray × String) :
    Respects (Works r.id) (r.concluded output) :=
  concluded_respects Works.refl Works.trans (respects_advance hr) output

end Work

end Renderer

end Montage
