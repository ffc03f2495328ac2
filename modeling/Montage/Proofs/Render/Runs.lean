import Montage.Proofs.Engine.Discreet

/-!
# Runs

However a run of a discreet driver goes, it gives the engine back (`run_isOrderly`). Only one run has
the engine at a time.
-/

namespace Montage

open Montage.Graph Session Studio

variable {σ : Type}

/-- A studio in which a driver has begun to run a program. -/
def Studio.begun (s : Studio σ) (id : Nat) (p : Program Binary64) : Studio σ :=
  { s with pool := (s.pool.entered id p).start id }

namespace Renderer

variable {r : Renderer σ} {p p' : Program Binary64} {payloads : Payloads} {engine : Engine σ}
  {workspace : String} {s s₁ s₂ s' : Studio σ} {status : Int} {words : List String}

/-- A run that begins in a studio has its program executed in a workspace, and this ends. -/
def Executes (r : Renderer σ) (p : Program Binary64) (payloads : Payloads) (s : Studio σ)
    (engine : Engine σ) (workspace : String) (status : Int) (s' : Studio σ) : Prop :=
  missing p payloads = [] ∧ ∃ s₁ p' words s₂,
    Ends (r.opened p) (s.begun r.id p) (engine, workspace) s₁ ∧
    Ends (r.ready engine workspace p payloads) s₁ (p', words) s₂ ∧
    Ends (engine.execute workspace words (some p'.totalDuration) r.advance r.note) s₂ status s'

/-- What a run that began in a studio has logged until now. -/
def HasLogged (r : Renderer σ) (p : Program Binary64) (s s' : Studio σ) (text : String) : Prop :=
  ∃ works, s'.pool = (s.begun r.id p).pool.performs r.id works ∧
    text = "\n".intercalate (linesOf works)

theorem exec_run_of_missing (hfree : s.pool.holder = none) (hmissing : missing p payloads ≠ []) :
    (r.run p payloads).exec s = (.error (.rejected (.missingInputs (missing p payloads))),
      { s with pool := (s.pool.entered r.id p).release r.id true }) := by
  rw [exec_run_of_free r p payloads hfree, runHolding_eq, if_pos hmissing]
  rfl

theorem exec_run_of_complete (hfree : s.pool.holder = none) (hcomplete : missing p payloads = []) :
    (r.run p payloads).exec s =
      let ran := (r.started p payloads).exec (s.begun r.id p)
      (ran.1, { ran.2 with pool := ran.2.pool.release r.id (!ran.1.isOk) }) := by
  rw [exec_run_of_free r p payloads hfree, runHolding_eq, if_neg (not_not.2 hcomplete)]
  rfl

theorem exec_started (hopened : Ends (r.opened p) s (engine, workspace) s₁)
    (hclosed : Ends (r.closed engine workspace)
      ((r.execute engine workspace p payloads).exec s₁).2 () s₂) :
    (r.started p payloads).exec s =
      (lift ((r.execute engine workspace p payloads).exec s₁).1 >>= r.concluded).exec s₂ := by
  have hattempt := exec_attempt (r.execute engine workspace p payloads) s₁
  rw [started, exec_bind, show (r.opened p).exec s = (.ok (engine, workspace), s₁) from hopened]
  dsimp only
  rw [exec_bind, hattempt]
  dsimp only
  rw [exec_bind, show (r.closed engine workspace).exec _ = (.ok (), s₂) from hclosed]

theorem opened_isDiscreet (hr : r.IsDiscreet) (h : Ends (r.opened p) s (engine, workspace) s') :
    engine.IsDiscreet := by
  obtain ⟨_, _, hload⟩ := opened_ends h
  exact hr.engine hload

theorem closed_ends (hengine : engine.IsDiscreet) (s : Studio σ) :
    ∃ s', Ends (r.closed engine workspace) s () s' := by
  unfold closed
  split
  · exact hengine.removeWorkspace_ends workspace s
  · exact ⟨s, ends_pure.2 ⟨rfl, rfl⟩⟩

theorem exec_executed_of_ne (hstatus : status ≠ 0) :
    (r.executed engine workspace p status).exec s =
      (.error (.engineRun s!"engine exited with status {status}" (s.pool.drivers r.id).logText
        (some status)), s) := by
  unfold executed
  rw [if_pos hstatus]
  rfl

theorem exec_executed_of_unread {e : IoFault}
    (h : (engine.readOutput workspace (outputNameOf p)).exec s = (.error (.io e), s')) :
    (r.executed engine workspace p 0).exec s =
      (.error (.engineRun s!"engine produced no output {outputNameOf p}: {e.message}"
        (s'.pool.drivers r.id).logText none), s') := by
  unfold executed output
  rw [if_neg (by simp), exec_bind, exec_bind, exec_attempt, h]
  rfl

theorem executed_ends {output : ByteArray × String}
    (h : Ends (r.executed engine workspace p status) s output s') :
    status = 0 ∧ output.2 = outputNameOf p ∧
      Ends (engine.readOutput workspace (outputNameOf p)) s output.1 s' := by
  by_cases hstatus : status = 0
  · unfold executed at h
    rw [if_neg (not_not.2 hstatus)] at h
    obtain ⟨data, s₁, houtput, h⟩ := ends_bind.1 h
    obtain ⟨rfl, rfl⟩ := ends_pure.1 h
    obtain ⟨outcome, s₂, hattempt, houtput⟩ := ends_bind.1 houtput
    rw [ends_attempt] at hattempt
    split at houtput
    · obtain ⟨rfl, rfl⟩ := ends_pure.1 houtput
      exact ⟨hstatus, rfl, hattempt⟩
    · obtain ⟨fault, s₃, -, houtput⟩ := ends_bind.1 houtput
      exact absurd houtput ends_throw
    · exact absurd houtput ends_throw
  · rw [Ends, exec_executed_of_ne hstatus] at h
    cases h

theorem concluded_ends (hr : r.IsDiscreet) {output : ByteArray × String} {result : RenderResult}
    (hheld : s.pool.holder = some r.id) (h : Ends (r.concluded output) s result s') :
    result.output = output.1 ∧ result.outputName = output.2 ∧ result.progress = 100 ∧
      (s'.pool.drivers r.id).progress = 100 := by
  have hfull : Measure.progressOf (.ofInt 1) = 100 := by decide +kernel
  obtain ⟨⟨⟩, s₁, hadvance, h⟩ := ends_bind.1 h
  obtain ⟨state, s₂, hstate, h⟩ := ends_bind.1 h
  obtain ⟨rfl, rfl⟩ := ends_pure.1 h
  obtain ⟨⟨⟩, s₃, hchange, hheard⟩ := ends_bind.1 hadvance
  obtain rfl := (ends_modify.1 hchange).symm
  have hkept : s₁.pool = s.pool.advance r.id 100 := by
    have hpool := (hr.onProgress _).ends hheard (by simp [hheld, DriverPool.advance])
    rwa [hfull] at hpool
  obtain ⟨rfl, rfl⟩ := ends_driver.1 hstate
  refine ⟨rfl, rfl, ?_, ?_⟩ <;> simp [hkept, DriverPool.advance]

theorem respects_started (hr : r.IsDiscreet) (p : Program Binary64) (payloads : Payloads) :
    Respects (Works r.id) (r.started p payloads) := by
  refine respects_bind_of_ends Works.trans (respects_opened hr p) ?_
  intro ⟨engine, workspace⟩ s s₁ hopened
  have hengine := opened_isDiscreet hr hopened
  refine respects_bind Works.trans ?_ fun outcome => ?_
  · exact respects_attempt (respects_execute hr hengine workspace p payloads)
  refine respects_bind Works.trans ?_ fun _ => ?_
  · exact (respects_closed hengine workspace).mono fun _ _ h => h.works
  exact respects_bind Works.trans (respects_lift Works.refl _) fun _ => respects_concluded hr _

/-- How a run goes that finds the engine free. -/
structure IsOrderly (r : Renderer σ) (p : Program Binary64) (payloads : Payloads) (s : Studio σ)
    (outcome : Except Fault RenderResult) (s' : Studio σ) : Prop where
  free : s'.pool.holder = none
  idle : (s'.pool.drivers r.id).exporting = false
  others : ∀ id ≠ r.id, s'.pool.drivers id = s.pool.drivers id
  failed : ∀ e, outcome = .error e → (s'.pool.drivers r.id).progress = 0
  refused : missing p payloads ≠ [] →
    outcome = .error (.rejected (.missingInputs (missing p payloads))) ∧
    s' = { s with pool := (s.pool.entered r.id p).release r.id true }
  unopened : ∀ e s₁, missing p payloads = [] →
    (r.opened p).exec (s.begun r.id p) = (.error e, s₁) →
    outcome = .error e ∧ s' = { s₁ with pool := s₁.pool.release r.id true }
  returned : ∀ result, outcome = .ok result →
    result.progress = 100 ∧ (s'.pool.drivers r.id).progress = 100 ∧
    result.outputName = outputNameOf p ∧ ∃ engine workspace s₁ s₂,
      r.Executes p payloads s engine workspace 0 s₁ ∧
      Ends (engine.readOutput workspace (outputNameOf p)) s₁ result.output s₂
  exited : ∀ engine workspace status s₁, r.Executes p payloads s engine workspace status s₁ →
    status ≠ 0 → ∃ log, r.HasLogged p s s₁ log ∧
      outcome = .error (.engineRun s!"engine exited with status {status}" log (some status))
  unread : ∀ engine workspace s₁ e s₂, r.Executes p payloads s engine workspace 0 s₁ →
    (engine.readOutput workspace (outputNameOf p)).exec s₁ = (.error (.io e), s₂) →
    ∃ log, r.HasLogged p s s₂ log ∧ outcome = .error
      (.engineRun s!"engine produced no output {outputNameOf p}: {e.message}" log none)
  /-- Once there is a workspace, it is removed unless it is to be kept, whatever came of the program;
  then there is only a result left to announce. -/
  removed : ∀ engine workspace s₁, missing p payloads = [] →
    Ends (r.opened p) (s.begun r.id p) (engine, workspace) s₁ → ∃ s₂ s₃,
      (if r.keepTemp then s₂ = ((r.execute engine workspace p payloads).exec s₁).2
        else Ends (engine.removeWorkspace workspace)
          ((r.execute engine workspace p payloads).exec s₁).2 () s₂) ∧
      (lift ((r.execute engine workspace p payloads).exec s₁).1 >>= r.concluded).exec s₂ =
        (outcome, s₃) ∧
      s' = { s₃ with pool := s₃.pool.release r.id (!outcome.isOk) }
  /-- All this is what a thread does by itself, on whatever stage. -/
  played : ∃ works, ∀ (x : Stage) (thread : Nat), x.IsExclusive → x.pool = s.pool →
    x.plays ((runDeeds r.id p works (!outcome.isOk)).map (thread, ·)) =
      { x with pool := s'.pool }

theorem entered_drivers_of_ne (pool : DriverPool) {id other : Nat} (h : other ≠ id) :
    (pool.entered id p).drivers other = pool.drivers other :=
  if_neg h

theorem begun_drivers_of_ne {id other : Nat} (h : other ≠ id) :
    (s.begun id p).pool.drivers other = s.pool.drivers other := by
  rw [Studio.begun, DriverPool.start, DriverPool.update_drivers_of_ne _ _ h,
    entered_drivers_of_ne _ h]

theorem begun_holder {id : Nat} : (s.begun id p).pool.holder = some id := rfl

theorem isOrderly_of_missing (hfree : s.pool.holder = none) (hmissing : missing p payloads ≠ []) :
    r.IsOrderly p payloads s ((r.run p payloads).exec s).1 ((r.run p payloads).exec s).2 := by
  rw [exec_run_of_missing hfree hmissing]
  constructor
  case free => rfl
  case idle => simp
  case others =>
    intro id hid
    exact (DriverPool.release_drivers_of_ne _ hid _).trans (entered_drivers_of_ne _ hid)
  case failed =>
    intro e _
    simp
  case refused => exact fun _ => ⟨rfl, rfl⟩
  case unopened => exact fun _ _ hcomplete => absurd hcomplete hmissing
  case returned => exact nofun
  case exited => exact fun _ _ _ _ hexecutes => absurd hexecutes.1 hmissing
  case unread => exact fun _ _ _ _ _ hexecutes => absurd hexecutes.1 hmissing
  case removed => exact fun _ _ _ hcomplete => absurd hcomplete hmissing
  case played =>
    refine ⟨none, fun x thread hx hpool => ?_⟩
    rw [hx.plays_run (hpool ▸ hfree), hpool]
    rfl

theorem hasLogged_of_works (h : (s.begun r.id p).Works r.id s') :
    r.HasLogged p s s' (s'.pool.drivers r.id).logText := by
  obtain ⟨works, hpool⟩ := h begun_holder
  refine ⟨works, hpool, ?_⟩
  -- A run forgets the lines of the one before it.
  have hnone : ((s.begun r.id p).pool.drivers r.id).lines = [] := by
    simp [Studio.begun, DriverPool.start]
  rw [DriverState.logText, hpool, DriverPool.performs_lines, hnone, List.nil_append]

theorem engine_of_executes (hr : r.IsDiscreet)
    (h : r.Executes p payloads s engine workspace status s') : engine.IsDiscreet := by
  obtain ⟨-, s₁, p', words, s₂, hopened, -⟩ := h
  exact opened_isDiscreet hr hopened

theorem works_of_executes (hr : r.IsDiscreet)
    (h : r.Executes p payloads s engine workspace status s') :
    (s.begun r.id p).Works r.id s' := by
  obtain ⟨-, s₁, p', words, s₂, hopened, hready, hexecute⟩ := h
  have hengine := opened_isDiscreet hr hopened
  exact Works.trans _ _ _ ((respects_opened hr p).ends hopened)
    (Works.trans _ _ _ ((respects_ready hr hengine workspace p payloads).ends hready)
      ((respects_engine_execute hr hengine workspace words _).ends hexecute))

theorem holder_of_works (h : (s.begun r.id p).Works r.id s') : s'.pool.holder = some r.id := by
  obtain ⟨works, hpool⟩ := h begun_holder
  rw [hpool, DriverPool.performs_holder, begun_holder]

/-- A fault of the engine is that of the run, whatever becomes of the workspace. -/
theorem started_of_fault (hr : r.IsDiscreet) {e : Fault}
    (hopened : Ends (r.opened p) s (engine, workspace) s₁)
    (hfault : (r.execute engine workspace p payloads).exec s₁ = (.error e, s₂)) :
    ((r.started p payloads).exec s).1 = .error e := by
  obtain ⟨s₃, hclosed⟩ := @closed_ends σ r engine workspace (opened_isDiscreet hr hopened)
    ((r.execute engine workspace p payloads).exec s₁).2
  rw [exec_started hopened hclosed, hfault]
  rfl

theorem exec_execute (hready : Ends (r.ready engine workspace p payloads) s (p', words) s₁)
    (hexecute : Ends (engine.execute workspace words (some p'.totalDuration) r.advance r.note)
      s₁ status s₂) :
    (r.execute engine workspace p payloads).exec s = (r.executed engine workspace p' status).exec s₂ := by
  rw [execute_eq, exec_bind,
    show (r.ready engine workspace p payloads).exec s = (.ok (p', words), s₁) from hready]
  dsimp only
  rw [exec_bind,
    show (engine.execute workspace words _ r.advance r.note).exec s₁ = (.ok status, s₂) from hexecute]

theorem started_of_exited (hr : r.IsDiscreet)
    (h : r.Executes p payloads s engine workspace status s') (hstatus : status ≠ 0) :
    ((r.started p payloads).exec (s.begun r.id p)).1 = .error (.engineRun
      s!"engine exited with status {status}" (s'.pool.drivers r.id).logText (some status)) := by
  obtain ⟨-, s₁, p', words, s₂, hopened, hready, hexecute⟩ := h
  have hfault := (exec_execute hready hexecute).trans (@exec_executed_of_ne _ r p' engine _ _ _ hstatus)
  exact started_of_fault hr hopened hfault

theorem started_of_unread (hr : r.IsDiscreet) {e : IoFault}
    (h : r.Executes p payloads s engine workspace 0 s₁)
    (hread : (engine.readOutput workspace (outputNameOf p)).exec s₁ = (.error (.io e), s₂)) :
    ((r.started p payloads).exec (s.begun r.id p)).1 = .error (.engineRun
      s!"engine produced no output {outputNameOf p}: {e.message}"
      (s₂.pool.drivers r.id).logText none) := by
  obtain ⟨-, t₁, p', words, t₂, hopened, hready, hexecute⟩ := h
  obtain ⟨⟨indices, rfl⟩, -⟩ := ready_ends hready
  rw [← outputNameOf_foldl_dropSound indices p] at hread ⊢
  have hfault := (exec_execute hready hexecute).trans (@exec_executed_of_unread _ r _ _ _ _ _ _ hread)
  exact started_of_fault hr hopened hfault

theorem started_ends (hr : r.IsDiscreet) (hcomplete : missing p payloads = [])
    {result : RenderResult} (h : Ends (r.started p payloads) (s.begun r.id p) result s') :
    result.progress = 100 ∧ (s'.pool.drivers r.id).progress = 100 ∧
    result.outputName = outputNameOf p ∧ ∃ engine workspace s₁ s₂,
      r.Executes p payloads s engine workspace 0 s₁ ∧
      Ends (engine.readOutput workspace (outputNameOf p)) s₁ result.output s₂ := by
  obtain ⟨⟨engine, workspace⟩, t₁, hopened, h⟩ := ends_bind.1 h
  obtain ⟨outcome, t₂, hattempt, h⟩ := ends_bind.1 h
  obtain ⟨⟨⟩, t₃, hclosed, h⟩ := ends_bind.1 h
  obtain ⟨output, t₄, hlift, hconcluded⟩ := ends_bind.1 h
  obtain ⟨rfl, rfl⟩ := ends_lift.1 hlift
  have hengine := opened_isDiscreet hr hopened
  have hexecuted : Ends (r.execute engine workspace p payloads) t₁ output t₂ :=
    ends_attempt.1 hattempt
  have hheld : t₃.pool.holder = some r.id := by
    refine @holder_of_works _ _ p s _ (Works.trans _ _ _ ((respects_opened hr p).ends hopened) ?_)
    exact Works.trans _ _ _ ((respects_execute hr hengine workspace p payloads).ends hexecuted)
      ((respects_closed hengine workspace).ends hclosed).works
  obtain ⟨houtput, hname, hprogress, hfinal⟩ := concluded_ends hr hheld hconcluded
  rw [execute_eq] at hexecuted
  obtain ⟨⟨p', words⟩, u₁, hready, hexecuted⟩ := ends_bind.1 hexecuted
  obtain ⟨status, u₂, hexecute, hexecuted⟩ := ends_bind.1 hexecuted
  obtain ⟨rfl, hname', hread⟩ := executed_ends hexecuted
  obtain ⟨⟨indices, rfl⟩, -⟩ := ready_ends hready
  rw [outputNameOf_foldl_dropSound] at hname' hread
  refine ⟨hprogress, hfinal, hname.trans hname', engine, workspace, u₂, t₂, ?_, houtput ▸ hread⟩
  exact ⟨hcomplete, t₁, _, words, u₁, hopened, hready, hexecute⟩

theorem isOrderly_of_complete (hr : r.IsDiscreet) (hfree : s.pool.holder = none)
    (hcomplete : missing p payloads = []) :
    r.IsOrderly p payloads s ((r.run p payloads).exec s).1 ((r.run p payloads).exec s).2 := by
  rw [exec_run_of_complete hfree hcomplete]
  have hworks := respects_started hr p payloads (s.begun r.id p)
  rcases hstarted : (r.started p payloads).exec (s.begun r.id p) with ⟨outcome, s₁⟩
  rw [hstarted] at hworks
  -- All that happens to the drivers until the engine is given back is work on this one.
  obtain ⟨works, hpool⟩ : ∃ works, s₁.pool = (s.begun r.id p).pool.performs r.id works :=
    hworks begun_holder
  constructor
  case free => rfl
  case idle => simp
  case others =>
    intro id hid
    dsimp only
    rw [DriverPool.release_drivers_of_ne _ hid, hpool, DriverPool.performs_drivers_of_ne _ _ hid,
      begun_drivers_of_ne hid]
  case failed =>
    rintro e ⟨⟩
    simp [Except.isOk, Except.toBool]
  case refused => exact fun hmissing => absurd hcomplete hmissing
  case unopened =>
    intro e t _ hopened
    rw [started, exec_bind, hopened] at hstarted
    obtain ⟨rfl, rfl⟩ := Prod.mk.inj hstarted
    exact ⟨rfl, rfl⟩
  case returned =>
    rintro result ⟨⟩
    obtain ⟨hprogress, hfinal, hrest⟩ := started_ends hr hcomplete hstarted
    exact ⟨hprogress, by simpa [Except.isOk, Except.toBool] using hfinal, hrest⟩
  case exited =>
    intro engine workspace status t hexecutes hstatus
    refine ⟨_, hasLogged_of_works (works_of_executes hr hexecutes), ?_⟩
    simpa [hstarted] using started_of_exited hr hexecutes hstatus
  case unread =>
    intro engine workspace t e t' hexecutes hread
    have hkept := (engine_of_executes hr hexecutes).readOutput workspace (outputNameOf p) t
    rw [hread] at hkept
    have hworks' := Works.trans _ _ _ (works_of_executes hr hexecutes) hkept.works
    refine ⟨_, hasLogged_of_works hworks', ?_⟩
    simpa [hstarted] using started_of_unread hr hexecutes hread
  case removed =>
    intro engine workspace t _ hopened
    obtain ⟨t', hclosed⟩ := @closed_ends σ r engine workspace (opened_isDiscreet hr hopened)
      ((r.execute engine workspace p payloads).exec t).2
    refine ⟨t', s₁, ?_, (exec_started hopened hclosed).symm.trans hstarted, rfl⟩
    unfold closed at hclosed
    cases hkeep : r.keepTemp with
    | true => simpa [hkeep, ends_pure, eq_comm] using hclosed
    | false => simpa [hkeep] using hclosed
  case played =>
    refine ⟨some works, fun x thread hx hx' => ?_⟩
    rw [hx.plays_run (hx' ▸ hfree), hx']
    dsimp only
    rw [hpool]
    rfl

/-- Threads that share an engine run one driver at a time. An attempt to run another one meanwhile is
refused and changes nothing, and a run that finds the engine free gives it back, however it goes. -/
theorem run_isOrderly (hr : r.IsDiscreet) (p : Program Binary64) (payloads : Payloads) :
    (∀ (pool : DriverPool) (steps : List (Nat × Deed)),
      pool.holder = none → (∀ id, (pool.drivers id).exporting = false) →
      let x := Stage.plays ⟨pool, fun _ => none⟩ steps
      x.IsExclusive ∧ ∀ i j, (x.pool.drivers i).exporting = true →
        (x.pool.drivers j).exporting = true → i = j) ∧
    (∀ (x : Stage) (thread : Nat), x.IsExclusive → x.inside thread ≠ none →
      ∀ other ≠ thread, ∀ deed, x.step other deed = x) ∧
    (∀ s, s.pool.holder ≠ none → (r.run p payloads).exec s = (.error .engineBusy, s)) ∧
    ∀ s, s.pool.holder = none →
      r.IsOrderly p payloads s ((r.run p payloads).exec s).1 ((r.run p payloads).exec s).2 := by
  refine ⟨fun pool steps hfree hidle => ?_, ?_, fun s => exec_run_of_held r p payloads, fun s hfree => ?_⟩
  · have hexclusive := (Stage.isExclusive_of_idle hfree hidle).plays steps
    refine ⟨hexclusive, fun i j hi hj => ?_⟩
    have hholder := (hexclusive.exporting hi).symm.trans (hexclusive.exporting hj)
    exact Option.some.inj hholder
  · exact fun x thread hx hinside other hne deed => hx.step_of_other hinside hne deed
  · by_cases hcomplete : missing p payloads = []
    · exact isOrderly_of_complete hr hfree hcomplete
    · exact isOrderly_of_missing hfree hcomplete

/-- A driver with a listener that tries to run another one at every line, and counts how often the engine
is busy. -/
def restlessRenderer : Renderer Nat where
  id := 1
  loadEngine := Engine.shared "ffmpeg"
  onLine _ := do
    let other : Renderer Nat := { loadEngine := Engine.shared "ffmpeg" }
    match ← attempt (other.run { totalDuration := .zero } []) with
    | .error .engineBusy => Session.present (· + 1)
    | _ => pure ()

def restlessStudio : Studio Nat where
  tree := FileTree.plantDirectory {} ["tmp"]
  front := 0

/-- A timeline with one clip. -/
def takeTimeline : Timeline where
  tracks := [{ id := "main", kind := .video, clips := [
    { id := "take", start := 0, duration := 2, source := some (sampleSource "video/mp4") }] }]

/-- Data without any bytes for all inputs of a program. -/
def emptyPayloads (p : Program Binary64) : Payloads := p.payloadNames.map (·, .empty)

theorem restlessRenderer_isOrderly :
    restlessRenderer.IsDiscreet ∧ restlessStudio.pool.holder = none ∧
      ∃ p, ({} : Compiler).compile takeTimeline "high" (some sampleAssets) = .ok p ∧
        let ran := (restlessRenderer.run p (emptyPayloads p)).exec restlessStudio
        restlessRenderer.IsOrderly p (emptyPayloads p) restlessStudio ran.1 ran.2 ∧
          missing p (emptyPayloads p) = [] ∧ ran.1.isOk = true ∧ 0 < ran.2.front := by
  have hdiscreet : restlessRenderer.IsDiscreet := by
    refine isDiscreet_of_shared rfl (fun _ => respects_pure KeepsHeld.refl ()) fun line => ?_
    refine respects_bind KeepsHeld.trans (respects_attempt (respects_run _ _ _)) fun outcome => ?_
    split
    · exact respects_modify fun s => KeepsHeld.refl s
    · exact respects_pure KeepsHeld.refl ()
  have hcheck : (({} : Compiler).compile takeTimeline "high" (some sampleAssets)).toOption.any (fun p =>
      let ran := (restlessRenderer.run p (emptyPayloads p)).exec restlessStudio
      (missing p (emptyPayloads p)).isEmpty && ran.1.isOk && decide (0 < ran.2.front)) = true := by
    decide +kernel
  obtain ⟨p, hp, hran⟩ := Outcome.exists_ok_of_any hcheck
  simp only [Bool.and_eq_true, decide_eq_true_eq, List.isEmpty_iff] at hran
  exact ⟨hdiscreet, rfl, p, hp, (run_isOrderly hdiscreet p (emptyPayloads p)).2.2.2 _ rfl, hran.1.1, hran.1.2,
    hran.2⟩

end Renderer

end Montage
