import Montage.Proofs.Engine.Progressing
import Montage.Proofs.Render.Runs

/-!
# What a listener is told of a run

A run tells its listener the percentages in the lines of the engine, up to a line that cannot be read, and
100 when it succeeds (`Renderer.run_says`). Nothing else that a run does reaches what the listener keeps.
-/

namespace Montage

open Montage.Graph Session Studio

variable {σ τ α : Type}

/-- Which percentages a run reports that ends like this, when the engine prints these lines. A run that
succeeds reports some `last` ones. -/
inductive Engine.Reports (lines : List String) (duration : Option Binary64) (last : List Int) :
    Except Fault α → List Int → Prop
  | unstarted (e : Fault) : Engine.Reports lines duration last (.error e) []
  | stopped (h : lines.all (Engine.isReadable · duration) = true) (e : Fault) :
      Engine.Reports lines duration last (.error e) (Engine.percents lines duration)
  | unreadable (h : lines.all (Engine.isReadable · duration) = false) :
      Engine.Reports lines duration last (.error (.misuse .range))
        (Engine.percents (Engine.readable lines duration) duration)
  | finished (h : lines.all (Engine.isReadable · duration) = true) (a : α) :
      Engine.Reports lines duration last (.ok a) (Engine.percents lines duration ++ last)

namespace Engine.Reports

variable {lines : List String} {duration : Option Binary64} {last values : List Int}

theorem of_error {β : Type} {more : List Int} {e : Fault}
    (h : Reports lines duration last (.error e : Except Fault α) values) :
    Reports lines duration more (.error e : Except Fault β) values := by
  cases h with
  | unstarted => exact .unstarted e
  | stopped hreadable => exact .stopped hreadable e
  | unreadable hunreadable => exact .unreadable hunreadable

theorem of_ok {a : α} (h : Reports lines duration last (.ok a) values) :
    lines.all (Engine.isReadable · duration) = true ∧ values = Engine.percents lines duration ++ last := by
  cases h with
  | finished hreadable => exact ⟨hreadable, rfl⟩

theorem mem {outcome : Except Fault α} (h : Reports lines duration last outcome values)
    (hlast : ∀ n ∈ last, 0 ≤ n ∧ n ≤ 100) : ∀ n ∈ values, 0 ≤ n ∧ n ≤ 100 := by
  have hpercents (lines : List String) : ∀ n ∈ Engine.percents lines duration, 0 ≤ n ∧ n ≤ 100 :=
    List.forall_mem_map.2 fun x _ => Measure.progressOf_mem x
  cases h with
  | unstarted => exact nofun
  | stopped => exact hpercents lines
  | unreadable => exact hpercents _
  | finished => exact List.forall_mem_append.2 ⟨hpercents lines, hlast⟩

end Engine.Reports

/-- How a view of the program in front changes when percentages are reported one after the other. -/
def told (f : Int → τ → τ) (values : List Int) (view : τ) : τ := values.foldl (fun v n => f n v) view

namespace Renderer

/-- A view of the program in front stays as it is, and so do the runs to come and the listener. -/
structure Unseen (view : σ → τ) (s s' : Studio σ) : Prop where
  runs : s'.runs = s.runs
  listener : s'.listener = s.listener
  view_eq : view s'.front = view s.front

namespace Unseen

variable {view : σ → τ} {s s' : Studio σ}

theorem refl (s : Studio σ) : Unseen view s s := ⟨rfl, rfl, rfl⟩

theorem trans (s₁ s₂ s₃ : Studio σ) (h : Unseen view s₁ s₂) (h' : Unseen view s₂ s₃) :
    Unseen view s₁ s₃ :=
  ⟨h'.runs.trans h.runs, h'.listener.trans h.listener, h'.view_eq.trans h.view_eq⟩

theorem of_backstage (h : s.Backstage s') : Unseen view s s' :=
  ⟨h.runs, h.listener, congrArg view h.front⟩

theorem respects {m : Session σ α} (h : Respects Backstage m) : Respects (Unseen view) m :=
  h.mono fun _ _ => of_backstage

end Unseen

/-- The listener stays as it is, and a view of the program in front hears of some percentages. -/
structure Tells (view : σ → τ) (f : Int → τ → τ) (values : List Int) (s s' : Studio σ) : Prop where
  listener : s'.listener = s.listener
  view_eq : view s'.front = told f values (view s.front)

theorem Tells.trans {view : σ → τ} {f : Int → τ → τ} {values more : List Int} {s s₁ s' : Studio σ}
    (h : Tells view f values s s₁) (h' : Tells view f more s₁ s') :
    Tells view f (values ++ more) s s' where
  listener := h'.listener.trans h.listener
  view_eq := by rw [h'.view_eq, h.view_eq, told, told, told, List.foldl_append]

theorem Unseen.tells {view : σ → τ} {s s' : Studio σ} (h : Unseen view s s') (f : Int → τ → τ) :
    Tells view f [] s s' :=
  ⟨h.listener, h.view_eq⟩

/-- A driver of the studio's engine whose listeners change a view of the program in front by the reported
percentages alone. -/
structure ShowsProgress (r : Renderer σ) (binary : Value) (view : σ → τ) (f : Int → τ → τ) : Prop where
  loadEngine_eq : r.loadEngine = Engine.shared binary
  onProgress : ∀ percent s, ∃ s', Ends (r.onProgress percent) s () s' ∧ Tells view f [percent] s s'
  onLine : ∀ line s, ∃ s', Ends (r.onLine line) s () s' ∧ Unseen view s s'

variable {r : Renderer σ} {binary : Value} {view : σ → τ} {f : Int → τ → τ} {workspace : String}
  {path : String} {p p' : Program Binary64} {payloads : Payloads} {words : List String}
  {s s' s₁ : Studio σ}

section Watched

variable (hr : r.ShowsProgress binary view f)

include hr

theorem note_unseen (line : String) (s : Studio σ) :
    ∃ s', Ends (r.note line) s () s' ∧ Unseen view s s' := by
  obtain ⟨s', hline, hunseen⟩ := hr.onLine line { s with pool := s.pool.note r.id line }
  exact ⟨s', ends_bind.2 ⟨(), _, ends_modify.2 rfl, hline⟩, ⟨hunseen.runs, hunseen.listener,
    hunseen.view_eq⟩⟩

theorem respects_note_unseen (line : String) : Respects (Unseen view) (r.note line) := by
  intro s
  obtain ⟨s', hends, hunseen⟩ := note_unseen hr line s
  rwa [show (r.note line).exec s = (.ok (), s') from hends]

theorem advance_tells (fraction : Binary64) (s : Studio σ) : ∃ s', Ends (r.advance fraction) s () s' ∧
    Tells view f [Measure.progressOf fraction] s s' := by
  obtain ⟨s', hprogress, htells⟩ := hr.onProgress (Measure.progressOf fraction)
    { s with pool := s.pool.advance r.id (Measure.progressOf fraction) }
  exact ⟨s', ends_bind.2 ⟨(), _, ends_modify.2 rfl, hprogress⟩, ⟨htells.listener, htells.view_eq⟩⟩

theorem forM_note_unseen (lines : List String) (g : String → String) (s : Studio σ) :
    ∃ s', Ends (lines.forM fun line => r.note (g line)) s () s' ∧ Unseen view s s' := by
  obtain ⟨s', hends⟩ := exists_ends_forM (g := fun line => r.note (g line))
    (fun line s => (note_unseen hr (g line) s).imp fun _ h => h.1) lines s
  refine ⟨s', hends, ?_⟩
  exact (respects_forM Unseen.refl Unseen.trans (fun line => respects_note_unseen hr (g line))
    lines).ends hends

theorem forM_advance_tells (fractions : List Binary64) (s : Studio σ) :
    ∃ s', Ends (fractions.forM r.advance) s () s' ∧
      Tells view f (fractions.map Measure.progressOf) s s' := by
  induction fractions generalizing s with
  | nil => exact ⟨s, ends_pure.2 ⟨rfl, rfl⟩, (Unseen.refl s).tells f⟩
  | cons x fractions ih =>
    obtain ⟨s₁, hfirst, htells⟩ := advance_tells hr x s
    obtain ⟨s', hrest, htells'⟩ := ih s₁
    exact ⟨s', ends_bind.2 ⟨(), s₁, hfirst, hrest⟩, htells.trans htells'⟩

/-! ### The parts of a run -/

theorem opened_installed {engine : Engine σ} (h : Ends (r.opened p) s (engine, workspace) s') :
    ∃ path, engine = Engine.installed (some path) := by
  obtain ⟨s₁, s₂, hload⟩ := opened_ends h
  rw [hr.loadEngine_eq] at hload
  exact Engine.shared_ends hload

theorem respects_opened_unseen (p : Program Binary64) : Respects (Unseen view) (r.opened p) := by
  refine opened_respects Unseen.refl Unseen.trans (respects_note_unseen hr) ?_ fun hload => ?_
  · rw [hr.loadEngine_eq]
    exact .respects (Engine.respects_shared binary)
  · rw [hr.loadEngine_eq] at hload
    obtain ⟨path, rfl⟩ := Engine.shared_ends hload
    exact .respects (Engine.respects_newWorkspace? r.cacheDirectory)

theorem respects_ready_unseen (path workspace : String) (p : Program Binary64) (payloads : Payloads) :
    Respects (Unseen view) (r.ready (Engine.installed (some path)) workspace p payloads) := by
  refine ready_respects Unseen.refl Unseen.trans (fun file _ => ?_) fun inputs => ?_
  · exact .respects (Engine.respects_writeInput (some path) workspace file.1 file.2)
  · exact dropSilent_respects Unseen.refl Unseen.trans
      (fun name => .respects (Engine.respects_hasAudio (some path) workspace name))
      (fun _ => respects_modify fun s => ⟨rfl, rfl, rfl⟩) (respects_note_unseen hr) inputs p

omit hr in
theorem respects_executed_unseen (r : Renderer σ) (view : σ → τ) (path workspace : String)
    (p : Program Binary64) (status : Int) :
    Respects (Unseen view) (r.executed (Engine.installed (some path)) workspace p status) :=
  executed_respects Unseen.refl Unseen.trans
    (fun name => .respects (Engine.respects_readOutput (some path) workspace name)) status

omit hr in
theorem respects_closed_unseen (r : Renderer σ) (view : σ → τ) (path workspace : String) :
    Respects (Unseen view) (r.closed (Engine.installed (some path)) workspace) :=
  closed_respects Unseen.refl (.respects (respects_removeTree workspace))

/-! ### The run of the engine -/

/-- What a session says that ends like this: the reports for the lines of the run that was the next one. -/
def Says (view : σ → τ) (f : Int → τ → τ) (duration : Option Binary64) (last : List Int) (s : Studio σ)
    (outcome : Except Fault α) (s' : Studio σ) : Prop :=
  ∃ values, Engine.Reports (s.runs.headD {}).progress duration last outcome values ∧ Tells view f values s s'

theorem reported_tells (run : EngineRun) (duration : Option Binary64) (s : Studio σ) :
    ∃ values, Engine.Reports run.progress duration []
      ((Engine.reported run duration r.advance r.note).exec s).1 values ∧
      Tells view f values s ((Engine.reported run duration r.advance r.note).exec s).2 := by
  obtain ⟨s₁, hmessages, hunseen⟩ := forM_note_unseen hr run.messages Engine.withoutEnd s
  obtain ⟨s₂, hshares, htells⟩ :=
    forM_advance_tells hr (Engine.shares (Engine.readable run.progress duration) duration) s₁
  replace htells := (hunseen.tells f).trans htells
  rw [Engine.exec_reported, exec_bind, show Session.exec _ s = (.ok (), s₁) from hmessages]
  dsimp only
  rw [exec_bind, show Session.exec _ s₁ = (.ok (), s₂) from hshares]
  dsimp only
  cases hreadable : run.progress.all (Engine.isReadable · duration) with
  | false => exact ⟨_, .unreadable hreadable, htells⟩
  | true =>
    have hall : Engine.readable run.progress duration = run.progress :=
      List.takeWhile_eq_self_iff.2 (List.all_eq_true.1 hreadable)
    have hfinished : Engine.Reports run.progress duration [] _ _ := .finished hreadable run.status
    rw [List.append_nil] at hfinished
    rw [hall] at htells
    exact ⟨_, hfinished, htells⟩

/-- What happens until the engine leaves something is not seen; the run is the next one. -/
theorem launched_tells (engine workspace : String) (words : List String) (s : Studio σ) :
    (∃ e s', (Engine.launched engine workspace words r.note).exec s = (.error e, s') ∧
      Tells view f [] s s') ∨
    ∃ number s', Ends (Engine.launched engine workspace words r.note) s (s.runs.headD {}, number) s' ∧
      Tells view f [] s s' := by
  obtain ⟨s₁, hnote, hunseen⟩ :=
    note_unseen hr (Engine.commandLine (Engine.runCommand engine words)) s
  have hlisted := Engine.respects_workspaceFiles workspace s₁
  unfold Ends
  rw [Engine.launched, exec_bind, show (r.note _).exec s = (.ok (), s₁) from hnote]
  dsimp only
  rw [exec_bind]
  rcases hfiles : (Engine.workspaceFiles workspace).exec s₁ with ⟨e | files, s₂⟩
  all_goals
    rw [hfiles] at hlisted
    have hunseen' : Unseen view s s₂ := hunseen.trans _ _ _ (.of_backstage hlisted)
  · exact .inl ⟨e, s₂, rfl, hunseen'.tells f⟩
  · let record : CommandRecord := ⟨Engine.runCommand engine words, files⟩
    refine .inr ⟨s₂.runCount + 1, { s₂ with
      runs := s₂.runs.tail, runCount := s₂.runCount + 1, commands := s₂.commands ++ [record] }, ?_,
      ⟨hunseen'.listener, hunseen'.view_eq⟩⟩
    rw [← hunseen'.runs]
    rfl

theorem engine_execute_says (path workspace : String) (words : List String)
    (duration : Option Binary64) (s : Studio σ) :
    Says view f duration [] s
      (((Engine.installed (some path)).execute workspace words duration r.advance r.note).exec s).1
      (((Engine.installed (some path)).execute workspace words duration r.advance r.note).exec s).2 := by
  rw [Engine.execute_eq, exec_bind]
  rcases launched_tells hr path workspace words s with
    ⟨e, s₁, hfailed, htells⟩ | ⟨number, s₁, hends, htells⟩
  · rw [hfailed]
    exact ⟨[], .unstarted e, htells⟩
  rw [show (Engine.launched path workspace words r.note).exec s = (.ok (_, number), s₁) from hends]
  dsimp only
  have hleft := Engine.respects_leaveProduct workspace (Engine.runCommand path words)
    (Engine.Product.bytes? number (s.runs.headD {}).product) s₁
  rw [exec_bind]
  rcases hproduct : (Engine.leaveProduct workspace (Engine.runCommand path words)
      (Engine.Product.bytes? number (s.runs.headD {}).product)).exec s₁ with ⟨e | ⟨⟩, s₂⟩
  all_goals
    rw [hproduct] at hleft
    have htells' := htells.trans ((Unseen.of_backstage hleft).tells f)
  · exact ⟨[], .unstarted e, htells'⟩
  · obtain ⟨values, hreports, hvalues⟩ := reported_tells hr (s.runs.headD {}) duration s₂
    exact ⟨values, hreports, htells'.trans hvalues⟩

/-! ### The whole run -/

section Says

omit hr

theorem exec_bind_eq {β : Type} (m : Session σ α) (g : α → Session σ β) (s : Studio σ) :
    (m >>= g).exec s = (lift (m.exec s).1 >>= g).exec (m.exec s).2 := by
  rw [exec_bind, exec_bind, exec_lift]

variable {duration : Option Binary64} {last : List Int} {outcome : Except Fault α}

theorem Says.unstarted (h : Unseen view s s') (e : Fault) :
    Says view f duration last s (.error e : Except Fault α) s' :=
  ⟨[], .unstarted e, h.tells f⟩

theorem Says.after (h : Says view f duration last s₁ outcome s') (hunseen : Unseen view s s₁) :
    Says view f duration last s outcome s' := by
  obtain ⟨values, hreports, htells⟩ := h
  rw [hunseen.runs] at hreports
  exact ⟨values, hreports, (hunseen.tells f).trans htells⟩

/-- What follows on what was said either fails or says the last things. -/
theorem Says.bind {β : Type} {g : α → Session σ β} (h : Says view f duration [] s outcome s₁)
    (hg : ∀ a, (∃ b s', Ends (g a) s₁ b s' ∧ Tells view f last s₁ s') ∨
      ∃ e s', (g a).exec s₁ = (.error e, s') ∧ Tells view f [] s₁ s') :
    Says view f duration last s ((lift outcome >>= g).exec s₁).1 ((lift outcome >>= g).exec s₁).2 := by
  obtain ⟨values, hreports, htells⟩ := h
  rw [exec_bind, exec_lift]
  cases outcome with
  | error e => exact ⟨values, hreports.of_error, htells⟩
  | ok a =>
    obtain ⟨hreadable, rfl⟩ := hreports.of_ok
    rw [List.append_nil] at htells
    dsimp only
    rcases hg a with ⟨b, s', hends, htells'⟩ | ⟨e, s', hfailed, htells'⟩
    · rw [show (g a).exec s₁ = (.ok b, s') from hends]
      exact ⟨_, .finished hreadable b, htells.trans htells'⟩
    · rw [hfailed]
      have hall := htells.trans htells'
      rw [List.append_nil] at hall
      exact ⟨_, .stopped hreadable e, hall⟩

end Says

theorem execute_says (path workspace : String) (p : Program Binary64) (payloads : Payloads)
    (s : Studio σ) : Says view f (some p.totalDuration) [] s
      ((r.execute (Engine.installed (some path)) workspace p payloads).exec s).1
      ((r.execute (Engine.installed (some path)) workspace p payloads).exec s).2 := by
  have hready := respects_ready_unseen hr path workspace p payloads s
  rw [execute_eq, exec_bind]
  rcases hexec : (r.ready (Engine.installed (some path)) workspace p payloads).exec s with
    ⟨e | ⟨p', words⟩, s₁⟩
  all_goals rw [hexec] at hready
  · exact .unstarted hready e
  obtain ⟨⟨indices, rfl⟩, -⟩ := ready_ends hexec
  have hduration : (indices.foldl Program.dropSound p).totalDuration = p.totalDuration := by
    rw [foldl_dropSound_rest]
  have hsays := engine_execute_says hr path workspace words (some p.totalDuration) s₁
  dsimp only
  rw [hduration, exec_bind_eq]
  refine Says.after (.bind hsays fun status => ?_) hready
  have hexecuted := respects_executed_unseen r view path workspace
    (indices.foldl Program.dropSound p) status
  specialize hexecuted (((Engine.installed (some path)).execute workspace words (some p.totalDuration)
    r.advance r.note).exec s₁).2
  rcases houtput : (r.executed (Engine.installed (some path)) workspace
    (indices.foldl Program.dropSound p) status).exec _ with ⟨e | output, s₃⟩
  all_goals rw [houtput] at hexecuted
  · exact .inr ⟨e, s₃, rfl, hexecuted.tells f⟩
  · exact .inl ⟨output, s₃, houtput, hexecuted.tells f⟩

theorem concluded_tells (output : ByteArray × String) (s : Studio σ) : ∃ result s',
    Ends (r.concluded output) s result s' ∧ Tells view f [100] s s' := by
  have hfull : Measure.progressOf (.ofInt 1) = 100 := by decide +kernel
  obtain ⟨s', hadvance, htells⟩ := advance_tells hr (.ofInt 1) s
  rw [hfull] at htells
  exact ⟨_, s', ends_bind.2 ⟨(), s', hadvance, ends_bind.2 ⟨_, s', ends_driver.2 ⟨rfl, rfl⟩,
    ends_pure.2 ⟨rfl, rfl⟩⟩⟩, htells⟩

theorem started_says (p : Program Binary64) (payloads : Payloads) (s : Studio σ) :
    Says view f (some p.totalDuration) [100] s ((r.started p payloads).exec s).1
      ((r.started p payloads).exec s).2 := by
  have hopening := respects_opened_unseen hr p s
  rcases hopened : (r.opened p).exec s with ⟨e | ⟨engine, workspace⟩, s₁⟩
  all_goals rw [hopened] at hopening
  · rw [started, exec_bind, hopened]
    exact .unstarted hopening e
  obtain ⟨path, rfl⟩ := opened_installed hr hopened
  have hsays := execute_says hr path workspace p payloads s₁
  rcases hexec : (r.execute (Engine.installed (some path)) workspace p payloads).exec s₁ with
    ⟨outcome, s₂⟩
  rw [hexec] at hsays
  obtain ⟨s₃, hclosed⟩ :=
    closed_ends (r := r) (Engine.installed_isDiscreet (some path)) s₂
  have hunseen := (respects_closed_unseen r view path workspace).ends hclosed
  rw [exec_started hopened (by rw [hexec]; exact hclosed), hexec]
  have hsaid : Says view f (some p.totalDuration) [] s outcome s₃ := by
    obtain ⟨values, hreports, htells⟩ := hsays.after hopening
    have hall := htells.trans (hunseen.tells f)
    rw [List.append_nil] at hall
    exact ⟨values, hreports, hall⟩
  exact hsaid.bind fun output => .inl (concluded_tells hr output s₃)

/-- A run tells its listener the percentages in the lines of the next run of the engine, and 100 when it
succeeds. -/
theorem run_says (p : Program Binary64) (payloads : Payloads) {outcome : Except Fault RenderResult}
    (h : (r.run p payloads).exec s = (outcome, s')) :
    Says view f (some p.totalDuration) [100] s outcome s' := by
  have hrefused (e : Fault) (pool : DriverPool) :
      Says view f (some p.totalDuration) [100] s (.error e : Except Fault RenderResult)
        { s with pool } := ⟨[], .unstarted e, rfl, rfl⟩
  by_cases hfree : s.pool.holder = none
  · by_cases hcomplete : missing p payloads = []
    · obtain ⟨values, hreports, htells⟩ := started_says hr p payloads (s.begun r.id p)
      rw [exec_run_of_complete hfree hcomplete] at h
      obtain ⟨rfl, rfl⟩ := Prod.mk.inj h
      exact ⟨values, hreports, htells.listener, htells.view_eq⟩
    · rw [exec_run_of_missing hfree hcomplete] at h
      obtain ⟨rfl, rfl⟩ := Prod.mk.inj h
      exact hrefused _ _
  · rw [exec_run_of_held r p payloads hfree] at h
    obtain ⟨rfl, rfl⟩ := Prod.mk.inj h
    exact hrefused _ s.pool

end Watched

end Renderer

end Montage
