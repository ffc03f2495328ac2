import Mathlib.Algebra.BigOperators.Group.List.Basic
import Montage.Command.Export
import Montage.Proofs.Render.Told

/-!
# The bar of an export

The bar of the command that exports shows the largest of the percentages that the driver has reported until
then, so that it never moves back and never leaves its scale, and is full when the run has succeeded
(`Command.progress_isHarmless`).
-/

namespace Montage

open Montage.Graph Session Studio

namespace Command

/-! ### Bars -/

/-- How far a bar is, and by how much it has been moved each time. -/
structure BarState where
  position : Int
  amounts : List Int

def BarEvent.amount? : BarEvent → Option Int
  | .update amount => some amount
  | .close => none

def Screen.barState (s : Screen) : BarState := ⟨s.position, s.bar.filterMap (·.amount?)⟩

namespace BarState

/-- The bar after a percentage is reported. -/
def hear (percent : Int) (b : BarState) : BarState :=
  if b.position < percent then ⟨percent, b.amounts ++ [percent - b.position]⟩ else b

/-- A bar that was moved on, or not at all, and stays on its scale. -/
structure IsAhead (b b' : BarState) : Prop where
  moved : ∃ more, b'.amounts = b.amounts ++ more ∧ (∀ amount ∈ more, 0 < amount) ∧
    b'.position = b.position + more.sum
  below : b.position ≤ 100 → b'.position ≤ 100

theorem IsAhead.refl (b : BarState) : b.IsAhead b :=
  ⟨⟨[], (List.append_nil _).symm, nofun, (Int.add_zero _).symm⟩, id⟩

theorem IsAhead.trans {b b₁ b' : BarState} (h : b.IsAhead b₁) (h' : b₁.IsAhead b') : b.IsAhead b' := by
  obtain ⟨more, hmore, hpos, hsum⟩ := h.moved
  obtain ⟨more', hmore', hpos', hsum'⟩ := h'.moved
  refine ⟨⟨more ++ more', ?_, List.forall_mem_append.2 ⟨hpos, hpos'⟩, ?_⟩, h'.below ∘ h.below⟩
  · rw [hmore', hmore, List.append_assoc]
  · rw [hsum', hsum, List.sum_append]
    omega

theorem hear_isAhead {percent : Int} (h : percent ≤ 100) (b : BarState) : b.IsAhead (b.hear percent) := by
  unfold hear
  split
  · refine ⟨⟨[percent - b.position], rfl, ?_, ?_⟩, fun _ => h⟩
    · rw [List.forall_mem_singleton]
      omega
    · rw [List.sum_singleton]
      dsimp only
      omega
  · exact .refl b

theorem hear_position (percent : Int) (b : BarState) :
    (b.hear percent).position = max b.position percent := by
  unfold hear
  split
  · rename_i hlt
    exact (Int.max_eq_right hlt.le).symm
  · rename_i hnot
    exact (Int.max_eq_left (not_lt.1 hnot)).symm

theorem told_isAhead {values : List Int} (h : ∀ n ∈ values, n ≤ 100) (b : BarState) :
    b.IsAhead (told hear values b) := by
  induction values generalizing b with
  | nil => exact .refl b
  | cons percent values ih =>
    obtain ⟨hfirst, hrest⟩ := List.forall_mem_cons.1 h
    exact (hear_isAhead hfirst b).trans (ih hrest _)

theorem told_position (values : List Int) (b : BarState) :
    (told hear values b).position = values.foldl max b.position := by
  induction values generalizing b with
  | nil => rfl
  | cons percent values ih =>
    rw [List.foldl_cons, ← hear_position]
    exact ih _

theorem max_foldl_max {values : List Int} {limit : Int} (h : ∀ n ∈ values, n ≤ limit) (position : Int) :
    max (values.foldl max position) limit = max position limit := by
  induction values generalizing position with
  | nil => rfl
  | cons percent values ih =>
    obtain ⟨hfirst, hrest⟩ := List.forall_mem_cons.1 h
    rw [List.foldl_cons, ih hrest, max_assoc, max_eq_right hfirst]

/-- A bar that hears of everything in the end is full, if it was not further on already. -/
theorem told_full {values : List Int} (h : ∀ n ∈ values, n ≤ 100) (b : BarState) :
    (told hear (values ++ [100]) b).position = max b.position 100 := by
  have hlast : told hear (values ++ [100]) b = (told hear values b).hear 100 := by
    rw [told, List.foldl_append]
    rfl
  rw [hlast, hear_position, told_position, max_foldl_max h]

/-- At every moment a bar is at the largest of the percentages that came until then, and it only moves on. -/
structure Follows (b : BarState) (values : List Int) : Prop where
  position_eq : ∀ received, received <+: values →
    (told hear received b).position = received.foldl max b.position
  isAhead : ∀ received more, received ++ more <+: values →
    (told hear received b).IsAhead (told hear (received ++ more) b)

theorem follows {values : List Int} (h : ∀ n ∈ values, n ≤ 100) (b : BarState) : b.Follows values where
  position_eq received _ := told_position received b
  isAhead received more hbegins := by
    rw [told, told, List.foldl_append]
    refine told_isAhead (fun n hn => h n (hbegins.subset ?_)) _
    exact List.mem_append_right received hn

end BarState

theorem Screen.barState_moveTo (percent : Int) (s : Screen) :
    (s.moveTo percent).barState = s.barState.hear percent := by
  unfold Screen.moveTo BarState.hear
  have hposition : s.barState.position = s.position := rfl
  rw [hposition]
  split
  · rw [Screen.barState, List.filterMap_append]
    rfl
  · rfl

theorem barState_close (s : Screen) : s.close.barState = s.barState := by
  rw [Screen.barState, Screen.close, List.filterMap_append]
  exact congrArg (BarState.mk _) (List.append_nil _)

/-! ### The parts of an export -/

/-- Unless the program in front listens itself, nothing is seen of what happens. -/
def Unheard (s s' : Studio Screen) : Prop :=
  (∀ hear, s.listener ≠ .front hear) → Renderer.Unseen Screen.barState s s'

namespace Unheard

theorem of_unseen {s s' : Studio Screen} (h : Renderer.Unseen Screen.barState s s') : Unheard s s' :=
  fun _ => h

theorem refl (s : Studio Screen) : Unheard s s := of_unseen (.refl s)

theorem trans (s₁ s₂ s₃ : Studio Screen) (h : Unheard s₁ s₂) (h' : Unheard s₂ s₃) : Unheard s₁ s₃ := by
  intro hquiet
  have hfirst := h hquiet
  exact Renderer.Unseen.trans _ _ _ hfirst (h' (by rwa [hfirst.listener]))

theorem respects {α : Type} {m : Session Screen α} (h : Respects Backstage m) : Respects Unheard m :=
  h.mono fun _ _ h => of_unseen (.of_backstage h)

theorem present {f : Screen → Screen} (h : ∀ s, (f s).barState = s.barState) :
    Respects Unheard (Session.present f) :=
  respects_modify fun s => of_unseen ⟨rfl, rfl, h s.front⟩

theorem say (message : String) : Respects Unheard (Session.say message) :=
  say_respects refl trans (fun _ _ => of_unseen ⟨rfl, rfl, rfl⟩)
    (fun _ hear hlistener hquiet => absurd hlistener (hquiet hear)) fun _ _ => of_unseen ⟨rfl, rfl, rfl⟩

theorem showLine (text : String) (style : Option String) :
    Respects Unheard (Command.showLine text style) :=
  present fun _ => rfl

theorem closeBar : Respects Unheard Command.closeBar := present barState_close

theorem lift {α : Type} (r : Except Fault α) : Respects Unheard (Session.lift r) :=
  respects_lift refl r

theorem readDocument (path : String) : Respects Unheard (Session.readDocument path) := by
  have hchecked (v : Value) : Respects Unheard
      (if v.isMapping then pure v else throw (.rejected .topLevel) : Session Screen Value) := by
    split
    · exact respects_pure refl v
    · exact respects_throw refl _
  refine respects_bind trans (respects (respects_readFile path)) fun data => ?_
  refine respects_bind trans (respects_site refl) fun site => ?_
  split
  · exact respects_bind trans (respects_throw refl _) fun _ =>
      respects_bind trans (lift _) hchecked
  · exact respects_bind trans (lift _) hchecked

theorem load (file : String) (options : ExportOptions) (onProgress : Int → Session Screen Unit)
    (onLine : String → Session Screen Unit) :
    Respects Unheard (ExportJob.load file options onProgress onLine) := by
  have hroot (root : Option String) (timeout : Value) (directories : List String) :
      Respects Unheard (Resolver.ofRoot root timeout directories) := by
    cases root with
    | none => exact respects_pure refl _
    | some root =>
      refine respects_bind trans (respects_tree refl) fun tree => ?_
      refine respects_bind trans (respects_site refl) fun site => ?_
      exact respects_bind trans (lift _) fun _ => respects_pure refl _
  refine respects_bind trans ?_ fun request => ?_
  · refine respects_bind trans (readDocument file) fun data => ?_
    exact respects_bind trans (respects_site refl) fun _ => lift _
  · exact respects_bind trans (hroot _ _ _) fun _ => respects_pure refl _

theorem supplyFonts (resolver : Resolver) (fonts : List String) (given : Supplied) :
    Respects Unheard (Montage.supplyFonts resolver fonts given) := by
  induction fonts generalizing given with
  | nil => exact respects_pure refl given
  | cons font rest ih =>
    refine respects_bind trans (font?_respects refl trans say resolver font) fun found => ?_
    cases found <;> exact ih _

theorem prepareExport (compiler : Compiler) (t : Timeline) (quality : Value) (resolver : Resolver) :
    Respects Unheard (Montage.prepareExport compiler t quality resolver) := by
  refine respects_bind trans ?_ fun assets => ?_
  · exact resolveAll_respects refl trans
      (fun _ => respects_modify fun s => of_unseen ⟨rfl, rfl, rfl⟩) say _
  refine respects_bind trans (lift _) fun p => ?_
  exact respects_bind trans (say _) fun _ => supplyFonts resolver _ _

theorem writeOutput (file : String) (data : ByteArray) :
    Respects Unheard (ExportJob.writeOutput file data) := by
  refine respects_bind trans (respects_site refl) fun site => ?_
  refine respects_bind trans ?_ fun _ => ?_
  · refine respects_bind trans (fun s => refl s) fun held => ?_
    split
    · exact respects (respects_makeDirectories _)
    · exact respects_pure refl ()
  exact respects_bind trans (respects (respects_writeFile file data)) fun _ => say _

end Unheard

/-! ### The whole export -/

/-- A driver whose reports move the bar of the screen, and nothing else that it shows does. -/
def MovesBar (r : Renderer Screen) : Prop :=
  ∃ binary, r.ShowsProgress binary Screen.barState BarState.hear

theorem load_movesBar {file : String} {options : ExportOptions} {verbose : Bool}
    {job : ExportJob Screen} {s s' : Studio Screen}
    (h : Ends (ExportJob.load file options (fun percent => present (·.moveTo percent))
      (fun line => if verbose then showLine line dimStyle else pure ())) s job s') :
    MovesBar job.renderer := by
  obtain ⟨request, s₁, -, h⟩ := ends_bind.1 h
  obtain ⟨resolver, s₂, -, h⟩ := ends_bind.1 h
  obtain ⟨rfl, -⟩ := ends_pure.1 h
  refine ⟨request.engine, rfl, fun percent s => ?_, fun line s => ?_⟩
  · exact ⟨_, ends_modify.2 rfl, rfl, s.front.barState_moveTo percent⟩
  · dsimp only
    split
    · exact ⟨_, ends_modify.2 rfl, rfl, rfl, rfl⟩
    · exact ⟨s, ends_pure.2 ⟨rfl, rfl⟩, rfl, rfl, rfl⟩

/-- The job of a command, whose reports move the bar. -/
def loadJob (a : ExportArguments) (file : String) : Session Screen (ExportJob Screen) :=
  ExportJob.load file a.options (fun percent => present (·.moveTo percent))
    (fun line => if a.verbose then showLine line dimStyle else pure ())

/-- A command comes to the run of a program on the engine: it is asked for more than to compile, and its
request can be loaded and prepared. -/
structure Reaches (a : ExportArguments) (s : Studio Screen) (job : ExportJob Screen) (x : Supplied)
    (s₁ : Studio Screen) : Prop where
  exports : a.dumpPlan = false ∧ job.request.options.dryRun = false
  prepared : ∃ file s₀, a.file = some file ∧ Ends (loadJob a file) s job s₀ ∧
    Ends (prepareExport job.compiler job.request.timeline job.request.quality job.resolver) s₀ x s₁

/-- What an export does to its bar: it hears the reports of one run of the engine that ended like this. -/
def HearsRun (duration : Option Binary64) (rendered : Except Fault RenderResult) (s s' : Studio Screen) :
    Prop :=
  (∀ hear, s.listener ≠ .front hear) →
    Renderer.Says Screen.barState BarState.hear duration [100] s rendered s'

namespace HearsRun

variable {duration : Option Binary64} {rendered : Except Fault RenderResult} {s s₁ s' : Studio Screen}

theorem after (h : Unheard s s₁) (h' : HearsRun duration rendered s₁ s') :
    HearsRun duration rendered s s' := by
  intro hquiet
  have hunseen := h hquiet
  exact (h' (by rwa [hunseen.listener])).after hunseen

theorem before (h : HearsRun duration rendered s s₁) (h' : Unheard s₁ s') :
    HearsRun duration rendered s s' := by
  intro hquiet
  obtain ⟨values, hreports, htells⟩ := h hquiet
  have hunseen := h' (by rwa [htells.listener])
  have hall := htells.trans (hunseen.tells BarState.hear)
  rw [List.append_nil] at hall
  exact ⟨values, hreports, hall⟩

theorem run {r : Renderer Screen} (hr : MovesBar r) (p : Program Binary64) (payloads : Payloads)
    (s : Studio Screen) : HearsRun (some p.totalDuration) ((r.run p payloads).exec s).1 s
      ((r.run p payloads).exec s).2 := by
  intro _
  obtain ⟨binary, hshows⟩ := hr
  exact Renderer.run_says hshows p payloads rfl

end HearsRun

section Parts

variable {α β : Type} {m : Session Screen α} {g : α → Session Screen β} {s s₁ : Studio Screen} {a : α}
  {R : Studio Screen → Studio Screen → Prop}

theorem exec_bind_of_ends (h : Ends m s a s₁) : (m >>= g).exec s = (g a).exec s₁ := by
  rw [exec_bind, show m.exec s = (.ok a, s₁) from h]

theorem exec_bind_of_error {e : Fault} (h : m.exec s = (.error e, s₁)) :
    (m >>= g).exec s = (.error e, s₁) := by
  rw [exec_bind, h]

/-- What follows on a session unheard does not matter to what was heard of it. -/
theorem bind_unheard (h : R s (m.exec s).2) (hg : ∀ a, Respects Unheard (g a))
    (hbefore : ∀ s₁ s', R s s₁ → Unheard s₁ s' → R s s') : R s ((m >>= g).exec s).2 := by
  rw [exec_bind]
  rcases hexec : m.exec s with ⟨e | a, s₁⟩
  all_goals rw [hexec] at h
  · exact h
  · exact hbefore _ _ h (hg a s₁)

end Parts

section Job

variable {job : ExportJob Screen} {x : Supplied} {s s₁ : Studio Screen}

theorem unheard_dryRun (job : ExportJob Screen) : Respects Unheard job.dryRun := by
  refine respects_bind Unheard.trans (Unheard.lift _) fun p => ?_
  refine respects_bind Unheard.trans ?_ fun _ => Unheard.say _
  exact respects_forM Unheard.refl Unheard.trans (fun _ => Unheard.say _) _

theorem unheard_printPlan (job : ExportJob Screen) : Respects Unheard (printPlan job) := by
  refine respects_bind Unheard.trans Unheard.closeBar fun _ => ?_
  refine respects_bind Unheard.trans (Unheard.lift _) fun plan => ?_
  exact respects_bind Unheard.trans (Unheard.present fun _ => rfl) fun _ => respects_pure Unheard.refl _

/-- How a run of a job ended is shown, which is not heard. -/
theorem runExport_of_run {R : Studio Screen → Studio Screen → Prop} (h : R s (job.run.exec s).2)
    (hbefore : ∀ s₁ s', R s s₁ → Unheard s₁ s' → R s s') : R s ((runExport job).exec s).2 := by
  refine bind_unheard (m := attempt job.run) h (fun outcome => ?_) hbefore
  have hfail (problem : String) : Respects Unheard (fail problem) :=
    respects_bind Unheard.trans Unheard.closeBar fun _ =>
      respects_bind Unheard.trans (Unheard.showLine _ _) fun _ => respects_pure Unheard.refl _
  split
  · exact hfail _
  · refine respects_bind Unheard.trans Unheard.closeBar fun _ => ?_
    refine respects_bind Unheard.trans (Unheard.showLine _ _) fun _ => ?_
    exact respects_bind Unheard.trans (Unheard.showLine _ _) fun _ => respects_pure Unheard.refl _
  · exact respects_throw Unheard.refl _
  · refine respects_bind Unheard.trans Unheard.closeBar fun _ => ?_
    split
    · exact respects_bind Unheard.trans (Unheard.say _) fun _ => respects_pure Unheard.refl _
    · exact respects_pure Unheard.refl _

theorem run_eq (hdry : job.request.options.dryRun = false) : job.run = (do
    let result ← exportTimeline job.compiler job.request.timeline job.request.quality job.resolver
      job.renderer
    ExportJob.writeOutput job.request.outputFile result.output
    return some result) := by
  rw [ExportJob.run, hdry, if_neg Bool.false_ne_true]

/-- A job that comes to a run of the engine is heard of as far as that run is. -/
theorem run_hears (hr : MovesBar job.renderer) (hdry : job.request.options.dryRun = false)
    (hprepared : Ends (prepareExport job.compiler job.request.timeline job.request.quality job.resolver)
      s x s₁) : HearsRun (some x.program.totalDuration)
        ((job.renderer.run x.program x.payloads).exec s₁).1 s (job.run.exec s).2 := by
  rw [run_eq hdry]
  refine bind_unheard ?_ (fun result => ?_) fun _ _ => HearsRun.before
  · rw [exportTimeline, exec_bind_of_ends hprepared]
    exact .after ((Unheard.prepareExport _ _ _ _).ends hprepared) (.run hr _ _ s₁)
  · exact respects_bind Unheard.trans (Unheard.writeOutput _ _) fun _ => respects_pure Unheard.refl _

/-- A job that does not come to a run of the engine is not heard of. -/
theorem run_unheard (h : job.request.options.dryRun = false → ∃ e s₁,
    (prepareExport job.compiler job.request.timeline job.request.quality job.resolver).exec s =
      (.error e, s₁)) : Unheard s (job.run.exec s).2 := by
  cases hdry : job.request.options.dryRun with
  | true =>
    rw [ExportJob.run, hdry, if_pos rfl]
    exact respects_bind Unheard.trans (unheard_dryRun job) (fun _ => respects_pure Unheard.refl _) s
  | false =>
    obtain ⟨e, s₁, hfailed⟩ := h hdry
    have hunheard := Unheard.prepareExport job.compiler job.request.timeline job.request.quality
      job.resolver s
    rw [hfailed] at hunheard
    have htimeline : (exportTimeline job.compiler job.request.timeline job.request.quality job.resolver
        job.renderer).exec s = (.error e, s₁) := exec_bind_of_error hfailed
    rw [run_eq hdry, exec_bind_of_error htimeline]
    exact hunheard

end Job

section Command

variable {a : ExportArguments} {job : ExportJob Screen} {x : Supplied} {s s₁ : Studio Screen}

theorem exportFile_eq {file : String} (hfile : a.file = some file) : exportFile a = (do
    let job ← loadJob a file
    if a.dumpPlan then printPlan job else runExport job) := by
  rw [exportFile, hfile]
  rfl

theorem exportFile_hears (h : Reaches a s job x s₁) : HearsRun (some x.program.totalDuration)
    ((job.renderer.run x.program x.payloads).exec s₁).1 s ((exportFile a).exec s).2 := by
  obtain ⟨⟨hdump, hdry⟩, file, s₀, hfile, hload, hprepared⟩ := h
  rw [exportFile_eq hfile, exec_bind_of_ends hload, hdump, if_neg Bool.false_ne_true]
  refine .after ((Unheard.load _ _ _ _).ends hload) ?_
  exact runExport_of_run (run_hears (load_movesBar hload) hdry hprepared) fun _ _ => HearsRun.before

theorem exportFile_unheard (h : ∀ job x s₁, ¬ Reaches a s job x s₁) :
    Unheard s ((exportFile a).exec s).2 := by
  cases hfile : a.file with
  | none =>
    rw [exportFile, hfile]
    exact respects_throw Unheard.refl _ s
  | some file =>
    have hloading := Unheard.load file a.options (fun percent => present (·.moveTo percent))
      (fun line => if a.verbose then showLine line dimStyle else pure ()) s
    rw [exportFile_eq hfile]
    rcases hload : (loadJob a file).exec s with ⟨e | job, s₀⟩
    all_goals rw [show (ExportJob.load file a.options _ _).exec s = _ from hload] at hloading
    · rw [exec_bind_of_error hload]
      exact hloading
    rw [exec_bind_of_ends hload]
    refine Unheard.trans _ _ _ hloading ?_
    cases hdump : a.dumpPlan with
    | true =>
      rw [if_pos rfl]
      exact unheard_printPlan job s₀
    | false =>
      rw [if_neg Bool.false_ne_true]
      refine runExport_of_run (run_unheard fun hdry => ?_) (Unheard.trans s₀)
      rcases hprepare : (prepareExport job.compiler job.request.timeline job.request.quality
        job.resolver).exec s₀ with ⟨e | x, s₁⟩
      · exact ⟨e, s₁, rfl⟩
      · exact absurd ⟨⟨hdump, hdry⟩, file, s₀, hfile, hload, hprepare⟩ (h job x s₁)

end Command

/-! ### Lines of the engine -/

/-- What the lines that the engine prints can do. -/
structure IsHarmless (duration : Option Binary64) : Prop where
  /-- A run of the engine ends as it would without them, unless the time in one of them is too large. -/
  executes : ∀ {σ : Type} (engine workspace : String) (words : List String)
    (onFraction : Binary64 → Session σ Unit) (onLine : String → Session σ Unit) (s : Studio σ),
    (∀ x s, ∃ s', Ends (onFraction x) s () s') → (∀ line s, ∃ s', Ends (onLine line) s () s') →
    (((Engine.installed (some engine)).execute workspace words duration onFraction onLine).exec s).1 =
      ((Engine.performed engine workspace words onLine).exec s).1 >>= (Engine.statusOf · duration)
  /-- What is reported for a line does not fall while its time rises. -/
  mono : ∀ {line line' : String} {i j : Int} {x y : Binary64},
    Engine.microseconds? line = some i → Engine.microseconds? line' = some j → i ≤ j →
    Engine.fraction? line duration = .ok (some x) → Engine.fraction? line' duration = .ok (some y) →
    Measure.progressOf x ≤ Measure.progressOf y
  /-- A run of a driver tells its listeners the percentages in the lines, and 100 when it succeeds. -/
  tells : ∀ {σ τ : Type} {r : Renderer σ} {binary : Value} {view : σ → τ} {f : Int → τ → τ}
    {p : Program Binary64} {payloads : Payloads} {s s' : Studio σ} {outcome : Except Fault RenderResult},
    r.ShowsProgress binary view f → duration = some p.totalDuration →
    (r.run p payloads).exec s = (outcome, s') → ∃ values,
      Engine.Reports (s.runs.headD {}).progress duration [100] outcome values ∧
      (∀ n ∈ values, 0 ≤ n ∧ n ≤ 100) ∧ (outcome.isOk = true → values.getLast? = some 100) ∧
      view s'.front = told f values (view s.front)
  /-- A report puts the bar of the command that exports at the larger of its position and the
  percentage. -/
  steps : ∀ {percent : Int} {s s' : Studio Screen}, Ends (present (·.moveTo percent)) s () s' →
    s'.front.position = max s.front.position percent
  /-- The command moves its bar by what its run of the driver reports, each time in this way, and a run
  that succeeds fills it. -/
  moves : ∀ {a : ExportArguments} {s s₁ s' : Studio Screen} {outcome : Except Fault Nat}
    {job : ExportJob Screen} {x : Supplied} {rendered : Except Fault RenderResult},
    (∀ hear, s.listener ≠ .front hear) → (exportFile a).exec s = (outcome, s') → Reaches a s job x s₁ →
    ((job.renderer.run x.program x.payloads).exec s₁).1 = rendered →
    duration = some x.program.totalDuration → ∃ values,
      Engine.Reports (s.runs.headD {}).progress duration [100] rendered values ∧
      s'.front.barState = told BarState.hear values s.front.barState ∧
      s.front.barState.Follows values ∧
      (rendered.isOk = true → s'.front.position = max s.front.position 100)
  /-- It does not move its bar otherwise. -/
  rests : ∀ {a : ExportArguments} {s s' : Studio Screen} {outcome : Except Fault Nat},
    (∀ hear, s.listener ≠ .front hear) → (exportFile a).exec s = (outcome, s') →
    (∀ job x s₁, ¬ Reaches a s job x s₁) → s'.front.barState = s.front.barState

/-- Whatever the engine prints is harmless, but for times that are too large. -/
theorem progress_isHarmless (duration : Option Binary64) : IsHarmless duration where
  executes engine workspace words _ _ s hfraction hline :=
    Engine.execute_outcome hfraction hline engine workspace words s
  mono := Engine.progressOf_mono_line
  tells := by
    intro σ τ r binary view f p payloads s s' outcome hr hduration hrun
    rw [hduration]
    obtain ⟨values, hreports, htells⟩ := Renderer.run_says hr p payloads hrun
    refine ⟨values, hreports, hreports.mem (by decide), fun hok => ?_, htells.view_eq⟩
    obtain ⟨result, rfl⟩ := Outcome.isOk_iff.1 hok
    obtain ⟨-, rfl⟩ := hreports.of_ok
    exact List.getLast?_concat
  steps := by
    intro percent s s' hends
    have hposition := congrArg BarState.position (s.front.barState_moveTo percent)
    rw [BarState.hear_position] at hposition
    rw [ends_modify.1 hends]
    exact hposition
  moves := by
    intro a s s₁ s' outcome job x rendered hquiet hexport hreaches hrendered hduration
    obtain ⟨values, hreports, htells⟩ := exportFile_hears hreaches hquiet
    rw [hexport] at htells
    rw [hrendered, ← hduration] at hreports
    have hmem := hreports.mem (by decide)
    refine ⟨values, hreports, htells.view_eq, BarState.follows (fun n hn => (hmem n hn).2) _, ?_⟩
    intro hok
    obtain ⟨result, rfl⟩ := Outcome.isOk_iff.1 hok
    obtain ⟨-, rfl⟩ := hreports.of_ok
    have hposition := congrArg BarState.position htells.view_eq
    rw [BarState.told_full fun n hn => (hmem n (List.mem_append_left _ hn)).2] at hposition
    exact hposition
  rests := by
    intro a s s' outcome hquiet hexport hnone
    have hunseen := exportFile_unheard hnone hquiet
    rw [hexport] at hunseen
    exact hunseen.view_eq

example : Engine.percents ["out_time_us=1000000", "out_time_ms=2525000", "frame=7", "progress=end"]
    (some (.ofInt 5)) = [20, 51, 100] := by
  decide +kernel

/-- A request without any clips, which takes five seconds. -/
def blankRequest : Value :=
  .record [("clipgraph", .int 1), ("output", .record [("file", "out.mp4")]),
    ("timeline", .record [("tracks", .list [])])]

/-- A studio with that request, in which the next run of the engine goes back in time. -/
def blankStudio : Studio Screen where
  site := { directory := "/proj", readDocument := fun _ => .ok blankRequest }
  tree := ⟨[(["proj"], .directory), (["proj", "blank.yaml"], .file .empty), (["tmp"], .directory)]⟩
  runs := [{ progress := ["out_time_us=500000", "out_time_us=250000", "progress=end"] }]
  front := {}

example : ((exportFile { file := some "blank.yaml" }).exec blankStudio).2.front.bar =
    [.update 10, .update 90, .close] := by
  decide +kernel

/-! ### A time that is too large -/

def longLine : String := "out_time_us=1" ++ .ofList (List.replicate 400 '0')

theorem microseconds_longLine : Engine.microseconds? longLine = some (10 ^ 400) := by
  have hlist : longLine.toList = "out_time_us=1".toList ++ List.replicate 400 '0' := by
    rw [longLine, String.toList_append]
    exact congrArg _ String.toList_ofList
  have hbreak : Text.breakOn '=' (Text.trimBlank ("out_time_us=1".toList ++ List.replicate 400 '0')) =
      ("out_time_us".toList, some ('1' :: List.replicate 400 '0')) := by
    decide +kernel
  have hvalue : Engine.keyValue longLine = ("out_time_us", .ofList ('1' :: List.replicate 400 '0')) := by
    rw [Engine.keyValue, hlist, hbreak]
    dsimp only
    rw [String.ofList_toList]
    rfl
  rw [Engine.microseconds?, hvalue]
  dsimp only
  rw [if_pos (by decide), Text.readInt?, Text.literal?, String.toList_ofList]
  decide +kernel

theorem isReadable_longLine : Engine.isReadable longLine (some (.ofInt 5)) = false := by
  have hlarge : (Binary64.ofInt (10 ^ 400)).isFinite = false := by decide +kernel
  have hpos : (Binary64.ofInt 5).le .zero = false := by decide +kernel
  rw [Engine.isReadable, Engine.isEnd_of_microseconds microseconds_longLine, Option.all_some, hpos,
    microseconds_longLine, Option.all_some, hlarge]
  rfl

/-- A studio with a workspace in which the next run of the engine prints a time of 401 digits. -/
def longStudio : Studio Unit where
  tree := FileTree.plantDirectory {} ["work"]
  runs := [{ progress := ["out_time_us=1000000", longLine, "progress=end"] }]
  front := ()

theorem longStudio_not_executes : ¬ ∀ (engine workspace : String) (words : List String)
    (duration : Option Binary64) (s : Studio Unit) (run : EngineRun) (s' : Studio Unit),
    Ends (Engine.performed engine workspace words fun _ => pure ()) s run s' →
    (((Engine.installed (some engine)).execute workspace words duration (fun _ => pure ())
      fun _ => pure ()).exec s).1 = .ok run.status := by
  intro h
  obtain ⟨run, s', hperformed⟩ := exists_ends (m := Engine.performed "/usr/bin/ffmpeg" "/work" ["o"]
    fun _ => pure ()) (s := longStudio) (by decide +kernel)
  have hrun := Engine.performed_ends (fun _ => respects_pure AtRest.refl ()) hperformed
  have hends (s : Studio Unit) : ∃ s', Ends (pure () : Session Unit Unit) s () s' :=
    ⟨s, ends_pure.2 ⟨rfl, rfl⟩⟩
  have houtcome := @Engine.execute_outcome Unit (some (.ofInt 5)) (fun _ => pure ()) (fun _ => pure ())
    (fun _ => hends) (fun _ => hends) "/usr/bin/ffmpeg" "/work" ["o"] longStudio
  rw [h _ _ _ _ _ run s' hperformed, show Session.exec _ longStudio = (.ok run, s') from hperformed]
    at houtcome
  have hunreadable : run.progress.all (Engine.isReadable · (some (.ofInt 5))) = false := by
    rw [hrun]
    exact List.all_eq_false.2 ⟨longLine, .tail _ (.head _), Bool.eq_false_iff.1 isReadable_longLine⟩
  have hstatus : Engine.statusOf run (some (.ofInt 5)) = .error (.misuse .range) :=
    if_neg (by simp [hunreadable])
  cases houtcome.trans hstatus

end Command

end Montage
