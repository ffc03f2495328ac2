import Montage.Proofs.Engine.Confined
import Montage.Proofs.Files.Folders

/-!
# An engine with room to work

In a workspace that has room for its files the engine does all that is asked of it, as long as the times
that its next run reports can be read: files are written, and the run ends with the status that it has.
-/

namespace Montage

open Session Studio FileTree Montage.Path

variable {σ : Type} {s s' : Studio σ} {base : FileTree} {workspace name : String}
  {place files words : List String}

/-- The world is at rest, and so is the engine. -/
structure Studio.Idles (s s' : Studio σ) : Prop extends s.AtRest s' where
  engine : s'.engine = s.engine
  versions : s'.versions = s.versions

theorem Studio.Idles.refl (s : Studio σ) : s.Idles s := ⟨AtRest.refl s, rfl, rfl⟩

theorem Studio.Idles.trans {s₁ s₂ s₃ : Studio σ} (h : s₁.Idles s₂) (h' : s₂.Idles s₃) : s₁.Idles s₃ :=
  ⟨AtRest.trans _ _ _ h.toAtRest h'.toAtRest, h'.engine.trans h.engine, h'.versions.trans h.versions⟩

namespace Session

/-- Whether a session only ever idles, and then ends. -/
def IsIdle (m : Session σ Unit) : Prop := ∀ s, ∃ s', Ends m s () s' ∧ s.Idles s'

namespace IsIdle

variable {m : Session σ Unit}

theorem respects (h : IsIdle m) : Respects AtRest m := by
  intro s
  obtain ⟨s', hends, hidle⟩ := h s
  rw [show m.exec s = (.ok (), s') from hends]
  exact hidle.toAtRest

theorem pure : IsIdle (Pure.pure () : Session σ Unit) :=
  fun s => ⟨s, ends_pure.2 ⟨rfl, rfl⟩, Idles.refl s⟩

theorem changePool (f : DriverPool → DriverPool) : IsIdle (Session.changePool f : Session σ Unit) :=
  fun _ => ⟨_, ends_modify.2 rfl, ⟨rfl, rfl, rfl, rfl, rfl⟩, rfl, rfl⟩

/-- What comes after a session that idles begins where the world is still at rest. -/
theorem exists_ends_bind {α : Type} {f : Unit → Session σ α} {a : α} (h : IsIdle m)
    (hf : ∀ s, ∃ s', Ends (f ()) s a s' ∧ s.Idles s') (s : Studio σ) :
    ∃ s', Ends (m >>= f) s a s' ∧ s.Idles s' := by
  obtain ⟨s₁, hfirst, hidle⟩ := h s
  obtain ⟨s', hrest, hidle'⟩ := hf s₁
  exact ⟨s', ends_bind.2 ⟨(), s₁, hfirst, hrest⟩, hidle.trans hidle'⟩

theorem bind {f : Unit → Session σ Unit} (h : IsIdle m) (hf : IsIdle (f ())) : IsIdle (m >>= f) :=
  h.exists_ends_bind hf

theorem lift_bind {α : Type} {r : Except Fault α} {f : α → Session σ Unit} (hr : r.isOk = true)
    (hf : ∀ a, IsIdle (f a)) : IsIdle (Session.lift r >>= f) := by
  obtain ⟨a, rfl⟩ := Outcome.isOk_iff.1 hr
  exact hf a

theorem forM {α : Type} {g : α → Session σ Unit} {as : List α} (h : ∀ a ∈ as, IsIdle (g a)) :
    IsIdle (as.forM g) := by
  induction as with
  | nil => exact pure
  | cons a as ih =>
    obtain ⟨hfirst, hrest⟩ := List.forall_mem_cons.1 h
    exact hfirst.bind (ih hrest)

end IsIdle

end Session

namespace Engine

/-- A run whose lines tell of times that can be read. -/
def IsLegible (run : EngineRun) : Prop :=
  ∀ line ∈ run.progress, ∀ duration, (fraction? line duration).isOk = true

theorem hasAudio_ends (path : String) (hname : IsName name) (workspace : String) (s : Studio σ) :
    ∃ answer s', Ends ((installed (some path)).hasAudio workspace name) s answer s' ∧ s.Idles s' := by
  have hexec : ((installed (some path)).hasAudio workspace name).exec s =
      (.ok (listsAudio ((s.site.listings.lookup (Path.name (join workspace name))).getD "")),
        { s with probes := s.probes ++ [probeCommand path (join workspace name)] }) := by
    dsimp only [installed]
    rw [workspacePath_eq hname]
    rfl
  exact ⟨_, _, hexec, ⟨rfl, rfl, rfl, rfl, rfl⟩, rfl, rfl⟩

section Workspace

variable (hw : base.IsRoomy s.site.directory workspace place) (h : IsWorkspace base place files s.tree)

include hw h

theorem writeInput_ends (path : Option String) (hname : IsFileName name) (data : ByteArray) :
    ∃ t, Ends ((installed path).writeInput workspace name data) s () { s with tree := t } ∧
      IsWorkspace base place (name :: files) t := by
  obtain ⟨t, hwrite⟩ := h.exists_writeFile hw hname data
  refine ⟨t, ?_, h.writeFile hw.toIsSpot hname.toIsName hwrite⟩
  dsimp only [installed]
  rw [workspacePath_eq hname.toIsName]
  refine ends_bind.2 ⟨_, s, ends_lift.2 ⟨rfl, rfl⟩, ?_⟩
  rw [Ends, exec_writeFile, hwrite]

theorem workspaceFiles_ends : ∃ listed, Ends (workspaceFiles workspace) s listed s := by
  have htree : Session.exec tree s = (.ok s.tree, s) := rfl
  have hsite : Session.exec site s = (.ok s.site, s) := rfl
  unfold Ends
  rw [workspaceFiles, exec_bind, htree]
  dsimp only
  rw [exec_bind, hsite]
  dsimp only
  rw [exec_bind, exec_lift, h.locate_eq hw]
  exact ⟨_, rfl⟩

variable {engine : String} {duration : Option Binary64} {onFraction : Binary64 → Session σ Unit}
  {onLine : String → Session σ Unit}

theorem exists_launched (hline : ∀ line, IsIdle (onLine line)) (engine : String) (words : List String) :
    ∃ s', Ends (launched engine workspace words onLine) s (s.runs.headD {}, s.runCount + 1) s' ∧
      s'.engine = s.engine := by
  obtain ⟨s₁, hlined, hidle⟩ := hline (commandLine (runCommand engine words)) s
  rw [← hidle.site] at hw
  rw [← hidle.tree] at h
  obtain ⟨listed, hlisted⟩ := workspaceFiles_ends hw h
  rw [← hidle.runs, ← hidle.runCount]
  refine ⟨_, ends_bind.2 ⟨(), s₁, hlined, ends_bind.2 ⟨listed, s₁, hlisted, ends_bind.2 ⟨(), _,
    ends_modify.2 rfl, rfl⟩⟩⟩, hidle.engine⟩

omit hw h in
theorem reported_ends (hfraction : ∀ x, IsIdle (onFraction x)) (hline : ∀ line, IsIdle (onLine line))
    {run : EngineRun} (hrun : IsLegible run) (duration : Option Binary64) (s : Studio σ) :
    ∃ s', Ends (reported run duration onFraction onLine) s run.status s' ∧ s.Idles s' := by
  unfold reported
  refine (IsIdle.forM fun line _ => hline (withoutEnd line)).exists_ends_bind (fun s₁ => ?_) s
  refine IsIdle.exists_ends_bind (IsIdle.forM fun line hmem => ?_)
    (fun s₂ => ⟨s₂, (ends_pure (a := run.status)).2 ⟨rfl, rfl⟩, Idles.refl s₂⟩) s₁
  refine IsIdle.lift_bind (hrun line hmem duration) fun fraction => ?_
  cases fraction with
  | none => exact IsIdle.pure
  | some fraction => exact hfraction fraction

/-- A run in a workspace ends with its status. -/
theorem execute_ends (hfraction : ∀ x, IsIdle (onFraction x)) (hline : ∀ line, IsIdle (onLine line))
    (hrun : IsLegible (s.runs.headD {})) (hname : IsFileName name) (hlast : words.getLast? = some name) :
    ∃ s', Ends ((installed (some engine)).execute workspace words duration onFraction onLine) s
        (s.runs.headD {}).status s' ∧ IsRun workspace name (s.runs.headD {}).status s s' ∧
      IsWorkspace base place (name :: files) s'.tree ∧ s'.engine = s.engine := by
  obtain ⟨s₁, hlaunched, hengine⟩ := exists_launched hw h hline engine words
  obtain ⟨-, -, htree, hsite, -⟩ := launched_ends (fun line => (hline line).respects) hlaunched
  have hleft : ∃ t, Ends (leaveProduct workspace (runCommand engine words)
      (Product.bytes? (s.runCount + 1) (s.runs.headD {}).product)) s₁ () { s₁ with tree := t } := by
    unfold leaveProduct
    rw [getLastD_runCommand engine hlast]
    cases Product.bytes? (s.runCount + 1) (s.runs.headD {}).product with
    | none => exact ⟨_, ends_pure.2 ⟨rfl, rfl⟩⟩
    | some data =>
      obtain ⟨t, hwrite⟩ := h.exists_writeFile hw hname data
      rw [← hsite, ← htree] at hwrite
      refine ⟨t, ?_⟩
      dsimp only
      rw [Ends, exec_writeFile, hwrite]
  obtain ⟨t, hleft⟩ := hleft
  obtain ⟨s', hreported, hidle⟩ :=
    reported_ends hfraction hline hrun duration { s₁ with tree := t }
  have hends : Ends ((installed (some engine)).execute workspace words duration onFraction onLine) s
      (s.runs.headD {}).status s' := by
    rw [execute_eq]
    exact ends_bind.2 ⟨_, s₁, hlaunched, ends_bind.2 ⟨(), _, hleft, hreported⟩⟩
  have hisRun := execute_isRun (fun x => (hfraction x).respects) (fun line => (hline line).respects)
    hlast hends
  have hstays := (execute_staysIn (fun x => (hfraction x).respects) (fun line => (hline line).respects)
    hw.toIsSpot hname.toIsName (.head files) hlast).ends hends rfl (h.mono (List.subset_cons_self name files))
  exact ⟨s', hends, hisRun, hstays.2, hidle.engine.trans hengine⟩

end Workspace

end Engine

end Montage
