import Montage.Proofs.Engine.Confined
import Montage.Proofs.Render.Holding

/-!
# The installed engine is discreet

Nothing that the engine of the studio does reaches the drivers, except through its reports. So runs of
drivers that share it are orderly.
-/

namespace Montage

open Session Studio

variable {σ : Type}

theorem keepsHeld_of_pool_eq {s s' : Studio σ} (h : s'.pool = s.pool) : s.KeepsHeld s' := fun _ => h

/-- What drivers and listeners see stays as it is, and so do the runs to come. -/
structure Studio.Backstage (s s' : Studio σ) : Prop where
  pool : s'.pool = s.pool
  front : s'.front = s.front
  runs : s'.runs = s.runs
  listener : s'.listener = s.listener

namespace Studio.Backstage

theorem refl (s : Studio σ) : s.Backstage s := ⟨rfl, rfl, rfl, rfl⟩

theorem trans (s₁ s₂ s₃ : Studio σ) (h : s₁.Backstage s₂) (h' : s₂.Backstage s₃) : s₁.Backstage s₃ where
  pool := h'.pool.trans h.pool
  front := h'.front.trans h.front
  runs := h'.runs.trans h.runs
  listener := h'.listener.trans h.listener

theorem keepsHeld {s s' : Studio σ} (h : s.Backstage s') : s.KeepsHeld s' := keepsHeld_of_pool_eq h.pool

end Studio.Backstage

section

theorem respects_setTree (t : FileTree) : Respects Backstage (setTree t : Session σ Unit) :=
  respects_modify fun _ => ⟨rfl, rfl, rfl, rfl⟩

theorem respects_readFile (path : String) :
    Respects Backstage (readFile path : Session σ ByteArray) :=
  readFile_respects Backstage.refl Backstage.trans path

theorem respects_changeTree {change : FileTree → Site → Except Fault FileTree} :
    Respects Backstage (do setTree (← lift (change (← tree) (← site))) : Session σ Unit) := by
  refine respects_bind Backstage.trans (respects_tree Backstage.refl) fun _ => ?_
  refine respects_bind Backstage.trans (respects_site Backstage.refl) fun _ => ?_
  exact respects_bind Backstage.trans (respects_lift Backstage.refl _) respects_setTree

theorem respects_writeFile (path : String) (data : ByteArray) :
    Respects Backstage (writeFile path data : Session σ Unit) :=
  @respects_changeTree σ fun t site => t.writeFile site.directory path data

theorem respects_makeDirectory (path : String) :
    Respects Backstage (makeDirectory path : Session σ Unit) :=
  @respects_changeTree σ fun t site => t.makeDirectory site.directory path

theorem respects_makeDirectories (path : String) :
    Respects Backstage (makeDirectories path : Session σ Unit) := by
  refine respects_bind Backstage.trans (respects_tree Backstage.refl) fun t => ?_
  refine respects_bind Backstage.trans (respects_site Backstage.refl) fun site => ?_
  refine respects_bind Backstage.trans (respects_setTree _) fun _ => ?_
  split
  · exact respects_throw Backstage.refl _
  · exact respects_pure Backstage.refl ()

theorem exec_removeTree (path : String) (s : Studio σ) : (removeTree path).exec s =
    (.ok (), { s with tree := s.tree.removeTree s.site.directory path }) :=
  rfl

theorem respects_removeTree (path : String) :
    Respects Backstage (removeTree path : Session σ Unit) := by
  intro s
  rw [exec_removeTree]
  exact ⟨rfl, rfl, rfl, rfl⟩

end

namespace Engine

theorem respects_newWorkspace? (directory : Option String) :
    Respects Backstage (newWorkspace? directory : Session σ String) := by
  have hnumbered : Respects Backstage (numbered directory : Session σ String) := by
    refine respects_update Backstage.trans (fun s => ⟨rfl, rfl, rfl, rfl⟩) fun s => ?_
    exact respects_bind Backstage.trans (respects_makeDirectory _) fun _ =>
      respects_pure Backstage.refl _
  cases directory with
  | none => exact hnumbered
  | some directory =>
    have hholds : Respects Backstage (holds directory : Session σ Bool) := fun s => Backstage.refl s
    rw [newWorkspace?_some]
    refine respects_bind Backstage.trans hholds fun held => ?_
    split
    · exact hnumbered
    · exact respects_bind Backstage.trans (respects_makeDirectories directory) fun _ => hnumbered

theorem respects_workspaceFiles (workspace : String) :
    Respects Backstage (workspaceFiles workspace : Session σ (List (String × ByteArray))) := by
  refine respects_bind Backstage.trans (respects_tree Backstage.refl) fun _ => ?_
  refine respects_bind Backstage.trans (respects_site Backstage.refl) fun _ => ?_
  refine respects_bind Backstage.trans (respects_lift Backstage.refl _) fun found => ?_
  split
  · exact respects_throw Backstage.refl _
  · exact respects_pure Backstage.refl _
  · exact respects_throw Backstage.refl _

theorem respects_writeInput (path : Option String) (workspace name : String) (data : ByteArray) :
    Respects Backstage ((installed path : Engine σ).writeInput workspace name data) :=
  respects_bind Backstage.trans (respects_lift Backstage.refl _) fun _ => respects_writeFile _ data

theorem respects_readOutput (path : Option String) (workspace name : String) :
    Respects Backstage ((installed path : Engine σ).readOutput workspace name) :=
  respects_bind Backstage.trans (respects_lift Backstage.refl _) fun _ => respects_readFile _

theorem respects_hasAudio (path : Option String) (workspace name : String) :
    Respects Backstage ((installed path : Engine σ).hasAudio workspace name) := by
  dsimp only [installed]
  split
  · refine respects_bind Backstage.trans (respects_lift Backstage.refl _) fun file => ?_
    refine respects_bind Backstage.trans ?_ fun _ => respects_pure Backstage.refl _
    refine respects_bind Backstage.trans (respects_modify fun s => ?_) fun _ s => Backstage.refl s
    exact ⟨rfl, rfl, rfl, rfl⟩
  · exact respects_throw Backstage.refl _

theorem respects_leaveProduct (workspace : String) (command : List String) (product : Option ByteArray) :
    Respects Backstage (leaveProduct workspace command product : Session σ Unit) := by
  unfold leaveProduct
  split
  · exact respects_writeFile _ _
  · exact respects_pure Backstage.refl ()

theorem installed_isDiscreet (path : Option String) : (installed path : Engine σ).IsDiscreet where
  newWorkspace directory := (respects_newWorkspace? directory).mono fun _ _ h => h.keepsHeld
  removeWorkspace workspace := (respects_removeTree workspace).mono fun _ _ h => h.keepsHeld
  removeWorkspace_ends workspace s := ⟨_, exec_removeTree workspace s⟩
  writeInput workspace name data :=
    (respects_writeInput path workspace name data).mono fun _ _ h => h.keepsHeld
  readOutput workspace name := (respects_readOutput path workspace name).mono fun _ _ h => h.keepsHeld
  hasAudio workspace name := (respects_hasAudio path workspace name).mono fun _ _ h => h.keepsHeld
  execute R hkept htrans onFraction onLine hfraction hline workspace arguments duration := by
    have hrefl (s : Studio σ) : R s s := hkept s s (KeepsHeld.refl s)
    have hmodify {f : Studio σ → Studio σ} (hf : ∀ s, (f s).pool = s.pool) :
        Respects R (modify f : Session σ Unit) :=
      respects_modify fun s => hkept s (f s) (keepsHeld_of_pool_eq (hf s))
    dsimp only [installed]
    split
    · rename_i path
      -- The command, the messages and the progress are reported; the rest is left to `hkept`.
      refine respects_bind htrans (hline _) fun _ => ?_
      refine respects_bind htrans ?_ fun files => ?_
      · exact (respects_workspaceFiles workspace).mono fun s s' h => hkept s s' h.keepsHeld
      refine respects_bind htrans (hmodify fun _ => rfl) fun _ => ?_
      refine respects_bind htrans ?_ fun next => ?_
      · refine respects_update htrans (fun s => ?_) fun s => respects_pure hrefl _
        exact hkept _ _ (keepsHeld_of_pool_eq rfl)
      refine respects_bind htrans ?_ fun _ => ?_
      · exact (respects_leaveProduct workspace _ _).mono fun s s' h => hkept s s' h.keepsHeld
      refine respects_bind htrans (respects_forM hrefl htrans (fun line => hline _) _) fun _ => ?_
      refine respects_bind htrans (respects_forM hrefl htrans (fun line => ?_) _) fun _ =>
        respects_pure hrefl _
      refine respects_bind htrans (respects_lift hrefl _) fun fraction => ?_
      split
      · exact hfraction _
      · exact respects_pure hrefl ()
    · exact respects_throw hrefl _

theorem respects_findEngine (binary : Value) :
    Respects Backstage (findEngine binary : Session σ LoadedEngine) := by
  refine findEngine_respects Backstage.refl Backstage.trans (respects_get fun s => ?_)
    (fun _ _ => ⟨rfl, rfl, rfl, rfl⟩) binary
  split <;> exact ⟨rfl, rfl, rfl, rfl⟩

theorem respects_shared (binary : Value) :
    Respects Backstage (shared binary : Session σ (Engine σ)) :=
  respects_bind Backstage.trans (respects_findEngine binary) fun _ => respects_pure Backstage.refl _

end Engine

theorem Renderer.isDiscreet_of_shared {r : Renderer σ} {binary : Value}
    (hload : r.loadEngine = Engine.shared binary)
    (hprogress : ∀ percent, Respects KeepsHeld (r.onProgress percent))
    (hline : ∀ line, Respects KeepsHeld (r.onLine line)) : r.IsDiscreet where
  loadEngine := by
    rw [hload]
    exact (Engine.respects_shared binary).mono fun _ _ h => h.keepsHeld
  engine := by
    intro s engine s' h
    rw [hload] at h
    obtain ⟨path, rfl⟩ := Engine.shared_ends h
    exact Engine.installed_isDiscreet _
  onProgress := hprogress
  onLine := hline

end Montage
