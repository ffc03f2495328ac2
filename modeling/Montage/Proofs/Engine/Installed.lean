import Montage.Proofs.Engine.Confined
import Montage.Proofs.Files.Faults
import Montage.Render.Renderer

/-!
# The installed engine

The engine of the studio refuses no files with plain names. What goes wrong with it lies in the
files, in the values and in the engine itself.
-/

namespace Montage

open Session

variable {σ : Type} {s : Studio σ}

namespace Session

theorem readFile_failsOnly (path : String) :
    FailsOnly Fault.NotRejected (readFile path : Session σ ByteArray) s :=
  s.tree.readFile_failsOnly s.site.directory path

theorem changeTree_failsOnly {change : FileTree → Site → Except Fault FileTree}
    (h : Outcome.FailsOnly Fault.NotRejected (change s.tree s.site)) :
    FailsOnly Fault.NotRejected (do setTree (← lift (change (← tree) (← site))) : Session σ Unit) s :=
  failsOnly_tree (failsOnly_site (failsOnly_bind (failsOnly_lift h) fun _ _ _ => failsOnly_modify _))

theorem writeFile_failsOnly (path : String) (data : ByteArray) :
    FailsOnly Fault.NotRejected (writeFile path data : Session σ Unit) s :=
  @changeTree_failsOnly _ s (fun t site => t.writeFile site.directory path data)
    (s.tree.writeFile_failsOnly s.site.directory path data)

theorem makeDirectory_failsOnly (path : String) :
    FailsOnly Fault.NotRejected (makeDirectory path : Session σ Unit) s :=
  @changeTree_failsOnly _ s (fun t site => t.makeDirectory site.directory path)
    (s.tree.makeDirectory_failsOnly s.site.directory path)

theorem makeDirectories_failsOnly (path : String) :
    FailsOnly Fault.NotRejected (makeDirectories path : Session σ Unit) s := by
  refine failsOnly_tree (failsOnly_site (failsOnly_bind (failsOnly_modify _) fun _ _ _ => ?_))
  split
  · rename_i e he
    exact failsOnly_throw (FileTree.makeDirectoriesWithin_failsOnly he)
  · exact failsOnly_pure ()

theorem loadEngine_failsOnly (binary : Value) :
    FailsOnly Fault.NotRejected (loadEngine binary : Session σ LoadedEngine) s := by
  have hwhich : FailsOnly Fault.NotRejected (which binary : Session σ (Option String)) s := by
    unfold which
    split
    · exact failsOnly_site (failsOnly_pure _)
    · exact failsOnly_pure none
  have hversion (s : Studio σ) : FailsOnly Fault.NotRejected (nextVersion : Session σ _) s := by
    refine failsOnly_get ?_
    split
    · exact failsOnly_pure _
    · exact failsOnly_pure _
    · exact failsOnly_set (failsOnly_pure _)
  refine failsOnly_bind hwhich fun path s₁ _ => ?_
  split
  · refine failsOnly_bind (hversion s₁) fun reply _ _ => ?_
    split
    · exact failsOnly_throw nofun
    · dsimp only
      split
      · exact failsOnly_throw nofun
      · exact failsOnly_pure _
  · exact failsOnly_throw nofun

theorem findEngine_failsOnly (binary : Value) :
    FailsOnly Fault.NotRejected (findEngine binary : Session σ LoadedEngine) s := by
  refine failsOnly_get ?_
  split
  · exact failsOnly_pure _
  · refine failsOnly_bind (loadEngine_failsOnly binary) fun _ _ _ => ?_
    exact failsOnly_bind (failsOnly_modify _) fun _ _ _ => failsOnly_pure _

end Session

namespace Engine

theorem newWorkspace?_failsOnly (directory : Option String) :
    FailsOnly Fault.NotRejected (newWorkspace? directory : Session σ String) s := by
  have hnumbered (s : Studio σ) : FailsOnly Fault.NotRejected (numbered directory) s :=
    failsOnly_get (failsOnly_set (failsOnly_bind (makeDirectory_failsOnly _) fun _ _ _ =>
      failsOnly_pure _))
  cases directory with
  | none => exact hnumbered s
  | some directory =>
    rw [newWorkspace?_some]
    refine failsOnly_bind (failsOnly_tree (failsOnly_site (failsOnly_pure _))) fun held s₁ _ => ?_
    split
    · exact hnumbered s₁
    · exact failsOnly_bind (makeDirectories_failsOnly directory) fun _ s₂ _ => hnumbered s₂

theorem fraction?_failsOnly (line : String) (duration : Option Binary64) :
    Outcome.FailsOnly Fault.NotRejected (fraction? line duration) := by
  unfold fraction?
  split
  · exact .ok _
  split
  · split
    · exact .ok _
    split
    · refine .bind ?_ fun _ _ => .ok _
      rw [Value.toBinary64, Value.Number.toBinary64]
      split
      · exact .ok _
      · exact .error nofun
    · exact .ok _
  · exact .ok _

theorem workspaceFiles_failsOnly (workspace : String) :
    FailsOnly Fault.NotRejected (workspaceFiles workspace : Session σ _) s := by
  refine failsOnly_tree (failsOnly_site (failsOnly_bind (failsOnly_lift ?_) fun found _ _ => ?_))
  · exact s.tree.locate_failsOnly s.site.directory workspace
  · split
    · exact failsOnly_throw nofun
    · exact failsOnly_pure _
    · exact failsOnly_throw nofun

variable {path : Option String} {workspace name : String}

theorem writeInput_failsOnly (hname : IsPlainName name) (data : ByteArray) :
    FailsOnly Fault.NotRejected ((installed path).writeInput workspace name data) s := by
  dsimp only [installed]
  rw [hname workspace]
  exact failsOnly_bind (failsOnly_pure _) fun _ _ _ => writeFile_failsOnly _ data

theorem readOutput_failsOnly (hname : IsPlainName name) :
    FailsOnly Fault.NotRejected ((installed path).readOutput workspace name) s := by
  dsimp only [installed]
  rw [hname workspace]
  exact failsOnly_bind (failsOnly_pure _) fun _ _ _ => readFile_failsOnly _

theorem hasAudio_failsOnly (hname : IsPlainName name) :
    FailsOnly Fault.NotRejected ((installed path).hasAudio workspace name) s := by
  dsimp only [installed]
  split
  · rw [hname workspace]
    refine failsOnly_bind (failsOnly_pure _) fun file _ _ => ?_
    refine failsOnly_bind ?_ fun _ _ _ => failsOnly_pure _
    exact failsOnly_bind (failsOnly_modify _) fun _ _ _ => failsOnly_site (failsOnly_pure _)
  · exact failsOnly_throw nofun

theorem execute_failsOnly {arguments : List String} {duration : Option Binary64}
    {onFraction : Binary64 → Session σ Unit} {onLine : String → Session σ Unit}
    (hfraction : ∀ x s, FailsOnly Fault.NotRejected (onFraction x) s)
    (hline : ∀ line s, FailsOnly Fault.NotRejected (onLine line) s) :
    FailsOnly Fault.NotRejected
      ((installed path).execute workspace arguments duration onFraction onLine) s := by
  dsimp only [installed]
  split
  · rename_i path
    refine failsOnly_bind (hline _ s) fun _ _ _ => ?_
    refine failsOnly_bind (workspaceFiles_failsOnly workspace) fun files _ _ => ?_
    refine failsOnly_bind (failsOnly_modify _) fun _ _ _ => ?_
    refine failsOnly_bind (failsOnly_get (failsOnly_set (failsOnly_pure _))) fun ⟨run, number⟩ _ _ => ?_
    refine failsOnly_bind ?_ fun _ _ _ => ?_
    · unfold leaveProduct
      split
      · exact writeFile_failsOnly _ _
      · exact failsOnly_pure ()
    refine failsOnly_bind (failsOnly_forM fun line _ s => hline _ s) fun _ _ _ => ?_
    refine failsOnly_bind (failsOnly_forM fun line _ s => ?_) fun _ _ _ => failsOnly_pure _
    refine failsOnly_bind (failsOnly_lift (fraction?_failsOnly line duration)) fun fraction s _ => ?_
    split
    · exact hfraction _ s
    · exact failsOnly_pure ()
  · exact failsOnly_throw nofun

end Engine

end Montage
