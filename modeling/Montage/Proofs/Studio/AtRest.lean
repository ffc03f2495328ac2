import Montage.Asset.Resolver
import Montage.Engine.Basic
import Montage.Proofs.Studio.Session

/-!
# Sessions that leave the world at rest

What only fetches, reports and looks things up keeps up whatever its messages, its requests and the
engine that it finds do. So it changes neither the files nor what the engine will do when it runs
(`Studio.AtRest`).
-/

namespace Montage

open Session

variable {σ α : Type}

namespace Session

section Respects

variable {R : Studio σ → Studio σ → Prop} (hrefl : ∀ s, R s s)
  (htrans : ∀ s₁ s₂ s₃, R s₁ s₂ → R s₂ s₃ → R s₁ s₃)

include hrefl htrans

theorem shelf_respects (r : Resolver) : Respects R (r.shelf : Session σ Shelf) :=
  respects_bind htrans (respects_tree hrefl) fun _ =>
    respects_bind htrans (respects_site hrefl) fun _ => respects_pure hrefl _

theorem resolveAll_respects {r : Resolver} (hrequest : ∀ urls, Respects R (r.recordRequests urls))
    (hsay : ∀ message, Respects R (say message)) (clips : List Clip) :
    Respects R (r.resolveAll clips : Session σ Assets) := by
  refine respects_bind htrans (shelf_respects hrefl htrans r) fun shelf => ?_
  refine respects_bind htrans (hrequest _) fun _ => ?_
  refine respects_bind htrans (respects_forM hrefl htrans hsay _) fun _ => ?_
  split
  · exact respects_throw hrefl _
  · exact respects_pure hrefl _

theorem font?_respects (hsay : ∀ message, Respects R (say message)) (r : Resolver) (name : String) :
    Respects R (r.font? name : Session σ (Option ByteArray)) := by
  refine respects_bind htrans (respects_site hrefl) fun site => ?_
  refine respects_bind htrans (respects_tree hrefl) fun tree => ?_
  split
  · exact respects_bind htrans (readFile_respects hrefl htrans _) fun _ => respects_pure hrefl _
  · exact respects_bind htrans (hsay _) fun _ => respects_pure hrefl _

theorem findEngine_respects (hversion : Respects R (nextVersion : Session σ VersionReply))
    (hloaded : ∀ s engine, R s { s with engine }) (binary : Value) :
    Respects R (findEngine binary : Session σ LoadedEngine) := by
  have hwhich : Respects R (which binary : Session σ (Option String)) := by
    unfold which
    split
    · exact respects_bind htrans (respects_site hrefl) fun _ => respects_pure hrefl _
    · exact respects_pure hrefl none
  have hload : Respects R (loadEngine binary : Session σ LoadedEngine) := by
    refine respects_bind htrans hwhich fun path => ?_
    split
    · refine respects_bind htrans hversion fun reply => ?_
      split
      · exact respects_throw hrefl _
      · dsimp only
        split
        · exact respects_throw hrefl _
        · exact respects_pure hrefl _
    · exact respects_throw hrefl _
  have hfound : Respects R (do
      let loaded ← loadEngine binary
      modify ({ · with engine := some loaded })
      return loaded : Session σ LoadedEngine) := by
    refine respects_bind htrans hload fun loaded => ?_
    exact respects_bind htrans (respects_modify fun s => hloaded s _) fun _ => respects_pure hrefl _
  refine respects_get fun s => ?_
  split
  · exact hrefl s
  · exact hfound s

end Respects

end Session

/-- The files are the same, and so is what the engine will do next. -/
structure Studio.AtRest (s s' : Studio σ) : Prop where
  tree : s'.tree = s.tree
  site : s'.site = s.site
  runs : s'.runs = s.runs
  runCount : s'.runCount = s.runCount
  workspaceCount : s'.workspaceCount = s.workspaceCount

namespace Studio.AtRest

theorem refl (s : Studio σ) : s.AtRest s := ⟨rfl, rfl, rfl, rfl, rfl⟩

theorem trans (s₁ s₂ s₃ : Studio σ) (h : s₁.AtRest s₂) (h' : s₂.AtRest s₃) : s₁.AtRest s₃ where
  tree := h'.tree.trans h.tree
  site := h'.site.trans h.site
  runs := h'.runs.trans h.runs
  runCount := h'.runCount.trans h.runCount
  workspaceCount := h'.workspaceCount.trans h.workspaceCount

theorem changePool (f : DriverPool → DriverPool) :
    Respects AtRest (Session.changePool f : Session σ Unit) :=
  respects_modify fun _ => ⟨rfl, rfl, rfl, rfl, rfl⟩

theorem say (message : String) : Respects AtRest (Session.say message : Session σ Unit) :=
  say_respects refl trans (fun _ _ => ⟨rfl, rfl, rfl, rfl, rfl⟩)
    (fun _ _ _ => ⟨rfl, rfl, rfl, rfl, rfl⟩) fun _ _ => ⟨rfl, rfl, rfl, rfl, rfl⟩

theorem readFile (path : String) : Respects AtRest (Session.readFile path : Session σ ByteArray) :=
  readFile_respects refl trans path

theorem recordRequests (r : Resolver) (urls : List String) :
    Respects AtRest (r.recordRequests urls : Session σ Unit) :=
  respects_modify fun _ => ⟨rfl, rfl, rfl, rfl, rfl⟩

theorem resolveAll (r : Resolver) (clips : List Clip) :
    Respects AtRest (r.resolveAll clips : Session σ Assets) :=
  resolveAll_respects refl trans (recordRequests r) say clips

theorem font? (r : Resolver) (name : String) :
    Respects AtRest (r.font? name : Session σ (Option ByteArray)) :=
  font?_respects refl trans say r name

theorem findEngine (binary : Value) :
    Respects AtRest (Session.findEngine binary : Session σ LoadedEngine) := by
  refine findEngine_respects refl trans (respects_get fun s => ?_)
    (fun _ _ => ⟨rfl, rfl, rfl, rfl, rfl⟩) binary
  split <;> exact ⟨rfl, rfl, rfl, rfl, rfl⟩

end Studio.AtRest

end Montage
