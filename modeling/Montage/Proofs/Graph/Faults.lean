import Montage.Proofs.Graph.Assembly

/-!
# What the compiler refuses

The compiler only stops at values that it cannot use (`compile_failsOnly_misuse`). In particular the
labels that a program ends in are always defined.
-/

namespace Montage

open Outcome

/-- Whether a fault is about a value that an operation cannot use. -/
def Fault.IsMisuse (e : Fault) : Prop := ∃ what, e = .misuse what

theorem Value.toText_failsOnly (v : Value) : FailsOnly Fault.IsMisuse v.toText := by
  unfold Value.toText
  split
  · exact .ok _
  · exact .error ⟨_, rfl⟩

theorem Timecode.round_failsOnly (x : Binary64) : FailsOnly Fault.IsMisuse (Timecode.round x) := by
  unfold Timecode.round
  split
  · exact .ok _
  · exact .error ⟨_, rfl⟩

theorem Measure.percentOf_failsOnly (percent : Value) (length : Int) :
    FailsOnly Fault.IsMisuse (Measure.percentOf percent length) := by
  refine FailsOnly.bind ?_ fun _ _ => .ok _
  unfold Value.toRatio
  split <;> first | exact .ok _ | exact .error ⟨_, rfl⟩

end Montage

namespace Montage.Graph

open Outcome

theorem layerWarnings_failsOnly (t : Timeline) (assets : Option Assets) :
    FailsOnly Fault.IsMisuse (layerWarnings t assets) := by
  refine FailsOnly.bind ?_ fun _ _ => FailsOnly.bind ?_ fun _ _ => .ok _
  · exact .mapM (fun track => track.name.toText_failsOnly.bind fun _ _ => .ok _) _
  · refine .filterMapM (fun clip => ?_) _
    unfold clipWarning?
    split
    · exact clip.name.toText_failsOnly.bind fun _ _ => .ok _
    · exact .ok _

theorem Placed.sounds_failsOnly (p : Placed) : FailsOnly Fault.IsMisuse p.sounds := by
  unfold Placed.sounds
  split
  · refine FailsOnly.bind ?_ fun _ _ => .ok _
    exact (Timecode.round_failsOnly _).bind fun _ _ => .ok _
  · exact .ok _

theorem stackLayers_failsOnly (canvas : Canvas) (ps : List Placed) (stage : Nat)
    (below : Label) : FailsOnly Fault.IsMisuse (stackLayers canvas ps stage below) := by
  induction ps generalizing stage below with
  | nil => exact .ok _
  | cons p rest ih =>
    refine p.sounds_failsOnly.bind fun sounds _ => ?_
    split
    · exact (ih _ _).bind fun _ _ => .ok _
    · exact (ih _ _).bind fun _ _ => .ok _

theorem fontSizeOf_failsOnly (o : TextOverlay) : FailsOnly Fault.IsMisuse (fontSizeOf o) := by
  unfold fontSizeOf
  split
  · exact .error ⟨_, rfl⟩
  · exact .ok _
  · split <;> exact .ok _

theorem Caption.ofOverlay_failsOnly (canvas : Canvas) (index : Nat) (o : TextOverlay) :
    FailsOnly Fault.IsMisuse (Caption.ofOverlay canvas index o) := by
  refine FailsOnly.bind ?_ fun _ _ => ?_
  · unfold captionData
    split <;> first | exact .ok _ | exact .error ⟨_, rfl⟩
  refine (Measure.percentOf_failsOnly _ _).bind fun _ _ => ?_
  refine (Measure.percentOf_failsOnly _ _).bind fun _ _ => ?_
  exact (fontSizeOf_failsOnly o).bind fun _ _ => .ok _

theorem Compiled.checkTerminals {c : Compiler} {t : Timeline} {quality : Value}
    {assets : Option Assets} {p : Program Binary64} (h : Compiled c t quality assets p) :
    p.checkTerminals = .ok () := by
  have hpicture : (p.statements.map (·.output)).contains .finalPicture = true :=
    List.contains_iff_mem.2 (h.made (by simp))
  have hsound : (p.sound.any fun l => !(p.statements.map (·.output)).contains l) = false := by
    cases hl : p.sound with
    | none => rfl
    | some l => simpa using h.made (l := l) (by simp [hl])
  simp only [Program.checkTerminals, hpicture, hsound]
  rfl

/-- The compiler refuses a timeline only for values that cannot be used. -/
theorem compile_failsOnly_misuse (c : Compiler) (t : Timeline) (quality : Value)
    (assets : Option Assets) : FailsOnly Fault.IsMisuse (c.compile t quality assets) := by
  refine (layerWarnings_failsOnly t assets).bind fun warnings _ => ?_
  refine (stackLayers_failsOnly _ _ _ _).bind fun ⟨stack, top⟩ hstack => ?_
  refine FailsOnly.bind (.mapM (fun _ => Caption.ofOverlay_failsOnly _ _ _) _)
    fun captions hcaptions => ?_
  have hcompiled : Compiled c t quality assets
      (c.assemble t quality (placed assets (layers t)) stack top captions warnings) :=
    .intro (.of_stackLayers hstack) (mapM_eq_ok.1 hcaptions)
  refine FailsOnly.bind ?_ fun _ _ => .ok _
  rw [hcompiled.checkTerminals]
  exact .ok _

end Montage.Graph
