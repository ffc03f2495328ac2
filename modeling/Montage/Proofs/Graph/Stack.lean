import Montage.Graph.Compile
import Montage.Proofs.Graph.Kept
import Montage.Proofs.Outcome

/-!
# How a program is put together

`Stacked` says what the statements of the layers are, one rule for each kind of layer, and `Compiled`
what a program is that the compiler gives. What is proved of programs is proved from these two.
-/

namespace Montage

/-- How long after the start the sound of a clip begins, in whole milliseconds. -/
def Clip.delay (c : Clip) : Except Fault Int := Timecode.milliseconds (.max .zero c.start)

end Montage

namespace Montage.Graph

open Outcome

namespace Placed

/-- The sound of an input with its delay. -/
def delayed (p : Placed) (delay : Int) : Statement Binary64 where
  inputs := [.stream p.index .sound]
  filters := [.trim true p.clip.trimStart p.clip.duration, .resetSound, .delay delay]
  output := .audio p.index

/-- The statements for the sound of a layer. -/
inductive Sounding (p : Placed) : List (Statement Binary64) → Prop
  | silent (hheard : p.isHeard = false) : Sounding p []
  | heard {delay : Int} (hheard : p.isHeard = true) (hdelay : p.clip.delay = .ok delay) :
      Sounding p [p.delayed delay]

end Placed

/-- The statements of some layers, from a number of pictures laid over one another so far, and the
label of the picture before and after. -/
inductive Stacked (canvas : Canvas) :
    List Placed → Nat → Label → List (Statement Binary64) → Label → Prop
  | done {stage : Nat} {below : Label} : Stacked canvas [] stage below [] below
  | seen {p : Placed} {rest : List Placed} {stage : Nat} {below top : Label}
      {sounds more : List (Statement Binary64)} (hseen : p.isSeen = true) (hsounds : p.Sounding sounds)
      (hmore : Stacked canvas rest (stage + 1) (.stage stage) more top) :
      Stacked canvas (p :: rest) stage below
        (p.visual canvas :: p.laidOver stage below :: (sounds ++ more)) top
  | unseen {p : Placed} {rest : List Placed} {stage : Nat} {below top : Label}
      {sounds more : List (Statement Binary64)} (hseen : p.isSeen = false)
      (hsounds : p.Sounding sounds) (hmore : Stacked canvas rest stage below more top) :
      Stacked canvas (p :: rest) stage below (sounds ++ more) top

theorem Placed.Sounding.of_sounds {p : Placed} {sounds : List (Statement Binary64)}
    (h : p.sounds = .ok sounds) : p.Sounding sounds := by
  unfold Placed.sounds at h
  split at h
  · rename_i hheard
    obtain ⟨s, hsound, hs⟩ := bind_eq_ok.1 h
    obtain ⟨delay, hdelay, hp⟩ := bind_eq_ok.1 hsound
    rw [pure_eq_ok] at hs hp
    subst hs hp
    exact .heard hheard hdelay
  · rename_i hheard
    rw [pure_eq_ok] at h
    subst h
    exact .silent (Bool.eq_false_iff.2 hheard)

theorem Stacked.of_stackLayers {canvas : Canvas} {ps : List Placed} {stage : Nat}
    {below top : Label} {stack : List (Statement Binary64)}
    (h : stackLayers canvas ps stage below = .ok (stack, top)) :
    Stacked canvas ps stage below stack top := by
  induction ps generalizing stage below stack with
  | nil =>
    rw [stackLayers, pure_eq_ok] at h
    obtain ⟨rfl, rfl⟩ := Prod.mk.inj h
    exact .done
  | cons p rest ih =>
    rw [stackLayers, bind_eq_ok] at h
    obtain ⟨sounds, hsounds, h⟩ := h
    have hsounds := Placed.Sounding.of_sounds hsounds
    split at h
    · rename_i hseen
      obtain ⟨⟨more, top'⟩, hmore, h⟩ := bind_eq_ok.1 h
      obtain ⟨rfl, rfl⟩ := Prod.mk.inj (pure_eq_ok.1 h)
      exact .seen hseen hsounds (ih hmore)
    · rename_i hseen
      obtain ⟨⟨more, top'⟩, hmore, h⟩ := bind_eq_ok.1 h
      obtain ⟨rfl, rfl⟩ := Prod.mk.inj (pure_eq_ok.1 h)
      exact .unseen (Bool.eq_false_iff.2 hseen) hsounds (ih hmore)

/-- What an overlay becomes, from what can be read of it. -/
theorem ofOverlay_eq_ok {canvas : Canvas} {index : Nat} {o : TextOverlay} {caption : Caption} :
    Caption.ofOverlay canvas index o = .ok caption ↔
      ∃ data x y size, captionData o.text = .ok data ∧
        Measure.percentOf o.x canvas.width = .ok x ∧ Measure.percentOf o.y canvas.height = .ok y ∧
        fontSizeOf o = .ok size ∧ caption = {
          file := ⟨captionFile index, data⟩
          font := (fontOf o).value
          filter := {
            textFile := captionFile index
            fontFile := some (fontFile (fontOf o).value)
            anchorX := x
            anchorY := y
            fontSize := size.value
            color := (colorOf o).value
            window := ⟨o.start, o.finish, true⟩ }
          warnings := [(fontOf o).warning, size.warning, (colorOf o).warning].filterMap id } := by
  simp only [Caption.ofOverlay, bind_eq_ok, pure_eq_ok]
  constructor
  · rintro ⟨data, hdata, x, hx, y, hy, size, hsize, rfl⟩
    exact ⟨data, x, y, size, hdata, hx, hy, hsize, rfl⟩
  · rintro ⟨data, x, y, size, hdata, hx, hy, hsize, rfl⟩
    exact ⟨data, hdata, x, hx, y, hy, size, hsize, rfl⟩

/-- One overlay and what the graph has for it. -/
def IsCaption (canvas : Canvas) (numbered : TextOverlay × Nat) (caption : Caption) : Prop :=
  Caption.ofOverlay canvas numbered.2 numbered.1 = .ok caption

/-- A program that the compiler puts together for a timeline. -/
inductive Compiled (c : Compiler) (t : Timeline) (quality : Value) (assets : Option Assets) :
    Program Binary64 → Prop
  | intro {stack : List (Statement Binary64)} {top : Label} {captions : List Caption}
      {warnings : List String}
      (hstack : Stacked c.canvas (placed assets (layers t)) 0 .base stack top)
      (hcaptions : List.Forall₂ (IsCaption c.canvas) t.overlays.zipIdx captions) :
      Compiled c t quality assets
        (c.assemble t quality (placed assets (layers t)) stack top captions warnings)

theorem Compiled.of_compile {c : Compiler} {t : Timeline} {quality : Value}
    {assets : Option Assets} {p : Program Binary64} (h : c.compile t quality assets = .ok p) :
    Compiled c t quality assets p := by
  obtain ⟨warnings, -, h⟩ := bind_eq_ok.1 h
  obtain ⟨⟨stack, top⟩, hstack, h⟩ := bind_eq_ok.1 h
  obtain ⟨captions, hcaptions, h⟩ := bind_eq_ok.1 h
  obtain ⟨-, -, h⟩ := bind_eq_ok.1 h
  rw [← pure_eq_ok.1 h]
  exact .intro (.of_stackLayers hstack) (mapM_eq_ok.1 hcaptions)

theorem sampleTimeline_compiles :
    ∃ p, ({} : Compiler).compile sampleTimeline (.text "high") (some sampleAssets) = .ok p := by
  have hok : (({} : Compiler).compile sampleTimeline (.text "high") (some sampleAssets)).isOk =
      true := by decide +kernel
  revert hok
  cases ({} : Compiler).compile sampleTimeline (.text "high") (some sampleAssets) with
  | error e => exact fun hok => nomatch hok
  | ok p => exact fun _ => ⟨p, rfl⟩

end Montage.Graph
