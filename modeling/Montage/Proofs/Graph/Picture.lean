import Montage.Proofs.Graph.Assembly
import Montage.Proofs.Number.Order

/-!
# What a compiled picture shows

`pictureReading` reads a graph as the picture that it makes at a time: a pile of sheets, each a
canvas, the footage of an input or a text. `timelinePicture` says which sheets a timeline asks for
at that time. A compiled graph shows just these (`compile_picture`).
-/

namespace Montage

def Clip.isOn (time : Binary64) (c : Clip) : Bool :=
  c.start.le time && time.lt (c.start + c.duration)

def TextOverlay.isOn (time : Binary64) (o : TextOverlay) : Bool :=
  o.start.le time && time.le (o.start + o.duration)

end Montage

namespace Montage.Graph

open Outcome

/-- The picture of an input, with what was done to it. -/
structure Footage where
  input : Nat
  range : Option (Binary64 × Binary64) := none
  size : Option (Int × Int) := none
  start : Option Binary64 := none
  deriving DecidableEq

inductive Sheet where
  | canvas (color : String) (width height : Int) (duration : Binary64)
  | footage (footage : Footage)
  | text (file : String)
  deriving DecidableEq

/-- The sheets of a picture, from bottom to top. -/
abbrev Picture := List Sheet

/-- Footage is trimmed, scaled and shifted at most once each, and only by itself. -/
def pictureReading (time : Binary64) : Reading Picture where
  stream
    | i, .picture => some [.footage { input := i }]
    | _, .sound => none
  apply
    | .color color width height duration, [] => some [.canvas color width height duration]
    | .trim false start duration, [[.footage ⟨i, none, size, none⟩]] =>
      some [.footage ⟨i, some (start, duration), size, none⟩]
    | .scale width height, [[.footage ⟨i, range, none, start⟩]] =>
      some [.footage ⟨i, range, some (width, height), start⟩]
    | .shift offset, [[.footage ⟨i, range, size, none⟩]] =>
      some [.footage ⟨i, range, size, some offset⟩]
    | .overlay window 0 0, [below, above] =>
      some (below ++ if window.contains time then above else [])
    | .drawText d, [below] =>
      some (below ++ if d.window.contains time then [.text d.textFile] else [])
    | .passthrough, [below] => some below
    | _, _ => none

/-- The footage of a layer, given its number: only video is trimmed. -/
def footageOf (canvas : Canvas) (numbered : Layer × Nat) : Footage where
  input := numbered.2
  range :=
    if numbered.1.kind = .image then none
    else some (numbered.1.clip.trimStart, numbered.1.clip.duration)
  size := some (canvas.width, canvas.height)
  start := some numbered.1.clip.start

/-- The sheets that a timeline asks for at a time. -/
def timelinePicture (canvas : Canvas) (t : Timeline) (assets : Option Assets)
    (time : Binary64) : Picture :=
  [.canvas canvasColor canvas.width canvas.height t.totalDuration] ++
    (((pictureLayers t assets).zipIdx.filter (·.1.clip.isOn time)).map fun numbered =>
      .footage (footageOf canvas numbered)) ++
    ((t.overlays.zipIdx.filter (·.1.isOn time)).map fun numbered => .text (captionFile numbered.2))

variable {canvas : Canvas} {time : Binary64} {val : Label → Option Picture} {q : Placed}
  {ss : List (Statement Binary64)}

theorem picture_visual (hsolves : (pictureReading time).Solves ss val)
    (hmem : q.visual canvas ∈ ss) :
    val (.visual q.index) = some [.footage (footageOf canvas (q.layer, q.index))] := by
  have hstream := hsolves.stream_eq q.index .picture
  have hvisual : val (.visual q.index) = _ := hsolves.output_eq _ hmem
  rw [hvisual, Reading.statement, Placed.visual]
  by_cases himage : q.layer.kind = .image <;>
    simp [hstream, himage, Placed.isImage, footageOf, Reading.chain, pictureReading, Placed.clip]

theorem picture_laidOver {stage : Nat} {below : Label} {sheets : Picture}
    (hsolves : (pictureReading time).Solves ss val) (hmem : q.laidOver stage below ∈ ss)
    (hbelow : val below = some sheets) {footage : Sheet}
    (hvisual : val (.visual q.index) = some [footage]) :
    val (.stage stage) =
      some (sheets ++ if q.clip.isOn time then [footage] else []) := by
  have hwindow := contains_span q.clip.start q.clip.duration time false
  have hstage : val (.stage stage) = _ := hsolves.output_eq _ hmem
  rw [hstage, Reading.statement, Placed.laidOver]
  simp [hbelow, hvisual, Reading.chain, pictureReading, Clip.finish, hwindow, Clip.isOn]

/-- Each layer that is on lies over those before it. -/
theorem Stacked.picture_top {ps : List Placed} {stage : Nat} {below top : Label}
    {stack : List (Statement Binary64)} {sheets : Picture}
    (h : Stacked canvas ps stage below stack top)
    (hsolves : (pictureReading time).Solves stack val) (hbelow : val below = some sheets) :
    val top = some (sheets ++ (ps.filter fun q => q.isSeen && q.clip.isOn time).map fun q =>
      .footage (footageOf canvas (q.layer, q.index))) := by
  induction h generalizing sheets with
  | done => simpa using hbelow
  | @seen q rest stage below top sounds more hseen _ _ ih =>
    have hmade : q.visual canvas ∈ q.visual canvas :: q.laidOver stage below :: (sounds ++ more) :=
      List.mem_cons_self
    have hover : q.laidOver stage below ∈ q.visual canvas :: q.laidOver stage below ::
        (sounds ++ more) := List.mem_cons_of_mem _ List.mem_cons_self
    have hvisual := picture_visual hsolves hmade
    have hstage := picture_laidOver hsolves hover hbelow hvisual
    rw [ih (hsolves.mono fun s hs => by simp [hs]) hstage]
    cases hon : q.clip.isOn time <;> simp [hseen, hon]
  | @unseen q rest stage below top sounds more hseen _ _ ih =>
    rw [ih (hsolves.mono fun s hs => by simp [hs]) hbelow]
    simp [hseen]

/-- Each text that is on lies over those before it. -/
theorem picture_captions {captions : List Caption} {below : Label} {index : Nat}
    {sheets : Picture}
    (hsolves : (pictureReading time).Solves (captionStatements below index captions) val)
    (hbelow : val below = some sheets) :
    val .finalPicture = some (sheets ++
      (captions.filter fun caption => caption.filter.window.contains time).map fun caption =>
        .text caption.filter.textFile) := by
  fun_induction captionStatements below index captions generalizing sheets with
  | case1 below index =>
    have hfinal : val .finalPicture = _ := hsolves.output_eq _ (List.mem_singleton.2 rfl)
    rw [hfinal]
    simp [Reading.statement, hbelow, Reading.chain, pictureReading]
  | case2 below index caption =>
    have hfinal : val .finalPicture = _ := hsolves.output_eq _ (List.mem_singleton.2 rfl)
    rw [hfinal]
    cases hon : caption.filter.window.contains time <;>
      simp [Reading.statement, hbelow, Reading.chain, pictureReading, hon]
  | case3 below index caption rest hrest ih =>
    have htext : val (.caption index) = _ := hsolves.output_eq _ List.mem_cons_self
    have hcaption : val (.caption index) = some (sheets ++
        if caption.filter.window.contains time then [.text caption.filter.textFile] else []) := by
      rw [htext]
      simp [Reading.statement, hbelow, Reading.chain, pictureReading]
    rw [ih (hsolves.mono fun s hs => List.mem_cons_of_mem _ hs) hcaption]
    cases hon : caption.filter.window.contains time <;> simp [hon]

/-! ### From the parts to the timeline -/

variable {c : Compiler} {t : Timeline} {quality : Value} {assets : Option Assets}
  {p : Program Binary64}

/-- The layers of the picture that are on, with the numbers of their inputs. -/
theorem placed_isOn :
    ((placed assets (layers t)).filter fun q => q.isSeen && q.clip.isOn time).map
        (fun q => (q.layer, q.index)) =
      (pictureLayers t assets).zipIdx.filter (·.1.clip.isOn time) := by
  let isShown (numbered : Layer × Nat) : Bool :=
    decide (numbered.1.kind ≠ .audio) && numbered.1.clip.isOn time
  have hpicture : ∀ numbered ∈ (pictureLayers t assets).zipIdx,
      isShown numbered = numbered.1.clip.isOn time := by
    intro numbered hmem
    have hlayer := List.fst_mem_of_mem_zipIdx hmem
    simp only [pictureLayers, List.mem_append, List.mem_map] at hlayer
    rcases hlayer with ⟨clip, -, hclip⟩ | ⟨clip, -, hclip⟩ <;> simp [isShown, ← hclip]
  have haudio : ∀ n, (((t.available assets .audio).map (Layer.mk .audio)).zipIdx n).filter
      isShown = [] := by
    intro n
    refine List.filter_eq_nil_iff.2 fun numbered hmem => ?_
    obtain ⟨clip, -, hclip⟩ := List.mem_map.1 (List.fst_mem_of_mem_zipIdx hmem)
    simp [isShown, ← hclip]
  calc ((placed assets (layers t)).filter fun q => q.isSeen && q.clip.isOn time).map
        (fun q => (q.layer, q.index))
    _ = ((placed assets (layers t)).map fun q => (q.layer, q.index)).filter isShown := by
      rw [List.filter_map]
      rfl
    _ = (keptLayers t assets).zipIdx.filter isShown := by rw [placed_zipIdx]
    _ = (pictureLayers t assets).zipIdx.filter isShown := by
      rw [keptLayers, List.zipIdx_append, List.filter_append, haudio, List.append_nil]
    _ = (pictureLayers t assets).zipIdx.filter (·.1.clip.isOn time) :=
      List.filter_congr hpicture

theorem IsCaption.spec {numbered : TextOverlay × Nat} {caption : Caption}
    (h : IsCaption canvas numbered caption) :
    caption.filter.textFile = captionFile numbered.2 ∧
      caption.filter.window = ⟨numbered.1.start, numbered.1.finish, true⟩ ∧
      ∃ data, captionData numbered.1.text = .ok data ∧
        caption.file = ⟨captionFile numbered.2, data⟩ := by
  obtain ⟨data, x, y, size, hdata, -, -, -, rfl⟩ := ofOverlay_eq_ok.1 h
  exact ⟨rfl, rfl, data, hdata, rfl⟩

theorem captions_isOn {numbered : List (TextOverlay × Nat)} {captions : List Caption}
    (h : List.Forall₂ (IsCaption canvas) numbered captions) :
    ((captions.filter fun caption => caption.filter.window.contains time).map fun caption =>
        Sheet.text caption.filter.textFile) =
      (numbered.filter (·.1.isOn time)).map fun numbered => .text (captionFile numbered.2) := by
  induction h with
  | nil => rfl
  | @cons overlay caption _ _ hcaption _ ih =>
    obtain ⟨hfile, hwindow, -⟩ := hcaption.spec
    have hon : caption.filter.window.contains time = overlay.1.isOn time := by
      rw [hwindow, TextOverlay.finish, contains_span]
      rfl
    cases hisOn : overlay.1.isOn time <;> simp [hon, hisOn, hfile, ih]

theorem Compiled.picture_eq (h : Compiled c t quality assets p) (time : Binary64) :
    (pictureReading time).meaning p.statements .finalPicture =
      some (timelinePicture c.canvas t assets time) := by
  have hsolves := h.solves (pictureReading time)
  obtain @⟨stack, top, captions, warnings, hstack, hcaptions⟩ := h
  generalize hp : c.assemble t quality (placed assets (layers t)) stack top captions warnings = p
    at hsolves ⊢
  generalize (pictureReading time).meaning p.statements = val at hsolves ⊢
  have hpart : ∀ s, s = canvasStatement c.canvas t.totalDuration ∨ s ∈ stack ∨
      s ∈ captionStatements top 0 captions → s ∈ p.statements := by
    rintro s (rfl | hs | hs) <;> simp [← hp, Compiler.assemble, *]
  have hcanvas : val .base = _ := hsolves.output_eq _ (hpart _ (.inl rfl))
  have hbase : val .base =
      some [.canvas canvasColor c.canvas.width c.canvas.height t.totalDuration] := by
    rw [hcanvas]
    rfl
  have htop := hstack.picture_top (hsolves.mono fun s hs => hpart s (.inr (.inl hs))) hbase
  have hfinal := picture_captions (hsolves.mono fun s hs => hpart s (.inr (.inr hs))) htop
  rw [hfinal, captions_isOn hcaptions, timelinePicture, ← placed_isOn, List.map_map]
  rfl

theorem Compiled.texts (h : Compiled c t quality assets p) :
    ∀ numbered ∈ t.overlays.zipIdx, ∃ data, captionData numbered.1.text = .ok data ∧
      p.sideFiles[numbered.2]? = some ⟨captionFile numbered.2, data⟩ := by
  obtain @⟨stack, top, captions, warnings, -, hcaptions⟩ := h
  intro numbered hmem
  obtain ⟨caption, hcaption, hspec⟩ := getElem?_of_forall₂_zipIdx hcaptions hmem
  obtain ⟨-, -, data, hdata, hfile⟩ := hspec.spec
  refine ⟨data, hdata, ?_⟩
  simp [Compiler.assemble, hcaption, hfile]

/-- At every time, a compiled graph shows what the timeline asks for; the footage is that of the
clips' own sources, and the texts are in the files beside the inputs. -/
theorem compile_picture (h : c.compile t quality assets = .ok p) :
    (∀ time, (pictureReading time).meaning p.statements .finalPicture =
      some (timelinePicture c.canvas t assets time)) ∧
    (∀ numbered ∈ (pictureLayers t assets).zipIdx,
      ∃ input, p.inputs[numbered.2]? = some input ∧ IsInput numbered input) ∧
    ∀ numbered ∈ t.overlays.zipIdx, ∃ data, captionData numbered.1.text = .ok data ∧
      p.sideFiles[numbered.2]? = some ⟨captionFile numbered.2, data⟩ := by
  have hcompiled := Compiled.of_compile h
  refine ⟨hcompiled.picture_eq, fun numbered hmem => hcompiled.input_of_kept ?_, hcompiled.texts⟩
  rw [keptLayers, List.zipIdx_append]
  exact List.mem_append_left _ hmem

theorem sampleTimeline_picture :
    ∃ p, ({} : Compiler).compile sampleTimeline (.text "high") (some sampleAssets) = .ok p ∧
      (pictureReading 2).meaning p.statements .finalPicture = some [
        .canvas "black" 1920 1080 9,
        .footage ⟨1, some (0, 3), some (1920, 1080), some 1⟩,
        .footage ⟨2, none, some (1920, 1080), some 0⟩,
        .text "overlay_text_0.txt", .text "overlay_text_1.txt"] := by
  obtain ⟨p, hp⟩ := sampleTimeline_compiles
  refine ⟨p, hp, ((compile_picture hp).1 2).trans ?_⟩
  decide +kernel

end Montage.Graph
