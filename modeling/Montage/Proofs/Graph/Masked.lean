import Montage.Proofs.Graph.Compilable

/-!
# What a program does not show

Ids, names, places and texts of a timeline do not reach the engine: they are masked here, and
timelines with one mask give programs that look the same from outside (`compile_masked`). A text is
in the program as the bytes of its file, and nowhere else. What names do decide is whether there is a
program at all, since a warning can need a name that cannot be written.
-/

namespace Montage

/-- A source of the same kind at no place. -/
def Source.masked (s : Source) : Source := { s with url := .null, storagePath := .null }

def Clip.masked (c : Clip) : Clip :=
  { c with id := "", name := .text "", trimEnd := .zero, source := c.source.map (·.masked) }

def Track.masked (t : Track) : Track :=
  { t with id := "", name := .text "", locked := false, clips := t.clips.map (·.masked) }

/-- The same style and times for an empty text. -/
def TextOverlay.blank (o : TextOverlay) : TextOverlay := { o with text := .text "" }

def TextOverlay.masked (o : TextOverlay) : TextOverlay := { o.blank with id := "" }

def TextOverlay.content (o : TextOverlay) : String :=
  match o.text with
  | .text s => s
  | _ => ""

namespace Timeline

def blank (t : Timeline) : Timeline := { t with overlays := t.overlays.map (·.blank) }

/-- A timeline without its ids, names, locks, trimmed ends, places of sources and texts. -/
def masked (t : Timeline) : Timeline :=
  { t with tracks := t.tracks.map (·.masked), overlays := t.overlays.map (·.masked) }

end Timeline

end Montage

namespace Montage.Graph

open Outcome

/-- What the engine and the files beside it show of a program. -/
structure Outline where
  arguments : Except Fault (List String)
  graph : Except Fault String
  inputNames : List String
  sideFileNames : List String
  fonts : List String
  payloadNames : List String

def Program.outline (p : Program Binary64) : Outline where
  arguments := p.arguments
  graph := p.resolveStatements.map graphText
  inputNames := p.inputs.map (·.name)
  sideFileNames := p.sideFiles.map (·.name)
  fonts := p.fonts
  payloadNames := p.payloadNames

/-- Two runs that both fail, or give programs with one outline. -/
inductive SameOutline : Except Fault (Program Binary64) → Except Fault (Program Binary64) → Prop
  | failed (e e' : Fault) : SameOutline (.error e) (.error e')
  | compiled {p p' : Program Binary64} (h : p.outline = p'.outline) : SameOutline (.ok p) (.ok p')

/-- The files for the texts of a timeline. -/
def textFiles (t : Timeline) : List SideFile :=
  t.overlays.zipIdx.map fun (o, index) => ⟨captionFile index, o.content.toUTF8⟩

/-- Whether the names that warnings need can be written, and the texts are texts. -/
structure IsWritable (t : Timeline) : Prop where
  hidden : ∀ track ∈ t.tracks, track.visible = false → track.kind ≠ .text →
    track.name.hasText = true
  skipped : ∀ clip ∈ requiredClips t, clip.source = none → clip.name.hasText = true
  texts : ∀ o ∈ t.overlays, o.text = .null ∨ ∃ s, o.text = .text s

variable {c : Compiler} {canvas : Canvas} {t t' : Timeline} {quality : Value}
  {p p' : Program Binary64}

/-! ### Layers -/

def Layer.masked (l : Layer) : Layer := { l with clip := l.clip.masked }

def Placed.masked (q : Placed) : Placed := ⟨q.index, q.layer.masked, q.source.masked⟩

theorem layers_masked (t : Timeline) : layers t.masked = (layers t).map (·.masked) := by
  have hshown : ∀ kind, t.masked.shown kind = (t.shown kind).map (·.masked) := by
    intro kind
    rw [Timeline.shown, Timeline.shown, Timeline.masked, List.filter_map, List.flatMap_map,
      List.map_flatMap]
    rfl
  simp only [layers_eq, hshown, List.map_append, List.map_map]
  rfl

theorem placed_masked (ls : List Layer) :
    placed none (ls.map (·.masked)) = (placed none ls).map (·.masked) := by
  have husable : ∀ l : Layer, usable? none l.masked =
      (usable? none l).map fun kept => (kept.1.masked, kept.2.masked) := by
    rintro ⟨kind, id, start, duration, source, trimStart, trimEnd, hasAudio, name⟩
    cases source <;> rfl
  simp only [placed, List.filterMap_map, Function.comp_def, husable, List.map_map,
    ← List.map_filterMap, List.zipIdx_map]
  rfl

theorem stackLayers_masked (ps : List Placed) (stage : Nat) (below : Label) :
    stackLayers canvas (ps.map (·.masked)) stage below = stackLayers canvas ps stage below := by
  induction ps generalizing stage below with
  | nil => rfl
  | cons q rest ih =>
    simp only [List.map_cons, stackLayers, ih]
    rfl

/-- An input without its place and the id of its clip. -/
def InputSpec.masked (i : InputSpec Binary64) : InputSpec Binary64 :=
  { i with source := i.source.map (·.masked), clipId := none }

/-! ### Texts -/

def SideFile.blank (file : SideFile) : SideFile := { file with data := "".toUTF8 }

def Caption.blank (caption : Caption) : Caption := { caption with file := caption.file.blank }

def Caption.masked (caption : Caption) : Caption := { caption.blank with warnings := [] }

theorem colorOf_masked (o : TextOverlay) : (colorOf o.masked).value = (colorOf o).value := by
  have hcolor : o.masked.color = o.color := rfl
  rw [colorOf, colorOf, hcolor]
  cases styleToken? o.color <;> rfl

theorem fontOf_masked (o : TextOverlay) : (fontOf o.masked).value = (fontOf o).value := by
  have hfont : o.masked.font = o.font := rfl
  rw [fontOf, fontOf, hfont]
  cases isUnset o.font
  · cases fontToken? o.font <;> rfl
  · rfl

theorem fontSizeOf_masked {o : TextOverlay} {size : Style Int} (h : fontSizeOf o = .ok size) :
    ∃ size', fontSizeOf o.masked = .ok size' ∧ size'.value = size.value := by
  unfold fontSizeOf at h ⊢
  dsimp only [TextOverlay.masked, TextOverlay.blank] at h ⊢
  split at h
  · cases h
  · cases h
    exact ⟨_, rfl, rfl⟩
  · split at h
    · cases h
      refine ⟨_, rfl, ?_⟩
      split <;> rfl
    · cases h
      exact ⟨_, rfl, rfl⟩

theorem ofOverlay_blank {index : Nat} {o : TextOverlay} {caption : Caption}
    (h : Caption.ofOverlay canvas index o = .ok caption) :
    Caption.ofOverlay canvas index o.blank = .ok caption.blank := by
  obtain ⟨data, x, y, size, -, hx, hy, hsize, rfl⟩ := ofOverlay_eq_ok.1 h
  exact ofOverlay_eq_ok.2 ⟨_, x, y, size, rfl, hx, hy, hsize, rfl⟩

theorem ofOverlay_masked {index : Nat} {o : TextOverlay} {caption masked : Caption}
    (h : Caption.ofOverlay canvas index o = .ok caption)
    (hmasked : Caption.ofOverlay canvas index o.masked = .ok masked) :
    masked.masked = caption.masked := by
  obtain ⟨data, x, y, size, -, hx, hy, hsize, rfl⟩ := ofOverlay_eq_ok.1 h
  obtain ⟨data', x', y', size', -, hx', hy', hsize', rfl⟩ := ofOverlay_eq_ok.1 hmasked
  obtain ⟨read, hread, hvalue⟩ := fontSizeOf_masked hsize
  obtain rfl := Except.ok.inj (hx.symm.trans hx')
  obtain rfl := Except.ok.inj (hy.symm.trans hy')
  obtain rfl := Except.ok.inj (hread.symm.trans hsize')
  simp only [Caption.masked, Caption.blank, colorOf_masked, fontOf_masked, hvalue]
  rfl

/-! ### Programs -/

def Program.blank (p : Program Binary64) : Program Binary64 :=
  { p with sideFiles := p.sideFiles.map (·.blank) }

def Program.masked (p : Program Binary64) : Program Binary64 :=
  { p.blank with inputs := p.inputs.map (·.masked), warnings := [] }

theorem Program.outline_masked (p : Program Binary64) : p.masked.outline = p.outline := by
  have harguments : p.masked.arguments = p.arguments := by
    rw [Program.arguments, Program.arguments]
    simp only [Program.masked, Program.blank, List.mapM_map]
    rfl
  have hinputs : p.masked.inputs.map (·.name) = p.inputs.map (·.name) := by
    rw [Program.masked, List.map_map]
    rfl
  have hfiles : p.masked.sideFiles.map (·.name) = p.sideFiles.map (·.name) := by
    rw [Program.masked, Program.blank, List.map_map]
    rfl
  rw [Program.outline, harguments, hinputs, hfiles]
  rfl

theorem totalDuration_masked (t : Timeline) : t.masked.totalDuration = t.totalDuration := by
  have hclips : t.masked.clips = t.clips.map (·.masked) := by
    rw [Timeline.clips, Timeline.clips, Timeline.masked, List.flatMap_map, List.map_flatMap]
    rfl
  have hoverlays : t.masked.overlays = t.overlays.map (·.masked) := rfl
  simp only [Timeline.totalDuration, Timeline.finishes, hclips, hoverlays, List.map_map]
  rfl

theorem captionStatements_map {f : Caption → Caption}
    (hf : ∀ caption, (f caption).filter = caption.filter) (captions : List Caption) (below : Label)
    (index : Nat) :
    captionStatements below index (captions.map f) = captionStatements below index captions := by
  induction captions generalizing below index with
  | nil => rfl
  | cons caption rest ih =>
    cases rest with
    | nil => simp only [List.map_cons, List.map_nil, captionStatements, hf]
    | cons next rest =>
      change ⟨[below], [.drawText (f caption).filter], .caption index⟩ ::
        captionStatements (.caption index) (index + 1) ((next :: rest).map f) = _
      rw [hf, ih]
      rfl

theorem assemble_masked {ps : List Placed} {stack : List (Statement Binary64)} {top : Label}
    {captions captions' : List Caption} {warnings warnings' : List String}
    (h : captions'.map (·.masked) = captions.map (·.masked)) :
    (c.assemble t.masked quality (ps.map (·.masked)) stack top captions' warnings').masked =
      (c.assemble t quality ps stack top captions warnings).masked := by
  have hfilter : ∀ caption : Caption, caption.masked.filter = caption.filter := fun _ => rfl
  have hstatements : captionStatements top 0 captions' = captionStatements top 0 captions := by
    rw [← captionStatements_map hfilter captions', h, captionStatements_map hfilter]
  have hfonts : captions'.map (·.font) = captions.map (·.font) := by
    have hmap := congrArg (List.map (·.font)) h
    rwa [List.map_map, List.map_map] at hmap
  have hfiles : captions'.map (SideFile.blank ·.file) = captions.map (SideFile.blank ·.file) := by
    have hmap := congrArg (List.map (·.file)) h
    rwa [List.map_map, List.map_map] at hmap
  have hsounds : ((ps.map (·.masked)).filter (·.isHeard)).map (Label.audio ·.index) =
      (ps.filter (·.isHeard)).map (Label.audio ·.index) := by
    rw [List.filter_map, List.map_map]
    rfl
  have hinputs : ((ps.map (·.masked)).map (·.input)).map (·.masked) =
      (ps.map (·.input)).map (·.masked) := by
    simp only [List.map_map]
    rfl
  have hnames : ((ps.map (·.masked)).map (·.input)).map (·.name) =
      (ps.map (·.input)).map (·.name) := by
    simp only [List.map_map]
    rfl
  simp only [Program.masked, Program.blank, Compiler.assemble, hstatements, hfonts, hsounds,
    hinputs, hnames, totalDuration_masked]
  simp only [List.map_map, Function.comp_def, hfiles]

/-- What a timeline becomes with a mask looks the same. -/
theorem masked_of_compile (h : c.compile t quality none = .ok p)
    (hmasked : c.compile t.masked quality none = .ok p') : p'.masked = p.masked := by
  obtain ⟨warnings, stack, top, captions, -, hstack, hcaptions, rfl⟩ := compile_eq_ok.1 h
  obtain ⟨warnings', stack', top', captions', -, hstack', hcaptions', rfl⟩ :=
    compile_eq_ok.1 hmasked
  rw [layers_masked, placed_masked, stackLayers_masked, hstack] at hstack'
  obtain ⟨rfl, rfl⟩ := Prod.mk.inj (Except.ok.inj hstack')
  rw [layers_masked, placed_masked]
  apply assemble_masked
  rw [Timeline.masked, List.zipIdx_map, List.forall₂_map_left_iff] at hcaptions'
  exact map_eq_map_of_forall₂ hcaptions' hcaptions fun _ _ _ hmasked hcaption =>
    ofOverlay_masked hcaption hmasked

theorem heard_masked :
    (∀ numbered ∈ soundLayers t.masked none,
      (Binary64.max .zero numbered.1.start * .ofInt 1000).isFinite = true) ↔
    ∀ numbered ∈ soundLayers t none,
      (Binary64.max .zero numbered.1.start * .ofInt 1000).isFinite = true := by
  rw [← soundLayers_eq, ← soundLayers_eq, layers_masked, placed_masked, List.filter_map]
  simp only [List.forall_mem_map]
  rfl

/-- Whether a timeline compiles: names and texts take part in it by being writable. -/
theorem isOk_compile_masked : (c.compile t quality none).isOk = true ↔
    IsCompilable t.masked none ∧ IsWritable t := by
  have htexts : ∀ o : TextOverlay,
      (captionData o.text).isOk = true ↔ o.text = .null ∨ ∃ s, o.text = .text s := by
    intro o
    cases o.text <;> simp [captionData, Except.isOk, Except.toBool]
  have hskipped : ∀ clip : Clip, clip.isAvailable none = false ↔ clip.source = none := by
    intro clip
    cases hsource : clip.source <;> simp [Clip.isAvailable, hsource]
  rw [isOk_compile]
  constructor
  · rintro ⟨h, hdata⟩
    constructor
    · exact {
        hidden := List.forall_mem_map.2 fun _ _ _ _ => rfl
        skipped := by
          rw [requiredClips, layers_masked, List.map_map]
          exact List.forall_mem_map.2 fun _ _ _ => rfl
        heard := heard_masked.2 h.heard
        anchored := List.forall_mem_map.2 h.anchored
        sized := List.forall_mem_map.2 h.sized }
    · exact {
        hidden := h.hidden
        skipped := fun clip hclip hsource => h.skipped clip hclip ((hskipped clip).2 hsource)
        texts := fun o ho => (htexts o).1 (hdata o ho) }
  · rintro ⟨h, hwritable⟩
    constructor
    · exact {
        hidden := hwritable.hidden
        skipped := fun clip hclip hlost =>
          hwritable.skipped clip hclip ((hskipped clip).1 hlost)
        heard := heard_masked.1 h.heard
        anchored := List.forall_mem_map.1 h.anchored
        sized := List.forall_mem_map.1 h.sized }
    · exact fun o ho => (htexts o).2 (hwritable.texts o ho)

theorem sameOutline_iff {x y : Except Fault (Program Binary64)} :
    SameOutline x y ↔ (x.isOk = true ↔ y.isOk = true) ∧
      ∀ p p', x = .ok p → y = .ok p' → p.outline = p'.outline := by
  constructor
  · rintro (⟨e, e'⟩ | h)
    · refine ⟨Iff.rfl, ?_⟩
      rintro _ _ ⟨⟩
    · refine ⟨Iff.rfl, ?_⟩
      rintro _ _ ⟨⟩ ⟨⟩
      exact h
  · rintro ⟨hok, houtline⟩
    cases x with
    | error e =>
      cases y with
      | error e' => exact .failed e e'
      | ok p' => cases hok.2 rfl
    | ok p =>
      cases y with
      | error e' => cases hok.1 rfl
      | ok p' => exact .compiled (houtline p p' rfl rfl)

theorem outline_eq (h : t.masked = t'.masked) (hp : c.compile t quality none = .ok p)
    (hp' : c.compile t' quality none = .ok p') : p.outline = p'.outline := by
  have hcompilable := (isOk_compile_masked.1 (isOk_iff.2 ⟨p, hp⟩)).1
  have hok : (c.compile t.masked quality none).isOk = true :=
    isOk_compile.2 ⟨hcompilable, List.forall_mem_map.2 fun _ _ => rfl⟩
  obtain ⟨masked, hmasked⟩ := isOk_iff.1 hok
  have heq : p.masked = p'.masked :=
    (masked_of_compile hp hmasked).symm.trans (masked_of_compile hp' (h ▸ hmasked))
  rw [← p.outline_masked, heq, p'.outline_masked]

theorem file_of_ofOverlay {index : Nat} {o : TextOverlay} {caption : Caption}
    (h : Caption.ofOverlay canvas index o = .ok caption) :
    caption.file = ⟨captionFile index, o.content.toUTF8⟩ := by
  obtain ⟨data, x, y, size, hdata, -, -, -, rfl⟩ := ofOverlay_eq_ok.1 h
  rw [TextOverlay.content]
  cases htext : o.text <;> rw [htext] at hdata <;> cases hdata <;> rfl

/-- The texts of a timeline stand in the files for them, and nowhere else. -/
theorem compile_blank (h : c.compile t quality none = .ok p) :
    ∃ blank, c.compile t.blank quality none = .ok blank ∧
      p = { blank with sideFiles := textFiles t } := by
  obtain ⟨warnings, stack, top, captions, hwarnings, hstack, hcaptions, rfl⟩ := compile_eq_ok.1 h
  have hblank : List.Forall₂ (IsCaption c.canvas) t.blank.overlays.zipIdx
      (captions.map (·.blank)) := by
    rw [Timeline.blank, List.zipIdx_map, List.forall₂_map_left_iff, List.forall₂_map_right_iff]
    exact hcaptions.imp fun _ _ => ofOverlay_blank
  have hfiles : captions.map (·.file) = textFiles t := by
    have hself : List.Forall₂ Eq t.overlays.zipIdx t.overlays.zipIdx := List.forall₂_refl _
    exact map_eq_map_of_forall₂ hcaptions hself fun _ _ _ hcaption heq =>
      heq ▸ file_of_ofOverlay hcaption
  have hduration : t.blank.totalDuration = t.totalDuration := by
    have hfinishes : t.blank.overlays.map (·.finish) = t.overlays.map (·.finish) := by
      rw [Timeline.blank, List.map_map]
      rfl
    rw [Timeline.totalDuration, Timeline.finishes, hfinishes]
    rfl
  have hstatements : captionStatements top 0 (captions.map (·.blank)) =
      captionStatements top 0 captions :=
    captionStatements_map (f := Caption.blank) (fun _ => rfl) captions top 0
  refine ⟨_, compile_eq_ok.2 ⟨warnings, stack, top, _, hwarnings, hstack, hblank, rfl⟩, ?_⟩
  simp only [Compiler.assemble, hduration, hstatements, hfiles, List.map_map, List.flatMap_map]
  rfl

/-- Timelines with one mask compile to one outline, unless one of them alone cannot be written. -/
theorem compile_masked (h : t.masked = t'.masked) :
    (SameOutline (c.compile t quality none) (c.compile t' quality none) ↔
      (IsCompilable t.masked none → (IsWritable t ↔ IsWritable t'))) ∧
    ∀ p, c.compile t quality none = .ok p → ∃ blank, c.compile t.blank quality none = .ok blank ∧
      p = { blank with sideFiles := textFiles t } := by
  refine ⟨?_, fun p hp => compile_blank hp⟩
  have hok := @isOk_compile_masked c t quality
  have hok' := @isOk_compile_masked c t' quality
  rw [← h] at hok'
  rw [sameOutline_iff, and_iff_left fun p p' => outline_eq h, hok, hok']
  exact and_congr_right_iff

/-- One word for all names, ids, texts and places, but for the name of a clip without a source. -/
def gapTimeline (name : Value) (word : String) : Timeline where
  tracks := [{ id := word, kind := .video, clips := [
    { id := word, start := 0, duration := 2,
      source := some ⟨.text word, .null, .text "video/mp4"⟩ },
    { id := word, start := 2, duration := 1, name }] }]
  overlays := [{ id := word, text := .text word, start := 0, duration := 1 }]

theorem masked_gapTimeline (name name' : Value) (word word' : String) :
    (gapTimeline name word).masked = (gapTimeline name' word').masked := rfl

theorem gapTimeline_outline :
    ∃ p p', ({} : Compiler).compile (gapTimeline (.list [.int 7]) "one") "low" none = .ok p ∧
      ({} : Compiler).compile (gapTimeline "gap" "two;[outv]") "low" none = .ok p' ∧
      p.outline = p'.outline := by
  have hok : (({} : Compiler).compile (gapTimeline (.list [.int 7]) "one") "low" none).isOk =
      true := by decide +kernel
  have hok' : (({} : Compiler).compile (gapTimeline "gap" "two;[outv]") "low" none).isOk =
      true := by decide +kernel
  have hwritable : IsWritable _ ↔ IsWritable _ :=
    iff_of_true (isOk_compile_masked.1 hok).2 (isOk_compile_masked.1 hok').2
  have hsame : SameOutline (({} : Compiler).compile (gapTimeline (.list [.int 7]) "one") "low" none)
      (({} : Compiler).compile (gapTimeline "gap" "two;[outv]") "low" none) :=
    (compile_masked (masked_gapTimeline _ _ _ _)).1.2 fun _ => hwritable
  obtain ⟨p, hp⟩ := isOk_iff.1 hok
  obtain ⟨p', hp'⟩ := isOk_iff.1 hok'
  exact ⟨p, p', hp, hp', (sameOutline_iff.1 hsame).2 p p' hp hp'⟩

/-- A number too long to be written, as the name of a clip that is left out. -/
theorem gapTimeline_not_sameOutline :
    (gapTimeline (.int (10 ^ 4300)) "one").masked = (gapTimeline "gap" "one").masked ∧
      ¬ SameOutline (({} : Compiler).compile (gapTimeline (.int (10 ^ 4300)) "one") "low" none)
        (({} : Compiler).compile (gapTimeline "gap" "one") "low" none) := by
  have hfails : (({} : Compiler).compile (gapTimeline (.int (10 ^ 4300)) "one") "low" none).isOk =
      false := by decide +kernel
  have hok : (({} : Compiler).compile (gapTimeline "gap" "one") "low" none).isOk = true := by
    decide +kernel
  refine ⟨masked_gapTimeline _ _ _ _, fun hsame => ?_⟩
  have hboth := (sameOutline_iff.1 hsame).1.2 hok
  rw [hfails] at hboth
  cases hboth

end Montage.Graph
