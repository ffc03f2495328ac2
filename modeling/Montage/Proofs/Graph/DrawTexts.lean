import Mathlib.Data.List.Nodup
import Montage.Proofs.Graph.Assembly
import Montage.Proofs.Graph.Muting

/-!
# The texts that a program draws

A compiled program draws the text of each overlay in the font that it asks for. Dropping a font takes
its file out of the texts (`drawTexts_foldl_dropFont`), and dropping sounds leaves them alone
(`Draws.foldl_dropSound`).
-/

namespace Montage.Graph

variable {τ : Type}

def Filter.drawText? : Filter τ → Option (DrawText τ)
  | .drawText d => some d
  | _ => none

def Statement.drawTexts (s : Statement τ) : List (DrawText τ) := s.filters.filterMap (·.drawText?)

def Program.drawTexts (p : Program τ) : List (DrawText τ) := p.statements.flatMap (·.drawTexts)

/-- A text whose font file is none of those of some fonts. -/
def DrawText.without (missing : List String) (d : DrawText τ) : DrawText τ :=
  if d.fontFile ∈ missing.map fun font => some (Graph.fontFile font) then { d with fontFile := none }
  else d

variable {p : Program Binary64} {s : Statement Binary64} {texts : List (DrawText Binary64)}

/-- A program that draws some texts, none of them where sounds are read or mixed, and can be printed. -/
structure Program.Draws (p : Program Binary64) (texts : List (DrawText Binary64)) : Prop where
  drawTexts_eq : p.drawTexts = texts
  silent : ∀ s ∈ p.statements, (∃ index, s.readsSound index = true) ∨ s.output = .finalSound →
    s.drawTexts = []
  no_gate : ∀ s ∈ p.statements, ∀ f ∈ s.filters, ∀ w, f ≠ .gate w
  canvas : ∃ s ∈ p.statements, s.inputs = [] ∧ s.output ≠ .finalSound

/-! ### Fonts -/

theorem drawText?_dropFont (font : String) (f : Filter τ) :
    (f.dropFont (fontFile font)).drawText? = f.drawText?.map (·.without [font]) := by
  cases f with
  | drawText d => simp [Filter.dropFont, Filter.drawText?, DrawText.without]
  | _ => rfl

theorem drawTexts_dropFont (font : String) (s : Statement τ) :
    (s.dropFont (fontFile font)).drawTexts = s.drawTexts.map (·.without [font]) := by
  rw [Statement.drawTexts, Statement.dropFont, List.filterMap_map, Statement.drawTexts,
    List.map_filterMap]
  exact List.filterMap_congr fun f _ => drawText?_dropFont font f

theorem without_without (font : String) (missing : List String) (d : DrawText τ) :
    (d.without [font]).without missing = d.without (font :: missing) := by
  unfold DrawText.without
  by_cases hfont : d.fontFile = some (fontFile font)
  · simp [hfont]
  · simp [hfont]

namespace Program.Draws

theorem dropFont (h : p.Draws texts) (font : String) :
    (p.dropFont font).Draws (texts.map (·.without [font])) where
  drawTexts_eq := by
    rw [← h.drawTexts_eq, drawTexts, drawTexts, Program.dropFont, List.flatMap_map, List.map_flatMap]
    exact List.flatMap_congr fun s _ => drawTexts_dropFont font s
  silent := by
    intro r hr hsound
    obtain ⟨s, hs, rfl⟩ := List.mem_map.1 hr
    rw [drawTexts_dropFont, h.silent s hs hsound]
    rfl
  no_gate := by
    intro r hr f hf w hgate
    obtain ⟨s, hs, rfl⟩ := List.mem_map.1 hr
    obtain ⟨g, hg, rfl⟩ := List.mem_map.1 hf
    cases g with
    | gate w' => exact h.no_gate s hs _ hg w' rfl
    | _ => cases hgate
  canvas := by
    obtain ⟨s, hs, hinputs, houtput⟩ := h.canvas
    exact ⟨s.dropFont (fontFile font), List.mem_map_of_mem hs, hinputs, houtput⟩

theorem foldl_dropFont (h : p.Draws texts) (missing : List String) :
    (missing.foldl Program.dropFont p).Draws (texts.map (·.without missing)) := by
  induction missing generalizing p texts with
  | nil => simpa [DrawText.without] using h
  | cons font missing ih =>
    have hrest := ih (h.dropFont font)
    rw [List.map_map] at hrest
    have hwithout : (DrawText.without missing ∘ DrawText.without [font] :
        DrawText Binary64 → DrawText Binary64) = DrawText.without (font :: missing) :=
      funext (without_without font missing)
    rwa [hwithout] at hrest

/-! ### Sounds -/

theorem drawTexts_of_left? (h : p.Draws texts) {dropped : List Int} {r : Statement Binary64}
    (hs : s ∈ p.statements) (hleft : p.left? dropped s = some r) : r.drawTexts = s.drawTexts := by
  obtain ⟨-, -, ⟨-, rfl⟩ | ⟨hsound, -, hfilters⟩⟩ := left?_eq_some hleft
  · rfl
  · rw [h.silent s hs (.inr hsound), Statement.drawTexts, hfilters]
    rfl

theorem drawTexts_of_left?_none (h : p.Draws texts) {dropped : List Int} (hs : s ∈ p.statements)
    (hleft : p.left? dropped s = none) : s.drawTexts = [] := by
  refine h.silent s hs ?_
  unfold left? at hleft
  split at hleft
  · rename_i hreads
    obtain ⟨index, -, hread⟩ := List.any_eq_true.1 hreads
    exact .inl ⟨index, hread⟩
  · split at hleft
    · rename_i hsound
      exact .inr hsound
    · cases hleft

theorem muted (h : p.Draws texts) (dropped : List Int) : (p.muted dropped).Draws texts where
  drawTexts_eq := by
    rw [← h.drawTexts_eq, drawTexts, drawTexts, Program.muted, List.filterMap_eq_flatMap_toList,
      List.flatMap_assoc]
    refine List.flatMap_congr fun s hs => ?_
    cases hleft : p.left? dropped s with
    | none => exact (h.drawTexts_of_left?_none hs hleft).symm
    | some r => simpa using h.drawTexts_of_left? hs hleft
  silent := by
    intro r hr hsound
    obtain ⟨s, hs, hleft⟩ := List.mem_filterMap.1 hr
    rw [h.drawTexts_of_left? hs hleft]
    obtain ⟨-, houtput, ⟨-, rfl⟩ | ⟨hmix, -, -⟩⟩ := left?_eq_some hleft
    · exact h.silent r hs hsound
    · exact h.silent s hs (.inr hmix)
  no_gate := no_gate_muted h.no_gate dropped
  canvas := by
    obtain ⟨s, hs, hinputs, houtput⟩ := h.canvas
    exact ⟨s, mem_muted_of_inputs_eq_nil hs hinputs houtput dropped, hinputs, houtput⟩

theorem foldl_dropSound (h : p.Draws texts) (indices : List Int) :
    (indices.foldl Program.dropSound p).Draws texts := by
  induction indices generalizing p with
  | nil => exact h
  | cons index indices ih =>
    rw [List.foldl_cons, dropSound_eq]
    exact ih (h.muted [index])

end Program.Draws

/-! ### Compiled programs -/

variable {c : Compiler} {t : Timeline} {quality : Value} {assets : Option Assets}

theorem drawTexts_captionStatements (below : Label) (index : Nat) (captions : List Caption) :
    (captionStatements below index captions).flatMap (·.drawTexts) = captions.map (·.filter) := by
  fun_induction captionStatements below index captions with
  | case1 below index => rfl
  | case2 below index caption => rfl
  | case3 below index caption rest hrest ih =>
    rw [List.flatMap_cons, ih]
    rfl

theorem Placed.Makes.drawTexts_eq {canvas : Canvas} {stage : Nat} {q : Placed}
    (h : q.Makes canvas stage s) : s.drawTexts = [] := by
  cases h with
  | visual _ => cases himage : q.isImage <;> simp [Placed.visual, himage, Statement.drawTexts,
      Filter.drawText?]
  | laidOver _ _ _ => rfl
  | delayed _ _ => rfl

/-- A compiled program has a file, a font and a text for each overlay. -/
theorem Compiled.draws (h : Compiled c t quality assets p) :
    ∃ captions, List.Forall₂ (IsCaption c.canvas) t.overlays.zipIdx captions ∧
      p.Draws (captions.map (·.filter)) ∧ p.sideFiles = captions.map (·.file) ∧
      p.fonts = (captions.map (·.font)).eraseDups := by
  have hgate := h.no_gate
  have hrole := fun s hs => h.role (s := s) hs
  obtain @⟨stack, top, captions, warnings, hstack, hcaptions⟩ := h
  refine ⟨captions, hcaptions, ⟨?_, fun s hs hsound => ?_, hgate, ?_⟩, rfl, rfl⟩
  · have hlayers : stack.flatMap (·.drawTexts) = [] := by
      refine List.flatMap_eq_nil_iff.2 fun s hs => ?_
      obtain ⟨q, -, hmakes⟩ := hstack.makes rfl s hs
      exact hmakes.drawTexts_eq
    generalize hsounds : ((placed assets (layers t)).filter (·.isHeard)).map
      (fun p => Label.audio p.index) = sounds
    have hmix : (mixStatement? sounds).toList.flatMap (·.drawTexts) = [] := by
      cases sounds <;> rfl
    have hcanvas : (canvasStatement c.canvas t.totalDuration).drawTexts = [] := rfl
    simp only [Program.drawTexts, Compiler.assemble, hsounds, List.flatMap_append,
      List.flatMap_cons, hcanvas, hlayers, hmix, drawTexts_captionStatements, List.nil_append]
  · cases hrole s hs with
    | canvas hcanvas => rw [hcanvas]; rfl
    | layer _ hmakes => exact hmakes.drawTexts_eq
    | mix _ hmix => rw [hmix]; rfl
    | text hpoint hinputs _ houtput =>
      exfalso
      rcases hsound with ⟨index, hread⟩ | hsound
      · have hstream : .stream index.toNat .sound ∈ s.inputs := by
          simpa [Statement.reads] using (Bool.and_eq_true_iff.1 hread).2
        rw [hinputs] at hstream
        obtain rfl := List.mem_singleton.1 hstream
        cases hpoint
      · rcases houtput with h | ⟨k, h⟩ <;> rw [h] at hsound <;> cases hsound
  · exact ⟨canvasStatement c.canvas t.totalDuration, by simp [Compiler.assemble], rfl,
      by simp [canvasStatement]⟩

/-- The texts of a compiled program are those of its overlays, in their order. -/
theorem Compiled.forall₂_drawTexts (h : Compiled c t quality assets p)
    {R : TextOverlay → DrawText Binary64 → Prop}
    (hR : ∀ numbered caption, IsCaption c.canvas numbered caption → R numbered.1 caption.filter) :
    List.Forall₂ R t.overlays p.drawTexts := by
  obtain ⟨captions, hcaptions, hdraws, -, -⟩ := h.draws
  rw [hdraws.drawTexts_eq, List.forall₂_map_right_iff, ← List.zipIdx_map_fst 0 t.overlays,
    List.forall₂_map_left_iff]
  exact hcaptions.imp hR

end Montage.Graph
