import Mathlib.Data.List.Infix
import Montage.Proofs.Export.FileNames
import Montage.Proofs.Export.Supply
import Montage.Proofs.Render.Parts

/-!
# The workspace of an export

The files that are written for an export and the names in its program are the same
(`prepareExport_isClosed`): what the engine is told to read is there, and nothing else is.
-/

namespace Montage

open Montage.Graph Session

/-- All files that are written for a run. -/
def Supplied.files (x : Supplied) : Payloads :=
  x.payloads ++ x.program.sideFiles.map fun file => (file.name, file.data)

/-- A program runs on files of which each has a plain name of its own, and names these and no others.
A text is drawn in the font that it asks for when there is a file for that font. -/
structure IsClosed (font? : String → Option ByteArray) (t : Timeline) (x : Supplied)
    (p : Program Binary64) : Prop where
  names_nodup : (x.files.map Prod.fst).Nodup
  names_plain : ∀ file ∈ x.files, IsPlainName file.1
  output : ∃ e, p.encode = some e ∧ IsPlainName e.outputName ∧ ∀ file ∈ x.files, file.1 ≠ e.outputName
  printed : p.hasText = true → ∃ words, p.arguments = .ok words ∧
    valuesOf "-i" words = p.inputs.map (·.name) ∧
    valuesOf "-filter_complex" words = [graphText (p.statements.map (·.map Timecode.graphText))]
  /-- Without a text for its numbers, a program is not given to the engine. -/
  unprinted : p.hasText = false → p.arguments = .error (.misuse .value)
  /-- The files are those of the inputs and those that the texts name. -/
  referenced : ∀ name, name ∈ x.files.map Prod.fst ↔
    name ∈ p.inputs.map (·.name) ∨ ∃ d ∈ p.drawTexts, d.textFile = name ∨ d.fontFile = some name
  texts : List.Forall₂ (fun numbered d => d.textFile = captionFile numbered.2 ∧
    d.fontFile = (font? (fontOf numbered.1).value).map fun _ => fontFile (fontOf numbered.1).value)
    t.overlays.zipIdx p.drawTexts
  font_bytes : ∀ o ∈ t.overlays, ∀ data, font? (fontOf o).value = some data →
    x.files.filter (·.1 = fontFile (fontOf o).value) = [(fontFile (fontOf o).value, data)]
  fonts_nodup : p.fonts.Nodup
  fonts_iff : ∀ font, font ∈ p.fonts ↔ ∃ d ∈ p.drawTexts, d.fontFile = some (fontFile font)
  complete : Renderer.missing p x.payloads = []

/-! ### What changes of a program leave alone -/

namespace Graph

theorem foldl_dropFont_rest (missing : List String) (p : Program Binary64) :
    missing.foldl Program.dropFont p = { p with
      statements := (missing.foldl Program.dropFont p).statements
      fonts := p.fonts.diff missing
      warnings := (missing.foldl Program.dropFont p).warnings } := by
  induction missing generalizing p with
  | nil => rfl
  | cons font missing ih =>
    rw [List.diff_cons]
    exact ih (p.dropFont font)

theorem Compiled.outputName_eq {c : Compiler} {t : Timeline} {quality : Value}
    {assets : Option Assets} {p : Program Binary64} (h : Compiled c t quality assets p) :
    p.encode.map (·.outputName) = some c.outputName := by
  cases h
  rfl

theorem Compiled.payloadNames_eq {c : Compiler} {t : Timeline} {quality : Value}
    {assets : Option Assets} {p : Program Binary64} (h : Compiled c t quality assets p) :
    p.payloadNames = p.inputs.map (·.name) := by
  cases h
  rfl

/-- What the compiler has for an overlay: files by its number and its font. -/
theorem IsCaption.fileNames {canvas : Canvas} {numbered : TextOverlay × Nat} {caption : Caption}
    (h : IsCaption canvas numbered caption) :
    caption.file.name = captionFile numbered.2 ∧ caption.font = (fontOf numbered.1).value ∧
      caption.filter.textFile = captionFile numbered.2 ∧
      caption.filter.fontFile = some (fontFile (fontOf numbered.1).value) := by
  obtain ⟨data, x, y, size, -, -, -, -, rfl⟩ := ofOverlay_eq_ok.1 h
  exact ⟨rfl, rfl, rfl, rfl⟩

end Graph

/-! ### Files by name -/

section Closed

variable {font? : String → Option ByteArray} {fonts : List String}

theorem map_fst_fontPayloads :
    (fontPayloads font? fonts).map Prod.fst =
      (fonts.filter fun font => (font? font).isSome).map fontFile := by
  rw [fontPayloads, List.map_filterMap, ← List.filterMap_eq_map, List.filterMap_filter]
  refine List.filterMap_congr fun font _ => ?_
  cases font? font <;> rfl

theorem mem_missingFonts {font : String} :
    font ∈ missingFonts font? fonts ↔ font ∈ fonts ∧ font? font = none := by
  simp [missingFonts]

theorem fontFile_without {d : DrawText Binary64} {font : String}
    (hd : d.fontFile = some (fontFile font)) (hfont : font ∈ fonts) :
    (d.without (missingFonts font? fonts)).fontFile = (font? font).map fun _ => fontFile font := by
  have hmem : d.fontFile ∈ (missingFonts font? fonts).map (fun font => some (fontFile font)) ↔
      font? font = none := by
    rw [hd, List.mem_map]
    constructor
    · rintro ⟨other, hother, heq⟩
      obtain rfl := fontFile_injective (Option.some.inj heq)
      exact (mem_missingFonts.1 hother).2
    · exact fun hnone => ⟨font, mem_missingFonts.2 ⟨hfont, hnone⟩, rfl⟩
  unfold DrawText.without
  cases hfound : font? font with
  | none => rw [if_pos (hmem.2 hfound)]; rfl
  | some data => rw [if_neg (by simp [hmem, hfound]), hd]; rfl

theorem textFile_without (missing : List String) (d : DrawText Binary64) :
    (d.without missing).textFile = d.textFile := by
  unfold DrawText.without
  split <;> rfl

theorem nodup_eraseDups (fonts : List String) : fonts.eraseDups.Nodup := by
  match fonts with
  | [] => exact .nil
  | font :: rest =>
    rw [List.eraseDups_cons, List.nodup_cons]
    exact ⟨by simp [List.mem_eraseDups], nodup_eraseDups (rest.filter fun other => !other == font)⟩
termination_by fonts.length
decreasing_by exact Nat.lt_succ_of_le (List.length_filter_le _ _)

theorem map_eq_of_forall₂ {α β γ : Type} {f : α → γ} {g : β → γ} {as : List α} {bs : List β}
    (h : List.Forall₂ (fun a b => g b = f a) as bs) : bs.map g = as.map f := by
  induction h with
  | nil => rfl
  | cons hfirst _ ih => rw [List.map_cons, List.map_cons, hfirst, ih]

theorem exists_mem_zipIdx {α : Type} {a : α} {as : List α} (ha : a ∈ as) :
    ∃ i, (a, i) ∈ as.zipIdx := by
  obtain ⟨i, hi, hget⟩ := List.mem_iff_getElem.1 ha
  exact ⟨i, List.mk_mem_zipIdx_iff_getElem?.2 (List.getElem?_eq_some_iff.2 ⟨hi, hget⟩)⟩

theorem filter_of_nodup {files : Payloads} (hnodup : (files.map Prod.fst).Nodup) {name : String}
    {data : ByteArray} (hmem : (name, data) ∈ files) : files.filter (·.1 = name) = [(name, data)] := by
  induction files with
  | nil => cases hmem
  | cons file rest ih =>
    obtain ⟨hfresh, hrest⟩ := List.nodup_cons.1 hnodup
    rcases List.mem_cons.1 hmem with rfl | hmem
    · have hnone : rest.filter (·.1 = name) = [] := by
        refine List.filter_eq_nil_iff.2 fun other hother heq => hfresh ?_
        exact List.mem_map.2 ⟨other, hother, of_decide_eq_true heq⟩
      simp [hnone]
    · have hne : file.1 ≠ name := fun heq => hfresh (List.mem_map.2 ⟨_, hmem, heq.symm⟩)
      simp [hne, ih hrest hmem]

theorem disjoint_of_initials {xs ys : List String} {cs ds : List Char}
    (hxs : ∀ name ∈ xs, initials name = cs) (hys : ∀ name ∈ ys, initials name = ds)
    (hne : cs ≠ ds) : xs.Disjoint ys :=
  fun name hx hy => hne ((hxs name hx).symm.trans (hys name hy))

end Closed

section Prepared

variable {font? : String → Option ByteArray} {t : Timeline} {canvas : Canvas} {quality : Value}
  {assets : Assets} {p : Program Binary64} {x : Supplied}
  (hcompiled : Compiled { canvas } t quality (some assets) p)
  (hprogram : x.program = (missingFonts font? p.fonts).foldl Program.dropFont p)
  (hpayloads : x.payloads = inputPayloads p assets ++ fontPayloads font? p.fonts)

section Compiled

include hcompiled

theorem mem_fonts_iff {font : String} : font ∈ p.fonts ↔ ∃ o ∈ t.overlays, (fontOf o).value = font := by
  obtain ⟨captions, hcaptions, -, -, hfonts⟩ := hcompiled.draws
  have htokens : captions.map (·.font) = t.overlays.zipIdx.map fun numbered =>
      (fontOf numbered.1).value := map_eq_of_forall₂ (hcaptions.imp fun _ _ h => h.fileNames.2.1)
  rw [hfonts, List.mem_eraseDups, htokens, ← Function.comp_def (fun o => (fontOf o).value),
    ← List.map_map, List.zipIdx_map_fst, List.mem_map]

theorem nodup_fonts : p.fonts.Nodup := by
  obtain ⟨captions, -, -, -, hfonts⟩ := hcompiled.draws
  rw [hfonts]
  exact nodup_eraseDups _

theorem map_name_sideFiles :
    p.sideFiles.map (·.name) = t.overlays.zipIdx.map fun numbered => captionFile numbered.2 := by
  obtain ⟨captions, hcaptions, -, hfiles, -⟩ := hcompiled.draws
  rw [hfiles, List.map_map]
  exact map_eq_of_forall₂ (hcaptions.imp fun _ _ h => h.fileNames.1)

theorem exists_texts (font? : String → Option ByteArray) : ∃ texts, p.Draws texts ∧
    List.Forall₂ (fun numbered d => d.textFile = captionFile numbered.2 ∧
      d.fontFile = (font? (fontOf numbered.1).value).map fun _ => fontFile (fontOf numbered.1).value)
      t.overlays.zipIdx (texts.map (·.without (missingFonts font? p.fonts))) := by
  obtain ⟨captions, hcaptions, hdraws, -, -⟩ := hcompiled.draws
  refine ⟨captions.map (·.filter), hdraws, ?_⟩
  rw [List.map_map, List.forall₂_map_right_iff]
  refine Outcome.forall₂_imp_of_mem hcaptions fun numbered hnumbered caption _ h => ?_
  obtain ⟨-, -, htext, hfont⟩ := h.fileNames
  have hmem : (fontOf numbered.1).value ∈ p.fonts :=
    (mem_fonts_iff hcompiled).2 ⟨numbered.1, List.fst_mem_of_mem_zipIdx hnumbered, rfl⟩
  exact ⟨(textFile_without _ _).trans htext, fontFile_without hfont hmem⟩

end Compiled

include hcompiled hprogram hpayloads

theorem map_fst_files : x.files.map Prod.fst = p.inputs.map (·.name) ++
    ((p.fonts.filter fun font => (font? font).isSome).map fontFile ++
      t.overlays.zipIdx.map fun numbered => captionFile numbered.2) := by
  have hsides : x.program.sideFiles = p.sideFiles := by rw [hprogram, foldl_dropFont_rest]
  rw [Supplied.files, hsides, List.map_append, List.map_map, hpayloads, List.map_append,
    map_fst_inputPayloads hcompiled, map_fst_fontPayloads, List.append_assoc,
    ← map_name_sideFiles hcompiled]
  rfl

theorem file_cases {file : String × ByteArray} (hfile : file ∈ x.files) :
    (∃ q : Placed, file.1 = q.input.name) ∨
      (∃ o : TextOverlay, file.1 = fontFile (fontOf o).value) ∨ ∃ i, file.1 = captionFile i := by
  have hname := List.mem_map_of_mem (f := Prod.fst) hfile
  rw [map_fst_files hcompiled hprogram hpayloads, hcompiled.inputs_eq, List.map_map] at hname
  rcases List.mem_append.1 hname with hinput | hname
  · obtain ⟨q, -, hq⟩ := List.mem_map.1 hinput
    exact .inl ⟨q, hq.symm⟩
  · rcases List.mem_append.1 hname with hfont | htext
    · obtain ⟨font, hfont, hname⟩ := List.mem_map.1 hfont
      obtain ⟨o, -, rfl⟩ := (mem_fonts_iff hcompiled).1 (List.mem_filter.1 hfont).1
      exact .inr (.inl ⟨o, hname.symm⟩)
    · obtain ⟨numbered, -, hname⟩ := List.mem_map.1 htext
      exact .inr (.inr ⟨numbered.2, hname.symm⟩)

theorem isPlainName_of_mem_files {file : String × ByteArray} (hfile : file ∈ x.files) :
    IsPlainName file.1 := by
  rcases file_cases hcompiled hprogram hpayloads hfile with ⟨q, h⟩ | ⟨o, h⟩ | ⟨i, h⟩ <;> rw [h]
  · exact isPlainName_name q
  · exact isPlainName_fontFile o
  · exact isPlainName_captionFile i

/-- No file stands where the output goes. -/
theorem ne_output_of_mem_files {file : String × ByteArray} (hfile : file ∈ x.files) :
    file.1 ≠ "output.mp4" := by
  have hstart : initials "output.mp4" = ['o', 'u'] := rfl
  refine ne_of_initials ?_
  rcases file_cases hcompiled hprogram hpayloads hfile with ⟨q, h⟩ | ⟨o, h⟩ | ⟨i, h⟩ <;> rw [h, hstart]
  · rw [initials_name]; decide
  · rw [initials_fontFile]; decide
  · rw [initials_captionFile]; decide

theorem nodup_map_fst_files : (x.files.map Prod.fst).Nodup := by
  have hinputs : ∀ name ∈ p.inputs.map (·.name), initials name = ['i', 'n'] := by
    intro name hname
    rw [hcompiled.inputs_eq, List.map_map] at hname
    obtain ⟨q, -, rfl⟩ := List.mem_map.1 hname
    exact initials_name q
  have hfonts : ∀ name ∈ (p.fonts.filter fun font => (font? font).isSome).map fontFile,
      initials name = ['f', 'o'] := by
    intro name hname
    obtain ⟨font, -, rfl⟩ := List.mem_map.1 hname
    exact initials_fontFile font
  have htexts : ∀ name ∈ t.overlays.zipIdx.map fun numbered => captionFile numbered.2,
      initials name = ['o', 'v'] := by
    intro name hname
    obtain ⟨numbered, -, rfl⟩ := List.mem_map.1 hname
    exact initials_captionFile numbered.2
  have hnumbers : (t.overlays.zipIdx.map fun numbered => captionFile numbered.2).Nodup := by
    rw [← Function.comp_def captionFile, ← List.map_map, List.zipIdx_map_snd]
    exact (List.nodup_range').map captionFile_injective
  rw [map_fst_files hcompiled hprogram hpayloads]
  refine List.nodup_append'.2 ⟨nodup_names hcompiled, List.nodup_append'.2 ⟨?_, hnumbers, ?_⟩, ?_⟩
  · exact ((nodup_fonts hcompiled).filter _).map fontFile_injective
  · exact disjoint_of_initials hfonts htexts (by decide)
  · rw [List.disjoint_append_right]
    exact ⟨disjoint_of_initials hinputs hfonts (by decide),
      disjoint_of_initials hinputs htexts (by decide)⟩

omit hprogram in
theorem fontFile_data_mem_files {o : TextOverlay} (ho : o ∈ t.overlays) {data : ByteArray}
    (hdata : font? (fontOf o).value = some data) :
    (fontFile (fontOf o).value, data) ∈ x.files := by
  have hfont : (fontOf o).value ∈ p.fonts := (mem_fonts_iff hcompiled).2 ⟨o, ho, rfl⟩
  have hpayload : (fontFile (fontOf o).value, data) ∈ fontPayloads font? p.fonts :=
    List.mem_filterMap.2 ⟨_, hfont, by rw [hdata]; rfl⟩
  rw [Supplied.files, hpayloads]
  exact List.mem_append_left _ (List.mem_append_right _ hpayload)

theorem name_mem_files_iff {texts : List (DrawText Binary64)}
    (htexts : List.Forall₂ (fun numbered d => d.textFile = captionFile numbered.2 ∧
      d.fontFile = (font? (fontOf numbered.1).value).map fun _ => fontFile (fontOf numbered.1).value)
      t.overlays.zipIdx texts) (name : String) :
    name ∈ x.files.map Prod.fst ↔
      name ∈ p.inputs.map (·.name) ∨ ∃ d ∈ texts, d.textFile = name ∨ d.fontFile = some name := by
  rw [map_fst_files hcompiled hprogram hpayloads, List.mem_append]
  refine or_congr_right ?_
  rw [List.mem_append]
  constructor
  · rintro (hfont | htext)
    · obtain ⟨font, hfound, rfl⟩ := List.mem_map.1 hfont
      obtain ⟨hmem, hsome⟩ := List.mem_filter.1 hfound
      obtain ⟨data, hdata⟩ := Option.isSome_iff_exists.1 hsome
      obtain ⟨o, ho, rfl⟩ := (mem_fonts_iff hcompiled).1 hmem
      obtain ⟨i, hnumbered⟩ := exists_mem_zipIdx ho
      obtain ⟨d, hd, -, hfile⟩ := Outcome.exists_right_of_forall₂ htexts hnumbered
      exact ⟨d, hd, .inr (by rw [hfile, hdata]; rfl)⟩
    · obtain ⟨numbered, hnumbered, rfl⟩ := List.mem_map.1 htext
      obtain ⟨d, hd, hfile, -⟩ := Outcome.exists_right_of_forall₂ htexts hnumbered
      exact ⟨d, hd, .inl hfile⟩
  · rintro ⟨d, hd, hname⟩
    obtain ⟨numbered, hnumbered, htext, hfont⟩ := Outcome.exists_left_of_forall₂ htexts hd
    rcases hname with rfl | hname
    · exact .inr (List.mem_map.2 ⟨numbered, hnumbered, htext.symm⟩)
    · rw [hfont] at hname
      obtain ⟨data, hdata, rfl⟩ := Option.map_eq_some_iff.1 hname
      refine .inl (List.mem_map_of_mem (List.mem_filter.2 ⟨?_, by rw [hdata]; rfl⟩))
      exact (mem_fonts_iff hcompiled).2 ⟨numbered.1, List.fst_mem_of_mem_zipIdx hnumbered, rfl⟩

omit hprogram in
theorem exists_mem_payloads {name : String} (hname : name ∈ p.inputs.map (·.name)) :
    ∃ data, (name, data) ∈ x.payloads := by
  rw [← map_fst_inputPayloads hcompiled] at hname
  obtain ⟨⟨name, data⟩, hentry, rfl⟩ := List.mem_map.1 hname
  exact ⟨data, hpayloads ▸ List.mem_append_left _ hentry⟩

omit hpayloads in
theorem font_mem_iff {texts : List (DrawText Binary64)}
    (htexts : List.Forall₂ (fun numbered d => d.textFile = captionFile numbered.2 ∧
      d.fontFile = (font? (fontOf numbered.1).value).map fun _ => fontFile (fontOf numbered.1).value)
      t.overlays.zipIdx texts) (font : String) :
    font ∈ x.program.fonts ↔ ∃ d ∈ texts, d.fontFile = some (fontFile font) := by
  rw [hprogram, foldl_dropFont_rest, (nodup_fonts hcompiled).mem_sdiff_iff, mem_missingFonts]
  constructor
  · rintro ⟨hfont, hfound⟩
    obtain ⟨o, ho, rfl⟩ := (mem_fonts_iff hcompiled).1 hfont
    obtain ⟨i, hnumbered⟩ := exists_mem_zipIdx ho
    obtain ⟨d, hd, -, hfile⟩ := Outcome.exists_right_of_forall₂ htexts hnumbered
    refine ⟨d, hd, ?_⟩
    obtain ⟨data, hdata⟩ := Option.ne_none_iff_exists'.1 fun hnone => hfound ⟨hfont, hnone⟩
    rw [hfile, hdata]
    rfl
  · rintro ⟨d, hd, hfile⟩
    obtain ⟨numbered, hnumbered, -, hfont⟩ := Outcome.exists_left_of_forall₂ htexts hd
    rw [hfont] at hfile
    obtain ⟨data, hdata, hname⟩ := Option.map_eq_some_iff.1 hfile
    obtain rfl := fontFile_injective hname
    refine ⟨(mem_fonts_iff hcompiled).2 ⟨numbered.1, List.fst_mem_of_mem_zipIdx hnumbered, rfl⟩, ?_⟩
    simp [hdata]

theorem isClosed_of_prepared (indices : List Int) :
    IsClosed font? t x (indices.foldl Program.dropSound x.program) := by
  obtain ⟨texts, hdraws, htexts⟩ := exists_texts hcompiled font?
  -- Dropping fonts changes the texts, and dropping sounds changes nothing of them.
  have hrun : (indices.foldl Program.dropSound x.program).Draws
      (texts.map (·.without (missingFonts font? p.fonts))) := by
    rw [hprogram]
    exact (hdraws.foldl_dropFont _).foldl_dropSound indices
  have hinputs : (indices.foldl Program.dropSound x.program).inputs = p.inputs := by
    rw [Renderer.foldl_dropSound_rest, hprogram, foldl_dropFont_rest]
  have hfonts : (indices.foldl Program.dropSound x.program).fonts = x.program.fonts := by
    rw [Renderer.foldl_dropSound_rest]
  have hnames : (indices.foldl Program.dropSound x.program).payloadNames = p.inputs.map (·.name) := by
    rw [Renderer.foldl_dropSound_rest, hprogram, foldl_dropFont_rest, hcompiled.payloadNames_eq]
  obtain ⟨e, hencode, houtput⟩ : ∃ e,
      (indices.foldl Program.dropSound x.program).encode = some e ∧ e.outputName = "output.mp4" := by
    refine Option.map_eq_some_iff.1 ?_
    rw [Renderer.map_outputName_foldl_dropSound, hprogram, foldl_dropFont_rest]
    exact hcompiled.outputName_eq
  have hstatements : (indices.foldl Program.dropSound x.program).statements ≠ [] := by
    obtain ⟨s, hs, -⟩ := hrun.canvas
    exact List.ne_nil_of_mem hs
  have hnodup := nodup_map_fst_files hcompiled hprogram hpayloads
  refine ⟨hnodup, ?_, ⟨e, hencode, ?_, ?_⟩, ?_, fun htext => ?_, ?_, ?_, ?_, ?_, ?_, ?_⟩
  · exact fun file hfile => isPlainName_of_mem_files hcompiled hprogram hpayloads hfile
  · rw [houtput]
    exact isPlainName_of_initials (by decide) (by decide)
  · exact fun file hfile => houtput ▸ ne_output_of_mem_files hcompiled hprogram hpayloads hfile
  · exact Program.valuesOf_inputs hencode hstatements hrun.no_gate
  · exact Program.arguments_of_no_text hrun.no_gate htext (by simp [hencode])
  · rw [hinputs, hrun.drawTexts_eq]
    exact name_mem_files_iff hcompiled hprogram hpayloads htexts
  · rw [hrun.drawTexts_eq]
    exact htexts
  · intro o ho data hdata
    exact filter_of_nodup hnodup (fontFile_data_mem_files hcompiled hpayloads ho hdata)
  · rw [hfonts, hprogram, foldl_dropFont_rest]
    exact (nodup_fonts hcompiled).diff
  · rw [hfonts, hrun.drawTexts_eq]
    exact font_mem_iff hcompiled hprogram htexts
  · rw [Renderer.missing, hnames]
    refine List.filter_eq_nil_iff.2 fun name hname => ?_
    simpa using exists_mem_payloads hcompiled hpayloads hname

end Prepared

/-- An export that is ready to run is closed, whatever sounds its driver drops. -/
theorem prepareExport_isClosed {σ : Type} {canvas : Canvas} {t : Timeline} {quality : Value}
    {resolver : Resolver} {s s' : Studio σ} {x : Supplied}
    (h : (prepareExport { canvas } t quality resolver).Ends s x s') (indices : List Int) :
    IsClosed (resolver.fontIn s) t x (indices.foldl Program.dropSound x.program) := by
  obtain ⟨assets, p, hcompiled, hprogram, hpayloads⟩ := prepareExport_eq h
  exact isClosed_of_prepared hcompiled hprogram hpayloads indices

end Montage
