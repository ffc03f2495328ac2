import Montage.Proofs.Export.Workspace
import Montage.Proofs.Graph.Decoding
import Montage.Proofs.Graph.DrawTexts

/-!
# The text of a program reads back

Whatever a timeline says, the program that it compiles to is legible, and it stays so when fonts and
sounds are dropped: its text, which it has unless a number in it has too many digits, gives back every
statement, with the times as they were printed (`compile_readGraph`).
-/

namespace Montage.Graph

variable {p p' : Program Binary64}

/-- A change to a program for something that was not found. -/
inductive Edit where
  | dropFont (font : String)
  | dropSound (index : Int)

def Program.edit {τ : Type} (p : Program τ) : Edit → Program τ
  | .dropFont font => p.dropFont font
  | .dropSound index => p.dropSound index

/-- The statements of a program with their times to three places. -/
def Program.printed (p : Program Binary64) : List (Statement String) :=
  p.statements.map (·.map Timecode.graphText)

structure Program.IsLegible (p : Program Binary64) : Prop where
  statements : ∀ s ∈ p.printed, s.IsLegible
  canvas : ∃ s ∈ p.statements, s.inputs = [] ∧ s.output ≠ .finalSound

/-! ### Fields -/

theorem isField_ofList {cs : List Char} (h : ∀ c ∈ cs, isFieldChar c = true) :
    IsField (.ofList cs) := by
  rwa [IsField, String.toList_ofList]

theorem isFieldChar_of_mem_decimalPadded {width n : Nat} {c : Char}
    (hc : c ∈ Text.decimalPadded width n) : isFieldChar c = true := by
  rcases List.mem_append.1 hc with hfill | hdigit
  · rw [(List.mem_replicate.1 hfill).2]
    decide
  · exact Reader.isFieldChar_of_isDigit (Label.isDigit_of_mem_toDigits hdigit)

theorem isFieldChar_of_mem_signText {negative : Bool} {c : Char}
    (hc : c ∈ Binary64.signText negative) : isFieldChar c = true := by
  cases negative with
  | true => rw [List.mem_singleton.1 hc]; decide
  | false => cases hc

theorem isField_fixed (places : Nat) (x : Binary64) : IsField (x.fixed places) := by
  have hword : ∀ c ∈ "nan".toList ++ "inf".toList, isFieldChar c = true :=
    List.all_eq_true.1 (by decide)
  refine isField_ofList fun c hc => ?_
  cases x with
  | nan => exact hword c (List.mem_append_left _ hc)
  | infinite s =>
    rcases List.mem_append.1 hc with hsign | hinf
    · exact isFieldChar_of_mem_signText hsign
    · exact hword c (List.mem_append_right _ hinf)
  | finite s units h =>
    rcases List.mem_append.1 hc with hc | hfraction
    · rcases List.mem_append.1 hc with hsign | hwhole
      · exact isFieldChar_of_mem_signText hsign
      · exact isFieldChar_of_mem_decimalPadded (List.mem_of_mem_take hwhole)
    · split at hfraction
      · cases hfraction
      · rcases List.mem_cons.1 hfraction with rfl | hdigit
        · decide
        · exact isFieldChar_of_mem_decimalPadded (List.mem_of_mem_drop hdigit)

theorem isField_graphText (x : Binary64) : IsField (Timecode.graphText x) := by
  unfold Timecode.graphText
  dsimp only
  split
  · have hzero : ∀ c ∈ "0.000".toList, isFieldChar c = true :=
      List.all_eq_true.1 (by decide)
    exact hzero
  · exact isField_fixed 3 x

theorem isField_of_isToken {allowed : Char → Bool}
    (hallowed : ∀ c, allowed c = true → isStyleChar c = true) {s : String}
    (h : isToken allowed s.toList = true) : IsField s := by
  intro c hc
  rcases mem_of_isToken h hc with hword | rfl
  · simp [isFieldChar, hallowed c hword]
  · decide

theorem isField_of_styleToken? {v : Value} {color : String} (h : styleToken? v = some color) :
    IsField color := by
  cases v with
  | text s =>
    rw [styleToken?] at h
    split at h
    · rename_i htoken
      obtain rfl := Option.some.inj h
      exact isField_of_isToken (fun _ => id) htoken
    · cases h
  | _ => cases h

theorem isStyleChar_of_isFontChar {c : Char} (h : isFontChar c = true) : isStyleChar c = true := by
  have hmarks : ∀ d ∈ "_-".toList, "_.#@-".toList.contains d = true :=
    List.all_eq_true.1 (by decide)
  rcases Bool.or_eq_true_iff.1 h with hword | hmark
  · simp [isStyleChar, hword]
  · simp only [isStyleChar, hmarks c (List.contains_iff_mem.1 hmark), Bool.or_true]

theorem isField_of_fontToken? {v : Value} {font : String} (h : fontToken? v = some font) :
    IsField font := by
  cases v with
  | text s =>
    rw [fontToken?] at h
    split at h
    · rename_i htoken
      obtain rfl := Option.some.inj h
      exact isField_of_isToken (fun _ => isStyleChar_of_isFontChar) htoken
    · cases h
  | _ => cases h

theorem isField_colorOf (o : TextOverlay) : IsField (colorOf o).value := by
  have hdefault : ∀ c ∈ defaultColor.toList, isFieldChar c = true :=
    List.all_eq_true.1 (by decide)
  unfold colorOf
  cases hcolor : styleToken? o.color with
  | none => exact hdefault
  | some color => exact isField_of_styleToken? hcolor

theorem isField_fontFile (o : TextOverlay) : IsField (fontFile (fontOf o).value) := by
  have hdefault : ∀ c ∈ defaultFont.toList, isFieldChar c = true :=
    List.all_eq_true.1 (by decide)
  have haround : ∀ c ∈ ['f', 'o', 'n', 't'] ++ ['.', 't', 't', 'f'], isFieldChar c = true :=
    List.all_eq_true.1 (by decide)
  have hfont : IsField (fontOf o).value := by
    unfold fontOf
    split
    · exact hdefault
    · cases hfont : fontToken? o.font with
      | none => exact hdefault
      | some font => exact isField_of_fontToken? hfont
  intro c hc
  rw [toList_fontFile, List.mem_append, List.mem_append] at hc
  rcases hc with hbefore | hname | hafter
  · exact haround c (List.mem_append_left _ hbefore)
  · exact hfont c hname
  · exact haround c (List.mem_append_right _ hafter)

theorem isField_captionFile (index : Nat) : IsField (captionFile index) := by
  have haround : ∀ c ∈ "overlay_text_".toList ++ ['.', 't', 'x', 't'], isFieldChar c = true :=
    List.all_eq_true.1 (by decide)
  intro c hc
  rw [toList_captionFile, List.mem_append, List.mem_append] at hc
  rcases hc with hbefore | hdigit | hafter
  · exact haround c (List.mem_append_left _ hbefore)
  · exact Reader.isFieldChar_of_isDigit (Label.isDigit_of_mem_toDigits hdigit)
  · exact haround c (List.mem_append_right _ hafter)

/-! ### Filters and statements -/

theorem isLegible_drawText {d : DrawText Binary64} (htextFile : IsField d.textFile)
    (hcolor : IsField d.color) (hfont : ∀ file ∈ d.fontFile, IsField file) :
    ((Filter.drawText d).map Timecode.graphText).IsLegible where
  not_gate := nofun
  fields := by
    intro s hs
    simp only [Filter.map, DrawText.map, Filter.fields, Window.map, Window.fields, List.mem_append,
      List.mem_cons, List.not_mem_nil, or_false, Option.mem_toList] at hs
    rcases hs with (rfl | rfl | hfile) | rfl | rfl
    · exact htextFile
    · exact hcolor
    · exact hfont s hfile
    · exact isField_graphText _
    · exact isField_graphText _

/-- Times apart, only colours and drawn texts have fields. -/
theorem isLegible_map {f : Filter Binary64} (hgate : ∀ w, f ≠ .gate w)
    (hcolor : ∀ c w h d, f = .color c w h d → IsField c) (hdraw : f.drawText? = none) :
    (f.map Timecode.graphText).IsLegible where
  not_gate := by
    cases f with
    | gate w => exact absurd rfl (hgate w)
    | _ => exact nofun
  fields := by
    intro s hs
    cases f with
    | color c w h d =>
      rcases List.mem_pair.1 hs with rfl | rfl
      · exact hcolor s w h d rfl
      · exact isField_graphText d
    | trim audio start duration =>
      rcases List.mem_pair.1 hs with rfl | rfl <;> exact isField_graphText _
    | shift offset => rw [List.mem_singleton.1 hs]; exact isField_graphText offset
    | overlay w x y => rcases List.mem_pair.1 hs with rfl | rfl <;> exact isField_graphText _
    | drawText d => cases hdraw
    | gate w => exact absurd rfl (hgate w)
    | _ => cases hs

/-! ### Compiled programs -/

variable {c : Compiler} {t : Timeline} {quality : Value} {assets : Option Assets}

theorem Role.color_eq {s : Statement Binary64} (h : Role c t assets s) :
    s.filters ≠ [] ∧ ∀ f ∈ s.filters, ∀ name w h d, f = .color name w h d → name = canvasColor := by
  cases h with
  | canvas hs => simp +contextual [hs, canvasStatement, eq_comm]
  | @layer q _ hmakes =>
    cases hmakes with
    | visual _ => cases himage : q.isImage <;> simp [Placed.visual, himage]
    | laidOver _ _ _ => simp [Placed.laidOver]
    | delayed _ _ => simp [Placed.delayed]
  | mix _ hs => simp [hs]
  | text _ _ hfilters _ => rcases hfilters with hfilters | ⟨d, hfilters⟩ <;> simp [hfilters]

theorem IsCaption.isLegible {canvas : Canvas} {numbered : TextOverlay × Nat} {caption : Caption}
    (h : IsCaption canvas numbered caption) :
    ((Filter.drawText caption.filter).map Timecode.graphText).IsLegible := by
  obtain ⟨data, x, y, size, -, -, -, -, rfl⟩ := ofOverlay_eq_ok.1 h
  refine isLegible_drawText (isField_captionFile _) (isField_colorOf _) ?_
  rintro file ⟨⟩
  exact isField_fontFile _

theorem isField_canvasColor : IsField canvasColor := by
  have hall : ∀ c ∈ canvasColor.toList, isFieldChar c = true :=
    List.all_eq_true.1 (by decide)
  exact hall

theorem Compiled.isLegible (h : Compiled c t quality assets p) : p.IsLegible := by
  obtain ⟨captions, hcaptions, hdraws, -, -⟩ := h.draws
  refine ⟨fun r hr => ?_, hdraws.canvas⟩
  obtain ⟨s, hs, rfl⟩ := List.mem_map.1 hr
  have hrole := h.role hs
  obtain ⟨hne, hcolor⟩ := hrole.color_eq
  refine ⟨hrole.labels, by simpa [Statement.map] using hne, fun g hg => ?_⟩
  obtain ⟨f, hf, rfl⟩ := List.mem_map.1 hg
  cases hdraw : f.drawText? with
  | none =>
    refine isLegible_map (hrole.filters f hf).1 (fun name w h d heq => ?_) hdraw
    rw [hcolor f hf name w h d heq]
    exact isField_canvasColor
  | some d =>
    have hmem : d ∈ captions.map (·.filter) := by
      rw [← hdraws.drawTexts_eq]
      exact List.mem_flatMap.2 ⟨s, hs, List.mem_filterMap.2 ⟨f, hf, hdraw⟩⟩
    obtain ⟨caption, hcaption, rfl⟩ := List.mem_map.1 hmem
    obtain ⟨numbered, -, hmade⟩ := Outcome.exists_left_of_forall₂ hcaptions hcaption
    cases f with
    | drawText d =>
      obtain rfl := Option.some.inj hdraw
      exact hmade.isLegible
    | _ => cases hdraw

/-! ### Changed programs -/

theorem Filter.IsLegible.dropFont {f : Filter Binary64}
    (h : (f.map Timecode.graphText).IsLegible) (file : String) :
    ((f.dropFont file).map Timecode.graphText).IsLegible := by
  cases f with
  | drawText d =>
    by_cases hfile : d.fontFile = some file
    · have hdrop : (Filter.drawText d).dropFont file = .drawText { d with fontFile := none } := by
        simp [Filter.dropFont, hfile]
      rw [hdrop]
      refine ⟨fun w hw => ?_, fun s hs => h.fields s ?_⟩
      · cases hw
      simp only [Filter.map, DrawText.map, Filter.fields, Option.toList_none, List.mem_append,
        List.mem_cons, List.not_mem_nil, or_false] at hs ⊢
      tauto
    · have hkeep : (Filter.drawText d).dropFont file = .drawText d := by
        simp [Filter.dropFont, hfile]
      rwa [hkeep]
  | _ => exact h

namespace Program.IsLegible

theorem dropFont (h : p.IsLegible) (font : String) : (p.dropFont font).IsLegible := by
  constructor
  · intro r hr
    obtain ⟨_, hdropped, rfl⟩ := List.mem_map.1 hr
    obtain ⟨s, hs, rfl⟩ := List.mem_map.1 hdropped
    obtain ⟨hlabels, hne, hfilters⟩ := h.statements _ (List.mem_map_of_mem hs)
    refine ⟨hlabels, by simpa [Statement.map, Statement.dropFont] using hne, fun g hg => ?_⟩
    obtain ⟨_, hdropped, rfl⟩ := List.mem_map.1 hg
    obtain ⟨f, hf, rfl⟩ := List.mem_map.1 hdropped
    exact (hfilters _ (List.mem_map_of_mem hf)).dropFont _
  · obtain ⟨s, hs, hinputs, houtput⟩ := h.canvas
    exact ⟨s.dropFont (fontFile font), List.mem_map_of_mem hs, hinputs, houtput⟩

theorem muted (h : p.IsLegible) (dropped : List Int) : (p.muted dropped).IsLegible := by
  constructor
  · intro _ hprinted
    obtain ⟨r, hr, rfl⟩ := List.mem_map.1 hprinted
    obtain ⟨s, hs, hleft⟩ := List.mem_filterMap.1 hr
    have hlegible := h.statements _ (List.mem_map_of_mem hs)
    obtain ⟨-, houtput, ⟨-, rfl⟩ | ⟨-, hinputs, hfilters⟩⟩ := left?_eq_some hleft
    · exact hlegible
    · refine ⟨fun l hl => hlegible.labels l ?_, by simp [Statement.map, hfilters], ?_⟩
      · change l ∈ s.output :: s.inputs
        change l ∈ r.output :: r.inputs at hl
        rw [houtput, hinputs] at hl
        exact List.cons_subset_cons _ (List.filter_subset_self _) hl
      · intro g hg
        obtain ⟨f, hf, rfl⟩ := List.mem_map.1 hg
        rw [hfilters] at hf
        rw [List.mem_singleton.1 hf]
        refine ⟨fun w hw => ?_, fun s hs => ?_⟩
        · cases hw
        · cases hs
  · obtain ⟨s, hs, hinputs, houtput⟩ := h.canvas
    exact ⟨s, mem_muted_of_inputs_eq_nil hs hinputs houtput dropped, hinputs, houtput⟩

theorem edit (h : p.IsLegible) (e : Edit) : (p.edit e).IsLegible := by
  cases e with
  | dropFont font => exact h.dropFont font
  | dropSound index =>
    rw [Program.edit, dropSound_eq]
    exact h.muted [index]

theorem foldl_edit (h : p.IsLegible) (edits : List Edit) : (edits.foldl Program.edit p).IsLegible := by
  induction edits generalizing p with
  | nil => exact h
  | cons e edits ih => exact ih (h.edit e)

theorem resolveStatements_eq (h : p.IsLegible) :
    p.resolveStatements = if p.hasText then .ok p.printed else .error (.misuse .value) := by
  refine Program.resolveStatements_eq fun s hs f hf w hgate => ?_
  obtain ⟨-, -, hfilters⟩ := h.statements _ (List.mem_map_of_mem hs)
  refine (hfilters _ (List.mem_map_of_mem hf)).not_gate (w.map Timecode.graphText) ?_
  rw [hgate]
  rfl

theorem readGraph_eq (h : p.IsLegible) : readGraph (graphText p.printed) = some p.printed := by
  obtain ⟨s, hs, -, -⟩ := h.canvas
  have hne : p.printed ≠ [] := List.ne_nil_of_mem (List.mem_map_of_mem hs)
  exact readGraph_graphText hne h.statements

/-- Programs with the same text differ at most in what their times lose when they are printed. -/
theorem printed_inj (h : p.IsLegible) (h' : p'.IsLegible)
    (htext : graphText p.printed = graphText p'.printed) : p.printed = p'.printed := by
  have hread := h.readGraph_eq
  rw [htext, h'.readGraph_eq] at hread
  exact (Option.some.inj hread).symm

end Program.IsLegible

/-- A compiled program, changed in any way for lack of fonts or sounds, has a text when its numbers can
be written, and no other. The text reads back as the statements. -/
theorem compile_readGraph (h : c.compile t quality assets = .ok p) (edits : List Edit) :
    let p' := edits.foldl Program.edit p
    (p'.resolveStatements = if p'.hasText then .ok p'.printed else .error (.misuse .value)) ∧
      readGraph (graphText p'.printed) = some p'.printed := by
  have hlegible := (Compiled.of_compile h).isLegible.foldl_edit edits
  exact ⟨hlegible.resolveStatements_eq, hlegible.readGraph_eq⟩

/-- The sample has two texts in the usual font, and its song is input 3. -/
theorem sampleTimeline_readGraph :
    ∃ p p', ({} : Compiler).compile sampleTimeline (.text "high") (some sampleAssets) = .ok p ∧
      (p.dropFont "Arial").dropSound 3 = p' ∧ p'.resolveStatements = .ok p'.printed ∧
      readGraph (graphText p'.printed) = some p'.printed := by
  have hcheck : (({} : Compiler).compile sampleTimeline (.text "high") (some sampleAssets)).toOption.any
      (fun p => ((p.dropFont "Arial").dropSound 3).hasText) = true := by
    decide +kernel
  obtain ⟨p, hp, htext⟩ := Outcome.exists_ok_of_any hcheck
  obtain ⟨hprinted, hread⟩ := compile_readGraph hp [.dropFont "Arial", .dropSound 3]
  exact ⟨p, _, hp, rfl, hprinted.trans (if_pos htext), hread⟩

/-- A canvas whose width can just be written. -/
def wideCompiler : Compiler where
  canvas := { width := Nat.pow 10 (Text.maxIntDigits - 1) }

/-- A text ten canvases to the right. -/
def farTimeline : Timeline where
  tracks := []
  overlays := [{ id := "far", text := "far", start := 0, duration := 1, x := 1000 }]

/-- The place of the text cannot be written, so that no reader is given a text of the program. -/
theorem farTimeline_not_readGraph :
    ¬ ∃ read : String → Option (List (Statement String)), ∀ c t quality assets p,
      Compiler.compile c t quality assets = .ok p →
        (p.resolveStatements.map graphText).toOption.bind read = some p.printed := by
  rintro ⟨read, hread⟩
  have hcheck : (wideCompiler.compile farTimeline).toOption.any (fun p => !p.hasText) = true := by
    decide +kernel
  obtain ⟨p, hp, htext⟩ := Outcome.exists_ok_of_any hcheck
  have hlegible := (Compiled.of_compile hp).isLegible
  have htext : p.hasText = false := by simpa using htext
  have hsome := hread _ _ _ _ p hp
  rw [hlegible.resolveStatements_eq, htext] at hsome
  cases hsome

end Montage.Graph
