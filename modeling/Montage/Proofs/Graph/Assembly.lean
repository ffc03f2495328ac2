import Montage.Proofs.Graph.Arguments
import Montage.Proofs.Graph.Reading
import Montage.Proofs.Graph.Wiring

/-!
# The statements of a program together

What the parts of a graph do to labels, taken together: no label is made twice (`Compiled.nodup_outputs`), all
but the last are taken (`Compiled.flow`), and the streams are those of the layers (`Compiled.streams_eq`).
-/

namespace Montage.Graph

/-- The part of a graph in which a label is made: the canvas, the layers, the mix or the texts. -/
def Label.part : Label → Nat
  | .base => 0
  | .visual _ | .stage _ | .audio _ => 1
  | .finalSound => 2
  | _ => 3

variable {c : Compiler} {t : Timeline} {quality : Value} {assets : Option Assets}
  {p : Program Binary64} {ps : List Placed}

theorem wires_canvasStatement (canvas : Canvas) (duration : Binary64) :
    (canvasStatement canvas duration).wires = [] := rfl

theorem isPoint_of_mem_soundLabels {l : Label} (hl : l ∈ ps.flatMap (·.soundLabels)) :
    l.isPoint = true := by
  obtain ⟨p, -, hl⟩ := List.mem_flatMap.1 hl
  unfold Placed.soundLabels at hl
  split at hl
  · obtain rfl := List.mem_singleton.1 hl
    rfl
  · simp at hl

theorem isStream_eq_false {l : Label} (hl : l.isPoint = true) : l.isStream = false := by
  cases l <;> first | rfl | cases hl

theorem isNamed_eq_false {l : Label} (hl : l.isPoint = true) : l.isNamed = false := by
  cases l <;> first | rfl | cases hl

/-- The statements of a program close every label but those at the end. -/
theorem Compiled.flow (h : Compiled c t quality assets p) :
    Flow [] p.statements (.finalPicture :: p.sound.toList) := by
  obtain @⟨stack, top, captions, _, hstack, -⟩ := h
  simp only [Compiler.assemble, map_audio_eq, List.append_assoc]
  generalize hsounds : (placed assets (layers t)).flatMap (·.soundLabels) = sounds
  have hstream : ∀ l ∈ sounds, l.isStream = false := fun l hl =>
    isStream_eq_false (isPoint_of_mem_soundLabels (hsounds ▸ hl))
  have hcanvas : Flow [] [canvasStatement c.canvas t.totalDuration] [.base] :=
    Flow.single (wires_canvasStatement c.canvas t.totalDuration) []
  have hlayers : Flow [.base] stack (top :: sounds) := hsounds ▸ hstack.flow rfl
  have hmix := (mixStatement?_flow hstream).frame [top]
  have htexts : Flow [top] (captionStatements top 0 captions) [.finalPicture] :=
    captionStatements_flow (hstack.isPoint_top rfl)
  refine hcanvas.append (hlayers.append ((hmix.append ?_).perm_left ?_))
  · exact (htexts.frame _).perm_left List.perm_append_comm
  · exact @List.perm_append_comm _ [top] _

/-- The labels of the three parts after the canvas: layers, mix and texts. -/
theorem Stacked.part_eq {stack : List (Statement Binary64)} {top : Label}
    (h : Stacked c.canvas ps 0 .base stack top) : ∀ l ∈ stack.map (·.output), l.part = 1 := by
  intro l hl
  rcases h.output_cases rfl hl with ⟨p, -, rfl | rfl⟩ | ⟨k, -, rfl⟩ <;> rfl

theorem mixStatement?_output (sounds : List Label) :
    ∀ l ∈ (mixStatement? sounds).toList.map (·.output), l = .finalSound := by
  intro l hl
  cases sounds with
  | nil => cases hl
  | cons _ _ => exact List.mem_singleton.1 hl

theorem captionStatements_part {top : Label} (htop : top.isPoint = true)
    (captions : List Caption) :
    ∀ l ∈ (captionStatements top 0 captions).map (·.output), l.part = 3 := by
  intro l hl
  obtain ⟨s, hs, rfl⟩ := List.mem_map.1 hl
  rcases (captionStatements_cases htop s hs).2.2 with h | ⟨k, -, h⟩ <;> rw [h] <;> rfl

/-- The labels of different parts are different, and those of one part were seen to be. -/
theorem Compiled.nodup_outputs (h : Compiled c t quality assets p) :
    (p.statements.map (·.output)).Nodup := by
  obtain @⟨stack, top, captions, _, hstack, -⟩ := h
  have hlayers := hstack.part_eq
  have htexts := captionStatements_part (hstack.isPoint_top rfl) captions
  simp only [Compiler.assemble, List.map_append, List.map_cons, List.append_assoc,
    List.cons_append]
  generalize ((placed assets (layers t)).filter (·.isHeard)).map (fun p => Label.audio p.index) =
    sounds
  have hmix : ∀ l ∈ (mixStatement? sounds).toList.map (·.output), l.part = 2 :=
    fun l hl => mixStatement?_output sounds l hl ▸ rfl
  have hdisjoint : ∀ {xs ys : List Label} {m n : Nat}, m ≠ n → (∀ l ∈ xs, l.part = m) →
      (∀ l ∈ ys, l.part = n) → xs.Disjoint ys :=
    fun hne hxs hys l hx hy => hne ((hxs l hx).symm.trans (hys l hy))
  have htail : ((mixStatement? sounds).toList.map (·.output) ++
      (captionStatements top 0 captions).map (·.output)).Nodup := by
    refine List.nodup_append'.2 ⟨?_, captionStatements_nodup top, ?_⟩
    · cases mixStatement? sounds <;> simp
    · exact hdisjoint (by decide) hmix htexts
  have hlayered := hstack.nodup_outputs rfl nodup_index_placed
  refine List.nodup_cons.2 ⟨?_, List.nodup_append'.2 ⟨hlayered, htail, ?_⟩⟩
  · intro hbase
    have hpart : (canvasStatement c.canvas t.totalDuration).output.part = 0 := rfl
    simp only [List.mem_append] at hbase
    rcases hbase with h | h | h
    · exact absurd (hpart.symm.trans (hlayers _ h)) (by decide)
    · exact absurd (hpart.symm.trans (hmix _ h)) (by decide)
    · exact absurd (hpart.symm.trans (htexts _ h)) (by decide)
  · exact List.disjoint_append_right.2
      ⟨hdisjoint (by decide) hlayers hmix, hdisjoint (by decide) hlayers htexts⟩

/-- The whole sound is made in a part of its own. -/
theorem finalSound_not_mem_of_part {ls : List Label} {n : Nat} (hpart : ∀ l ∈ ls, l.part = n)
    (hn : n ≠ 2) : .finalSound ∉ ls :=
  fun hmem => hn (hpart _ hmem).symm

/-- The program has a sound when a statement makes it. -/
theorem Compiled.sound_eq (h : Compiled c t quality assets p) :
    p.sound = if .finalSound ∈ p.statements.map (·.output) then some .finalSound else none := by
  have hmade : ∀ l ∈ p.sound, l ∈ p.statements.map (·.output) := fun l hl =>
    h.flow.perm_outputs.mem_iff.2 (by simp [Option.mem_def.1 hl])
  obtain @⟨stack, top, captions, _, hstack, -⟩ := h
  generalize hsounds : ((placed assets (layers t)).filter (·.isHeard)).map
    (fun p => Label.audio p.index) = sounds
  simp only [Compiler.assemble, hsounds] at hmade ⊢
  cases sounds with
  | cons l sounds => rw [if_pos (hmade .finalSound rfl)]; rfl
  | nil =>
    refine (if_neg fun hmem => ?_).symm
    simp only [List.map_append, List.map_cons, List.mem_append, List.mem_cons] at hmem
    rcases hmem with ((hbase | hlayer) | hmix) | htext
    · cases hbase
    · exact finalSound_not_mem_of_part hstack.part_eq (by decide) hlayer
    · cases hmix
    · exact finalSound_not_mem_of_part (captionStatements_part (hstack.isPoint_top rfl) captions)
        (by decide) htext

/-- What the end of a program leaves open is what is mapped to the output. -/
theorem Compiled.left_cases (h : Compiled c t quality assets p) {l : Label}
    (hl : l ∈ Label.finalPicture :: p.sound.toList) : l = .finalPicture ∨ l = .finalSound := by
  rw [h.sound_eq] at hl
  rcases List.mem_cons.1 hl with rfl | hl
  · exact .inl rfl
  · split at hl
    · exact .inr (List.mem_singleton.1 hl)
    · cases hl

theorem Compiled.solves {V : Type} (m : Reading V) (h : Compiled c t quality assets p) :
    m.Solves p.statements (m.meaning p.statements) := by
  refine h.flow.solves m (fun l hl => ?_) h.nodup_outputs
  rcases h.left_cases hl with rfl | rfl <;> rfl

/-! ### Inputs -/

/-- An input that the engine reads a kept layer from, given the number of the layer. -/
structure IsInput (numbered : Layer × Nat) (input : InputSpec Binary64) : Prop where
  index_eq : input.index = numbered.2
  source_eq : input.source = numbered.1.clip.source
  clip_eq : input.clipId = some numbered.1.clip.id
  image_eq : input.isImage = (numbered.1.kind = .image : Bool)

theorem Compiled.inputs_eq (h : Compiled c t quality assets p) :
    p.inputs = (placed assets (layers t)).map (·.input) := by
  cases h
  rfl

theorem Compiled.inputs_kept (h : Compiled c t quality assets p) :
    List.Forall₂ IsInput (keptLayers t assets).zipIdx p.inputs := by
  rw [h.inputs_eq, ← placed_zipIdx, List.forall₂_map_left_iff, List.forall₂_map_right_iff,
    List.forall₂_same]
  exact fun q hq => ⟨rfl, (source_of_mem_placed hq).symm, rfl, rfl⟩

/-- What goes with an item of a numbered list stands at its number. -/
theorem getElem?_of_forall₂_zipIdx {α β : Type} {R : α × Nat → β → Prop} {xs : List α}
    {ys : List β} (h : List.Forall₂ R xs.zipIdx ys) {numbered : α × Nat}
    (hmem : numbered ∈ xs.zipIdx) : ∃ y, ys[numbered.2]? = some y ∧ R numbered y := by
  obtain ⟨x, i⟩ := numbered
  obtain ⟨hi, hget⟩ := List.getElem?_eq_some_iff.1 (List.mem_zipIdx_iff_getElem?.1 hmem)
  have hzip : i < xs.zipIdx.length := by rwa [List.length_zipIdx]
  have hys : i < ys.length := h.length_eq ▸ hzip
  refine ⟨ys[i], List.getElem?_eq_getElem hys, ?_⟩
  simpa [hget] using h.get hzip hys

theorem Compiled.input_of_kept (h : Compiled c t quality assets p) {numbered : Layer × Nat}
    (hmem : numbered ∈ (keptLayers t assets).zipIdx) :
    ∃ input, p.inputs[numbered.2]? = some input ∧ IsInput numbered input :=
  getElem?_of_forall₂_zipIdx h.inputs_kept hmem

/-! ### Statements -/

/-- The streams that a program reads are those of its layers. -/
theorem Compiled.streams_eq (h : Compiled c t quality assets p) :
    p.statements.flatMap (·.streams) = (placed assets (layers t)).flatMap (·.streams) := by
  obtain @⟨stack, top, captions, _, hstack, -⟩ := h
  generalize hps : placed assets (layers t) = ps at hstack ⊢
  have hcanvas : (canvasStatement c.canvas t.totalDuration).streams = [] := rfl
  have htexts : (captionStatements top 0 captions).flatMap (·.streams) = [] :=
    List.flatMap_eq_nil_iff.2 fun s hs => by
      obtain ⟨l, hl, hinputs⟩ := (captionStatements_cases (hstack.isPoint_top rfl) s hs).1
      exact (wires_of_inputs_eq hl hinputs).2
  have hmix : (mixStatement? (ps.flatMap (·.soundLabels))).toList.flatMap (·.streams) = [] := by
    have hstream : ∀ l ∈ ps.flatMap (·.soundLabels), l.isStream = false := fun l hl =>
      isStream_eq_false (isPoint_of_mem_soundLabels hl)
    cases hsounds : ps.flatMap (·.soundLabels) with
    | nil => rfl
    | cons l sounds =>
      rw [hsounds] at hstream
      simpa [mixStatement?, Statement.streams] using hstream
  simp only [Compiler.assemble, map_audio_eq, List.flatMap_append, List.flatMap_cons, hcanvas,
    htexts, hmix, hstack.streams_eq rfl, List.nil_append, List.append_nil]

/-- What a statement of a program is there for. -/
inductive Role (c : Compiler) (t : Timeline) (assets : Option Assets) (s : Statement Binary64) :
    Prop
  | canvas (hs : s = canvasStatement c.canvas t.totalDuration)
  | layer {q : Placed} (hmem : q ∈ placed assets (layers t)) (hmakes : q.Makes c.canvas 0 s)
  | mix {sounds : List Label} (hpoint : ∀ l ∈ sounds, l.isPoint = true)
      (hs : s = ⟨sounds, [.mix sounds.length], .finalSound⟩)
  | text {l : Label} (hpoint : l.isPoint = true) (hinputs : s.inputs = [l])
      (hfilters : s.filters = [.passthrough] ∨ ∃ d, s.filters = [.drawText d])
      (houtput : s.output = .finalPicture ∨ ∃ k, s.output = .caption k)

theorem Compiled.role (h : Compiled c t quality assets p) {s : Statement Binary64}
    (hs : s ∈ p.statements) : Role c t assets s := by
  obtain @⟨stack, top, captions, _, hstack, -⟩ := h
  simp only [Compiler.assemble, map_audio_eq, List.mem_append, List.mem_cons] at hs
  rcases hs with ((rfl | hs) | hs) | hs
  · exact .canvas rfl
  · obtain ⟨q, hq, hmakes⟩ := hstack.makes rfl s hs
    exact .layer hq hmakes
  · have hpoint : ∀ l ∈ (placed assets (layers t)).flatMap (·.soundLabels), l.isPoint = true :=
      fun l hl => isPoint_of_mem_soundLabels hl
    refine .mix hpoint ?_
    cases hsounds : (placed assets (layers t)).flatMap (·.soundLabels) with
    | nil => simp [hsounds, mixStatement?] at hs
    | cons l sounds => simpa [hsounds, mixStatement?] using hs
  · obtain ⟨⟨l, hl, hinputs⟩, hfilters, houtput⟩ :=
      captionStatements_cases (hstack.isPoint_top rfl) s hs
    exact .text hl hinputs hfilters (houtput.imp_right fun hmade => hmade.imp fun _ => And.right)

/-- What the filters of a program are not: windows, or mixes of another number of sounds. -/
theorem Role.filters {s : Statement Binary64} (h : Role c t assets s) :
    ∀ f ∈ s.filters, (∀ w, f ≠ .gate w) ∧ ∀ n, f = .mix n → n = s.inputs.length := by
  cases h with
  | canvas hs => simp [hs, canvasStatement]
  | @layer q _ hmakes =>
    cases hmakes with
    | visual _ => cases himage : q.isImage <;> simp [Placed.visual, himage]
    | laidOver _ _ _ => simp [Placed.laidOver]
    | delayed _ _ => simp [Placed.delayed]
  | mix _ hs => simp [hs, eq_comm]
  | text _ _ hfilters _ => rcases hfilters with hfilters | ⟨d, hfilters⟩ <;> simp [hfilters]

/-- All labels of a program are streams of inputs or made up by the compiler. -/
theorem Role.labels {s : Statement Binary64} (h : Role c t assets s) :
    ∀ l ∈ s.output :: s.inputs, l.isNamed = false := by
  cases h with
  | canvas hs => simp [hs, canvasStatement, Label.isNamed]
  | layer _ hmakes =>
    cases hmakes with
    | visual _ => simp [Placed.visual, Label.isNamed]
    | laidOver _ _ hbelow =>
      simpa [Placed.laidOver, Label.isNamed] using isNamed_eq_false hbelow
    | delayed _ _ => simp [Placed.delayed, Label.isNamed]
  | mix hpoint hs =>
    rw [hs]
    exact List.forall_mem_cons.2 ⟨rfl, fun l hl => isNamed_eq_false (hpoint l hl)⟩
  | text hpoint hinputs _ houtput =>
    have hl := isNamed_eq_false hpoint
    rcases houtput with h | ⟨k, h⟩ <;> rw [h, hinputs] <;> simpa [Label.isNamed] using hl

/-! ### Arguments -/

theorem Compiled.encode_eq (h : Compiled c t quality assets p) :
    ∃ e, p.encode = some e ∧ e.streamCopy = false ∧ e.audioCodec = "aac" ∧
      e.picture = some .finalPicture ∧ e.sound = p.sound := by
  cases h
  exact ⟨_, rfl, rfl, rfl, rfl, rfl⟩

/-- The arguments map the labels that a program ends in, and name a codec for sound if it has one. -/
theorem mapped_of_encode
    (hencode : ∃ e, p.encode = some e ∧ e.streamCopy = false ∧ e.audioCodec = "aac" ∧
      e.picture = some .finalPicture ∧ e.sound = p.sound)
    (hgate : ∀ s ∈ p.statements, ∀ f ∈ s.filters, ∀ w, f ≠ .gate w) :
    p.Gives "-map" ((.finalPicture :: p.sound.toList).map Label.pad) ∧
      p.Gives "-c:a" (p.sound.toList.map fun _ => "aac") := by
  obtain ⟨e, hencode, hcopy, hcodec, hpicture, hsound⟩ := hencode
  have hmap : p.Gives "-map" _ := Program.gives_of_encode hencode hgate (by decide)
  have haudio : p.Gives "-c:a" _ := Program.gives_of_encode hencode hgate (by decide)
  rw [e.valuesIn_map, hpicture, hsound] at hmap
  rw [e.valuesIn_audioCodec hcopy, hsound, hcodec] at haudio
  exact ⟨hmap, haudio⟩

theorem Compiled.no_gate (h : Compiled c t quality assets p) :
    ∀ s ∈ p.statements, ∀ f ∈ s.filters, ∀ w, f ≠ .gate w :=
  fun _ hs f hf => ((h.role hs).filters f hf).1

theorem Compiled.mapped (h : Compiled c t quality assets p) :
    p.Gives "-map" ((.finalPicture :: p.sound.toList).map Label.pad) ∧
      p.Gives "-c:a" (p.sound.toList.map fun _ => "aac") :=
  mapped_of_encode h.encode_eq h.no_gate

/-- The labels that are mapped to the output are made. -/
theorem Compiled.made (h : Compiled c t quality assets p) {l : Label}
    (hl : l ∈ .finalPicture :: p.sound.toList) : l ∈ p.statements.map (·.output) :=
  h.flow.perm_outputs.mem_iff.2 (List.mem_append_right _ hl)

end Montage.Graph
