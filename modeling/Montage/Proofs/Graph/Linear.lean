import Montage.Proofs.Graph.Assembly
import Montage.Proofs.Graph.Faults

/-!
# Compiled graphs are linear

`LinearGraph` says what the engine asks of a filter graph and its arguments: every label is made once,
taken once and after it is made, every stream is read at most once and every input at least once.
The labels at the end are taken by the arguments that map them to the output.
-/

namespace Montage.Graph

/-- All labels that statements read, as often as they read them. -/
def Program.taken {τ : Type} (p : Program τ) : List Label := p.statements.flatMap (·.inputs)

/-- Whether a label is one that is mapped to the output. -/
def Label.isTerminal : Label → Bool
  | .finalPicture | .finalSound => true
  | _ => false

/-- A program whose graph the engine accepts, with its inputs those of the kept clips. -/
structure LinearGraph (t : Timeline) (assets : Option Assets) (p : Program Binary64) : Prop where
  made_once : (p.statements.map (·.output)).Nodup
  /-- The engine sees texts, and different labels have different texts. -/
  text_inj : ∀ a ∈ p.statements.map (·.output) ++ p.taken,
    ∀ b ∈ p.statements.map (·.output) ++ p.taken, a.text = b.text → a = b
  made_before : ∀ before s after, p.statements = before ++ s :: after → ∀ l ∈ s.inputs,
    (∃ i kind, l = .stream i kind ∧ i < p.inputs.length) ∨ ∃ r ∈ before, r.output = l
  /-- A label that is not mapped is read once, by a later statement. -/
  taken_once : ∀ before s after, p.statements = before ++ s :: after →
    s.output.isTerminal = false → p.taken.count s.output = 1 ∧ ∃ r ∈ after, s.output ∈ r.inputs
  /-- A label that is mapped is read by no statement. -/
  terminal_free : ∀ l ∈ p.taken, l.isTerminal = false
  /-- The arguments map every terminal label once, and nothing else. -/
  mapped_once : ∃ values, p.Gives "-map" values ∧
    (∀ s ∈ p.statements, values.count s.output.pad = if s.output.isTerminal then 1 else 0) ∧
    ∀ value ∈ values, ∃ s ∈ p.statements, value = s.output.pad
  picture_made : .finalPicture ∈ p.statements.map (·.output)
  streams_once : (p.taken.filter (·.isStream)).Nodup
  inputs_used : ∀ i < p.inputs.length, ∃ s ∈ p.statements, ∃ kind, .stream i kind ∈ s.inputs
  /-- The inputs are those of the kept clips, numbered from zero on. -/
  inputs_kept : List.Forall₂ IsInput (keptLayers t assets).zipIdx p.inputs
  inputs_numbered : p.inputs.map (·.index) = List.range p.inputs.length
  image_unheard : ∀ i layer, (keptLayers t assets)[i]? = some layer → layer.kind = .image →
    .stream i .sound ∉ p.taken
  audio_unseen : ∀ i layer, (keptLayers t assets)[i]? = some layer → layer.kind = .audio →
    .stream i .picture ∉ p.taken
  mix_counts : ∀ s ∈ p.statements, ∀ n : Int, .mix n ∈ s.filters → n = s.inputs.length
  sound_eq : p.sound = if .finalSound ∈ p.statements.map (·.output) then some .finalSound else none

variable {c : Compiler} {t : Timeline} {quality : Value} {assets : Option Assets}
  {p : Program Binary64}

theorem pad_inj {a b : Label} (h : a.pad = b.pad) : a.text = b.text := by
  simpa [Label.pad] using h

theorem mem_taken {l : Label} : l ∈ p.taken ↔ ∃ s ∈ p.statements, l ∈ s.inputs :=
  List.mem_flatMap

theorem filter_isStream_taken :
    p.taken.filter (·.isStream) = p.statements.flatMap (·.streams) := by
  simp only [Program.taken, List.filter_flatMap, Statement.streams]

theorem filter_not_isStream_taken :
    p.taken.filter (!·.isStream) = p.statements.flatMap (·.wires) := by
  simp only [Program.taken, List.filter_flatMap, Statement.wires]

theorem made_before_of_flow {left : List Label} (hflow : Flow [] p.statements left)
    (hstream : ∀ i kind, .stream i kind ∈ p.taken → i < p.inputs.length)
    {before after : List (Statement Binary64)} {s : Statement Binary64}
    (hsplit : p.statements = before ++ s :: after) {l : Label} (hl : l ∈ s.inputs) :
    (∃ i kind, l = .stream i kind ∧ i < p.inputs.length) ∨ ∃ r ∈ before, r.output = l := by
  cases hisStream : l.isStream with
  | false =>
    have hwire : l ∈ s.wires := List.mem_filter.2 ⟨hl, by simp [hisStream]⟩
    rcases (hsplit ▸ hflow).opened_or_made hwire with hopened | hmade
    · cases hopened
    · exact .inr (List.mem_map.1 hmade)
  | true =>
    obtain ⟨i, kind, rfl⟩ : ∃ i kind, l = .stream i kind := by
      cases l <;> first | exact ⟨_, _, rfl⟩ | cases hisStream
    exact .inl ⟨i, kind, rfl, hstream i kind (mem_taken.2 ⟨s, hsplit ▸ by simp, hl⟩)⟩

section Flow

variable {left : List Label} (hflow : Flow [] p.statements left)
  (hmade : (p.statements.map (·.output)).Nodup) (hleft : ∀ l ∈ left, l.isStream = false)
include hflow hmade hleft

theorem not_mem_taken_of_left {l : Label} (hl : l ∈ left) : l ∉ p.taken := by
  intro htaken
  have hwire : l ∈ p.statements.flatMap (·.wires) := by
    rw [← filter_not_isStream_taken]
    exact List.mem_filter.2 ⟨htaken, by simp [hleft l hl]⟩
  exact List.disjoint_of_nodup_append (hflow.nodup_taken hmade) hwire hl

theorem count_taken {before after : List (Statement Binary64)} {s : Statement Binary64}
    (hsplit : p.statements = before ++ s :: after) (hs : s.output ∉ left) :
    p.taken.count s.output = 1 ∧ ∃ r ∈ after, s.output ∈ r.inputs := by
  have hmem : s ∈ p.statements := hsplit ▸ by simp
  have hstream : s.output.isStream = false := hflow.isStream_output hleft s hmem
  have hwire : s.output ∈ p.taken.filter (!·.isStream) := by
    rw [filter_not_isStream_taken]
    have hclosed := hflow.perm_outputs.mem_iff.1 (List.mem_map_of_mem hmem)
    exact (List.mem_append.1 hclosed).resolve_right hs
  have honce : (p.taken.filter (!·.isStream)).Nodup := by
    rw [filter_not_isStream_taken]
    exact (hflow.nodup_taken hmade).of_append_left
  constructor
  · rw [← List.count_filter (p := fun l => !l.isStream) (by simp [hstream])]
    exact List.count_eq_one_of_mem honce hwire
  · obtain ⟨r, hr, hl⟩ := (hsplit ▸ hflow).taken_after hs
    exact ⟨r, hr, (List.mem_filter.1 hl).1⟩

end Flow

/-- The layer behind the number of an input. -/
theorem layer_of_index {q : Placed} {layer : Layer} (hq : q ∈ placed assets (layers t))
    (hlayer : (keptLayers t assets)[q.index]? = some layer) : q.layer = layer := by
  have hpair : (q.layer, q.index) ∈ (keptLayers t assets).zipIdx := by
    rw [← placed_zipIdx]
    exact List.mem_map.2 ⟨q, hq, rfl⟩
  have hget := List.mem_zipIdx_iff_getElem?.1 hpair
  exact Option.some.inj (hget.symm.trans hlayer)

theorem isSeen_or_isHeard (q : Placed) : q.isSeen = true ∨ q.isHeard = true := by
  simp only [Placed.isSeen, Placed.isHeard]
  cases q.layer.kind <;> simp

namespace Compiled

variable (h : Compiled c t quality assets p)
include h

/-- The layer behind a stream that is read, with the number of the stream. -/
theorem layer_of_stream {i : Nat} {kind : Stream} (hl : .stream i kind ∈ p.taken) :
    ∃ q ∈ placed assets (layers t), q.index = i ∧
      match kind with
      | .picture => q.isSeen = true
      | .sound => q.isHeard = true := by
  have hstream : Label.stream i kind ∈ p.taken.filter (·.isStream) :=
    List.mem_filter.2 ⟨hl, rfl⟩
  rw [filter_isStream_taken, h.streams_eq] at hstream
  obtain ⟨q, hq, hl⟩ := List.mem_flatMap.1 hstream
  refine ⟨q, hq, ?_⟩
  cases hseen : q.isSeen <;> cases hheard : q.isHeard <;> cases kind <;>
    simp_all [Placed.streams]

theorem inputs_numbered : p.inputs.map (·.index) = List.range p.inputs.length := by
  have hindex : p.inputs.map (·.index) = (placed assets (layers t)).map (·.index) := by
    rw [h.inputs_eq, List.map_map]
    rfl
  have hlength : p.inputs.length = (keptLayers t assets).length := by
    rw [← h.inputs_kept.length_eq, List.length_zipIdx]
  rw [hindex, hlength, map_index_placed]

theorem streams_once : (p.taken.filter (·.isStream)).Nodup := by
  rw [filter_isStream_taken, h.streams_eq]
  generalize hps : placed assets (layers t) = ps
  have hindex : (ps.map (·.index)).Nodup := hps ▸ nodup_index_placed
  refine List.nodup_flatMap.2 ⟨fun q _ => ?_, (List.pairwise_map.1 hindex).imp fun hne => ?_⟩
  · cases hseen : q.isSeen <;> cases hheard : q.isHeard <;> simp [Placed.streams, hseen, hheard]
  · intro l hl hl'
    apply hne
    simp only [Placed.streams, List.mem_append, List.mem_ite_nil_right, List.mem_singleton]
      at hl hl'
    rcases hl with ⟨-, rfl⟩ | ⟨-, rfl⟩ <;> rcases hl' with ⟨-, hl'⟩ | ⟨-, hl'⟩ <;> simp_all

theorem inputs_used (i : Nat) (hi : i < p.inputs.length) :
    ∃ s ∈ p.statements, ∃ kind, .stream i kind ∈ s.inputs := by
  have hmem : i ∈ (placed assets (layers t)).map (·.index) := by
    have hrange : i ∈ p.inputs.map (·.index) := h.inputs_numbered ▸ List.mem_range.2 hi
    simpa [h.inputs_eq, Placed.input] using hrange
  obtain ⟨q, hq, rfl⟩ := List.mem_map.1 hmem
  have hread : ∃ kind, Label.stream q.index kind ∈ q.streams := by
    rcases isSeen_or_isHeard q with hseen | hheard
    · exact ⟨.picture, by simp [Placed.streams, hseen]⟩
    · exact ⟨.sound, by simp [Placed.streams, hheard]⟩
  obtain ⟨kind, hkind⟩ := hread
  have htaken : Label.stream q.index kind ∈ p.taken.filter (·.isStream) := by
    rw [filter_isStream_taken, h.streams_eq]
    exact List.mem_flatMap.2 ⟨q, hq, hkind⟩
  obtain ⟨s, hs, hl⟩ := mem_taken.1 (List.mem_filter.1 htaken).1
  exact ⟨s, hs, kind, hl⟩

theorem index_lt_of_stream {i : Nat} {kind : Stream} (hl : .stream i kind ∈ p.taken) :
    i < p.inputs.length := by
  obtain ⟨q, hq, rfl, -⟩ := h.layer_of_stream hl
  refine List.mem_range.1 ?_
  rw [← h.inputs_numbered, h.inputs_eq, List.map_map]
  exact List.mem_map.2 ⟨q, hq, rfl⟩

theorem made_before {before after : List (Statement Binary64)} {s : Statement Binary64}
    (hsplit : p.statements = before ++ s :: after) {l : Label} (hl : l ∈ s.inputs) :
    (∃ i kind, l = .stream i kind ∧ i < p.inputs.length) ∨ ∃ r ∈ before, r.output = l :=
  made_before_of_flow h.flow (fun _ _ => h.index_lt_of_stream) hsplit hl

/-- The labels that statements make for each other, and those at the end, are all different. -/
theorem nodup_wires :
    (p.taken.filter (!·.isStream) ++ .finalPicture :: p.sound.toList).Nodup := by
  rw [filter_not_isStream_taken]
  exact h.flow.nodup_taken h.nodup_outputs

theorem terminal_free {l : Label} (hl : l ∈ p.taken) : l.isTerminal = false := by
  cases hterminal : l.isTerminal with
  | false => rfl
  | true =>
    have hwire : l ∈ p.taken.filter (!·.isStream) :=
      List.mem_filter.2 ⟨hl, by cases l <;> first | rfl | cases hterminal⟩
    have hmade : l ∈ p.statements.map (·.output) := by
      rw [filter_not_isStream_taken] at hwire
      exact h.flow.perm_outputs.mem_iff.2 (List.mem_append_left _ hwire)
    have hfree := (List.disjoint_of_nodup_append h.nodup_wires) hwire
    refine absurd ?_ hfree
    cases l <;> cases hterminal
    · simp
    · simp [h.sound_eq, hmade]

theorem isTerminal_of_mem_left {l : Label} (hl : l ∈ Label.finalPicture :: p.sound.toList) :
    l.isTerminal = true := by
  rcases h.left_cases hl with rfl | rfl <;> rfl

theorem isStream_of_mem_left {l : Label} (hl : l ∈ Label.finalPicture :: p.sound.toList) :
    l.isStream = false := by
  rcases h.left_cases hl with rfl | rfl <;> rfl

theorem taken_once {before after : List (Statement Binary64)} {s : Statement Binary64}
    (hsplit : p.statements = before ++ s :: after) (hterminal : s.output.isTerminal = false) :
    p.taken.count s.output = 1 ∧ ∃ r ∈ after, s.output ∈ r.inputs := by
  refine count_taken h.flow h.nodup_outputs (fun l => h.isStream_of_mem_left) hsplit fun hleft => ?_
  simp [h.isTerminal_of_mem_left hleft] at hterminal

theorem text_inj {a b : Label} (ha : a ∈ p.statements.map (·.output) ++ p.taken)
    (hb : b ∈ p.statements.map (·.output) ++ p.taken) (htext : a.text = b.text) : a = b := by
  have hnamed : ∀ l ∈ p.statements.map (·.output) ++ p.taken, l.isNamed = false := by
    intro l hl
    rcases List.mem_append.1 hl with hl | hl
    · obtain ⟨s, hs, rfl⟩ := List.mem_map.1 hl
      exact (h.role hs).labels _ List.mem_cons_self
    · obtain ⟨s, hs, hl⟩ := mem_taken.1 hl
      exact (h.role hs).labels l (List.mem_cons_of_mem _ hl)
  exact Label.text_inj (hnamed a ha) (hnamed b hb) htext

theorem mem_left_iff {s : Statement Binary64} (hs : s ∈ p.statements) :
    s.output ∈ Label.finalPicture :: p.sound.toList ↔ s.output.isTerminal = true := by
  refine ⟨h.isTerminal_of_mem_left, fun hterminal => ?_⟩
  have hmade := h.flow.perm_outputs.mem_iff.1 (List.mem_map_of_mem hs)
  rw [← filter_not_isStream_taken] at hmade
  refine (List.mem_append.1 hmade).resolve_left fun hwire => ?_
  simp [h.terminal_free (List.mem_filter.1 hwire).1] at hterminal

theorem mapped_once : ∃ values, p.Gives "-map" values ∧
    (∀ s ∈ p.statements, values.count s.output.pad = if s.output.isTerminal then 1 else 0) ∧
    ∀ value ∈ values, ∃ s ∈ p.statements, value = s.output.pad := by
  refine ⟨_, h.mapped.1, fun s hs => ?_, fun value hvalue => ?_⟩
  · have hinj : ∀ a ∈ Label.finalPicture :: p.sound.toList, ∀ b ∈ p.statements.map (·.output),
        a.pad = b.pad → a = b := fun a ha b hb hpad =>
      h.text_inj (List.mem_append_left _ (h.made ha)) (List.mem_append_left _ hb) (pad_inj hpad)
    split
    · rename_i hterminal
      refine List.count_eq_one_of_mem ?_ (List.mem_map_of_mem ((h.mem_left_iff hs).2 hterminal))
      exact (List.Nodup.of_append_right h.nodup_wires).map_on
        fun a ha b hb => hinj a ha b (h.made hb)
    · rename_i hterminal
      refine List.count_eq_zero.2 fun hmem => hterminal ?_
      obtain ⟨l, hl, hpad⟩ := List.mem_map.1 hmem
      obtain rfl := hinj l hl s.output (List.mem_map_of_mem hs) hpad
      exact h.isTerminal_of_mem_left hl
  · obtain ⟨l, hl, rfl⟩ := List.mem_map.1 hvalue
    obtain ⟨s, hs, rfl⟩ := List.mem_map.1 (h.made hl)
    exact ⟨s, hs, rfl⟩

theorem image_unheard {i : Nat} {layer : Layer} (hlayer : (keptLayers t assets)[i]? = some layer)
    (hkind : layer.kind = .image) : .stream i .sound ∉ p.taken := by
  intro hl
  obtain ⟨q, hq, rfl, hheard⟩ := h.layer_of_stream hl
  obtain rfl := layer_of_index hq hlayer
  simp [Placed.isHeard, hkind] at hheard

theorem audio_unseen {i : Nat} {layer : Layer} (hlayer : (keptLayers t assets)[i]? = some layer)
    (hkind : layer.kind = .audio) : .stream i .picture ∉ p.taken := by
  intro hl
  obtain ⟨q, hq, rfl, hseen⟩ := h.layer_of_stream hl
  obtain rfl := layer_of_index hq hlayer
  simp [Placed.isSeen, hkind] at hseen

theorem linearGraph : LinearGraph t assets p where
  made_once := h.nodup_outputs
  text_inj _ ha _ hb := h.text_inj ha hb
  made_before _ _ _ hsplit _ hl := h.made_before hsplit hl
  taken_once _ _ _ := h.taken_once
  terminal_free _ := h.terminal_free
  mapped_once := h.mapped_once
  picture_made := h.made List.mem_cons_self
  streams_once := h.streams_once
  inputs_used := h.inputs_used
  inputs_kept := h.inputs_kept
  inputs_numbered := h.inputs_numbered
  image_unheard _ _ := h.image_unheard
  audio_unseen _ _ := h.audio_unseen
  mix_counts _ hs n hmix := ((h.role hs).filters _ hmix).2 n rfl
  sound_eq := h.sound_eq

end Compiled

/-- Whatever the timeline, the compiler gives a linear graph or refuses a value; it never finds that
its own labels do not fit together. -/
theorem compile_linear (c : Compiler) (t : Timeline) (quality : Value) (assets : Option Assets) :
    (∀ p, c.compile t quality assets = .ok p → LinearGraph t assets p) ∧
      ∀ problem, c.compile t quality assets ≠ .error (.inconsistent problem) := by
  refine ⟨fun p hp => (Compiled.of_compile hp).linearGraph, fun problem hproblem => ?_⟩
  obtain ⟨what, hwhat⟩ := compile_failsOnly_misuse c t quality assets _ hproblem
  cases hwhat

theorem sampleTimeline_linear :
    ∃ p, ({} : Compiler).compile sampleTimeline (.text "high") (some sampleAssets) = .ok p ∧
      LinearGraph sampleTimeline (some sampleAssets) p := by
  obtain ⟨p, hp⟩ := sampleTimeline_compiles
  exact ⟨p, hp, (compile_linear {} sampleTimeline (.text "high") (some sampleAssets)).1 p hp⟩

end Montage.Graph
