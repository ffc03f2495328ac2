import Mathlib.Data.List.Pairwise
import Montage.Proofs.Graph.Linear
import Montage.Proofs.Graph.Muting
import Montage.Proofs.Graph.Sound

/-!
# Compiled programs in which some inputs are not heard

Taking the sounds of some inputs out of a compiled program leaves a program that uses its labels once
and mixes the sounds of all other layers, in their order (`Compiled.isMuted`).
-/

namespace Montage.Graph

open Program

variable {c : Compiler} {t : Timeline} {quality : Value} {assets : Option Assets}
  {p : Program Binary64} {s : Statement Binary64} {q : Placed} {l : Label} {dropped : List Int}

/-- The layers that are heard, without those of some inputs. -/
def remainingLayers (t : Timeline) (assets : Option Assets) (dropped : List Int) :
    List (Clip × Nat) :=
  (soundLayers t assets).filter fun numbered => (numbered.2 : Int) ∉ dropped

/-- The same as layers with an input. -/
def remaining (t : Timeline) (assets : Option Assets) (dropped : List Int) : List Placed :=
  ((placed assets (layers t)).filter (·.isHeard)).filter fun q => (q.index : Int) ∉ dropped

theorem map_remaining :
    (remaining t assets dropped).map (fun q => (q.clip, q.index)) =
      remainingLayers t assets dropped := by
  rw [remainingLayers, ← soundLayers_eq, List.filter_map]
  rfl

theorem remaining_nil :
    remaining t assets [] = (placed assets (layers t)).filter (·.isHeard) := by
  simp [remaining]

theorem remaining_eq_nil_iff :
    remaining t assets dropped = [] ↔ remainingLayers t assets dropped = [] := by
  rw [← map_remaining, List.map_eq_nil_iff]

/-! ### Who reads a sound -/

namespace Compiled

variable (h : Compiled c t quality assets p)
include h

theorem makesNoStream : p.MakesNoStream :=
  h.flow.isStream_output fun _ => h.isStream_of_mem_left

/-- Only the first statement for the sound of a layer reads it from its input. -/
theorem eq_delayed (hs : s ∈ p.statements) {i : Nat} (hread : .stream i .sound ∈ s.inputs) :
    ∃ q ∈ placed assets (layers t), q.isHeard = true ∧ q.index = i ∧ ∃ delay, s = q.delayed delay := by
  cases h.role hs with
  | canvas hcanvas => simp [hcanvas, canvasStatement] at hread
  | @layer q hq hmakes =>
    cases hmakes with
    | visual _ => simp [Placed.visual] at hread
    | laidOver _ _ hbelow =>
      rcases List.mem_cons.1 hread with rfl | hread
      · cases hbelow
      · simp at hread
    | @delayed delay hheard =>
      obtain rfl : i = q.index := by simpa [Placed.delayed] using hread
      exact ⟨q, hq, hheard, rfl, delay, rfl⟩
  | mix hpoint hmix =>
    rw [hmix] at hread
    cases hpoint _ hread
  | text hpoint hinputs _ _ =>
    rw [hinputs] at hread
    obtain rfl := List.mem_singleton.1 hread
    cases hpoint

theorem eq_delayed_of_readsAny (hs : s ∈ p.statements) (hreads : s.readsAny dropped = true) :
    ∃ q ∈ placed assets (layers t), q.isHeard = true ∧ (q.index : Int) ∈ dropped ∧
      ∃ delay, s = q.delayed delay := by
  obtain ⟨i, hi, hread⟩ := List.any_eq_true.1 hreads
  obtain ⟨hnat, hread⟩ : 0 ≤ i ∧ .stream i.toNat .sound ∈ s.inputs := by
    simpa [Statement.readsSound, Statement.reads] using hread
  obtain ⟨q, hq, hheard, hindex, hdelay⟩ := h.eq_delayed hs hread
  refine ⟨q, hq, hheard, ?_, hdelay⟩
  rwa [hindex, Int.toNat_of_nonneg hnat]

end Compiled

theorem readsAny_delayed {delay : Int} :
    (q.delayed delay).readsAny dropped = true ↔ (q.index : Int) ∈ dropped := by
  simp only [Statement.readsAny, Statement.readsSound, Statement.reads, Placed.delayed,
    List.any_eq_true, Bool.and_eq_true, decide_eq_true_eq, List.contains_cons, List.contains_nil,
    Bool.or_false, beq_iff_eq, Label.stream.injEq, and_true]
  constructor
  · rintro ⟨i, hi, hnat, hindex⟩
    rwa [← hindex, Int.toNat_of_nonneg hnat]
  · exact fun hq => ⟨q.index, hq, Int.natCast_nonneg _, Int.toNat_natCast _⟩

theorem mixStatement?_eq_some {sounds : List Label} :
    mixStatement? sounds = some s ↔
      sounds ≠ [] ∧ s = ⟨sounds, [.mix sounds.length], .finalSound⟩ := by
  cases sounds <;> simp [mixStatement?, eq_comm]

namespace Compiled

variable (h : Compiled c t quality assets p)
include h

/-- The labels that are lost are those of the layers that are not heard any more. -/
theorem mem_lost_iff : l ∈ p.lost dropped ↔ ∃ q ∈ placed assets (layers t),
    q.isHeard = true ∧ (q.index : Int) ∈ dropped ∧ l = .audio q.index := by
  rw [mem_lost]
  constructor
  · rintro ⟨s, hs, hreads, rfl⟩
    obtain ⟨q, hq, hheard, hindex, delay, rfl⟩ := h.eq_delayed_of_readsAny hs hreads
    exact ⟨q, hq, hheard, hindex, rfl⟩
  · rintro ⟨q, hq, hheard, hindex, rfl⟩
    obtain ⟨delay, -, hmem⟩ := h.heard hq hheard
    exact ⟨_, hmem, readsAny_delayed.2 hindex, rfl⟩

theorem isTerminal_of_lost (hl : l ∈ p.lost dropped) : l.isTerminal = false := by
  obtain ⟨q, -, -, -, rfl⟩ := h.mem_lost_iff.1 hl
  rfl

theorem exists_mix (hq : q ∈ placed assets (layers t)) (hheard : q.isHeard = true) :
    ∃ s ∈ p.statements, s.output = .finalSound ∧ .audio q.index ∈ s.inputs := by
  have hq : q ∈ (placed assets (layers t)).filter (·.isHeard) := List.mem_filter.2 ⟨hq, hheard⟩
  have hlabel := List.mem_map_of_mem (f := fun q : Placed => Label.audio q.index) hq
  obtain ⟨s, hs⟩ : ∃ s, mixStatement? (((placed assets (layers t)).filter (·.isHeard)).map
      fun q => .audio q.index) = some s := by
    rw [mixStatement?, if_neg (by simpa using ⟨q, List.mem_filter.1 hq⟩)]
    exact ⟨_, rfl⟩
  have hmem : s ∈ p.statements.filter (·.output = .finalSound) := by
    rw [h.filter_finalSound, hs]
    exact List.mem_singleton.2 rfl
  obtain ⟨-, rfl⟩ := mixStatement?_eq_some.1 hs
  exact ⟨_, (List.mem_filter.1 hmem).1, rfl, hlabel⟩

/-- What is lost was read by the mix and by no other statement. -/
theorem eq_finalSound_of_lost (hs : s ∈ p.statements) (hl : l ∈ p.lost dropped)
    (hread : l ∈ s.inputs) : s.output = .finalSound := by
  obtain ⟨q, hq, hheard, -, rfl⟩ := h.mem_lost_iff.1 hl
  obtain ⟨mix, hmix, hsound, hmixed⟩ := h.exists_mix hq hheard
  have honce : (p.statements.flatMap (·.wires)).Nodup :=
    (h.flow.nodup_taken h.nodup_outputs).of_append_left
  have : Std.Symm (Function.onFun List.Disjoint fun s : Statement Binary64 => s.wires) :=
    ⟨fun _ _ hdisjoint _ hl hl' => hdisjoint hl' hl⟩
  by_contra hne
  have hdisjoint := (List.nodup_flatMap.1 honce).2.forall hs hmix fun heq => hne (heq ▸ hsound)
  exact hdisjoint (List.mem_filter.2 ⟨hread, rfl⟩) (List.mem_filter.2 ⟨hmixed, rfl⟩)

theorem filter_lost :
    (((placed assets (layers t)).filter (·.isHeard)).map fun q => Label.audio q.index).filter
      (· ∉ p.lost dropped) = (remaining t assets dropped).map fun q => .audio q.index := by
  rw [List.filter_map, remaining]
  congr 1
  refine List.filter_congr fun q hq => ?_
  obtain ⟨hq, hheard⟩ := List.mem_filter.1 hq
  have hlost : .audio q.index ∈ p.lost dropped ↔ (q.index : Int) ∈ dropped := by
    rw [h.mem_lost_iff]
    constructor
    · rintro ⟨r, -, -, hindex, hlabel⟩
      rwa [Label.audio.inj hlabel]
    · exact fun hindex => ⟨q, hq, hheard, hindex, rfl⟩
  simp [hlost]

theorem readsAny_eq_false (hs : s ∈ p.statements) (hsound : s.output = .finalSound) :
    s.readsAny dropped = false := by
  cases hreads : s.readsAny dropped with
  | false => rfl
  | true =>
    obtain ⟨q, -, -, -, delay, rfl⟩ := h.eq_delayed_of_readsAny hs hreads
    cases hsound

/-- The mix is left with the layers that still are heard. -/
theorem left?_mix (hs : s ∈ p.statements) (hsound : s.output = .finalSound) :
    p.left? dropped s =
      mixStatement? ((remaining t assets dropped).map fun q => .audio q.index) := by
  have hinputs := (mixStatement?_eq_some.1 (h.eq_mix hs hsound)).2
  rw [left?, h.readsAny_eq_false hs hsound, if_neg (by simp), if_pos hsound, ← h.filter_lost, hinputs]

theorem isSilenced_iff (dropped : List Int) :
    p.isSilenced dropped = true ↔
      (∃ s ∈ p.statements, s.output = .finalSound) ∧ remaining t assets dropped = [] := by
  simp only [isSilenced, List.any_eq_true, Bool.and_eq_true, Bool.not_eq_true',
    Option.isNone_iff_eq_none]
  constructor
  · rintro ⟨s, hs, hreads, hleft⟩
    have hsound : s.output = .finalSound := by
      by_contra hne
      simp [left?, hreads, hne] at hleft
    rw [h.left?_mix hs hsound] at hleft
    exact ⟨⟨s, hs, hsound⟩, by simpa [mixStatement?] using hleft⟩
  · rintro ⟨⟨s, hs, hsound⟩, hnone⟩
    refine ⟨s, hs, h.readsAny_eq_false hs hsound, ?_⟩
    rw [h.left?_mix hs hsound, hnone]
    rfl

theorem muted_nil : p.muted [] = p := by
  have hleft : ∀ s ∈ p.statements, p.left? [] s = some s := by
    intro s hs
    by_cases hsound : s.output = .finalSound
    · rw [h.left?_mix hs hsound, remaining_nil, h.eq_mix hs hsound]
    · simp [left?, Statement.readsAny, hsound]
  have hstatements : p.statements.filterMap (p.left? []) = p.statements := by
    rw [List.filterMap_congr hleft, List.filterMap_some]
  have hsilenced : p.isSilenced [] = false := by
    rw [isSilenced, List.any_eq_false]
    intro s hs
    simp [hleft s hs]
  simp [muted, hstatements, hsilenced]

theorem foldl_dropSound (indices : List Int) : indices.foldl dropSound p = p.muted indices :=
  h.makesNoStream.foldl_dropSound h.muted_nil indices

end Compiled

/-! ### What is left uses every label once -/

/-- Whether a label still is in the graph. -/
def Program.keeps (p : Program Binary64) (dropped : List Int) (l : Label) : Bool :=
  l ∉ p.lost dropped && (l ≠ .finalSound || !p.isSilenced dropped)

theorem keeps_of_isTerminal_eq_false (hl : l.isTerminal = false) (hlost : l ∉ p.lost dropped) :
    p.keeps dropped l = true := by
  have hne : l ≠ .finalSound := by
    rintro rfl
    cases hl
  simp [keeps, hlost, hne]

theorem mem_inputs_of_muted {r : Statement Binary64} (hr : r ∈ (p.muted dropped).statements)
    (hl : l ∈ r.inputs) : ∃ s ∈ p.statements, s.readsAny dropped = false ∧ l ∈ s.inputs := by
  obtain ⟨s, hs, hleft⟩ := List.mem_filterMap.1 hr
  obtain ⟨hreads, -, ⟨-, rfl⟩ | ⟨-, hinputs, -⟩⟩ := left?_eq_some hleft
  · exact ⟨_, hs, hreads, hl⟩
  · rw [hinputs] at hl
    exact ⟨s, hs, hreads, (List.mem_filter.1 hl).1⟩

namespace Compiled

variable (h : Compiled c t quality assets p)
include h

theorem keeps_finalSound (dropped : List Int) : p.keeps dropped .finalSound = !p.isSilenced dropped := by
  have hlost : .finalSound ∉ p.lost dropped := fun hl => nomatch h.isTerminal_of_lost hl
  simp [keeps, hlost]

theorem output_not_mem_lost (hs : s ∈ p.statements) (hreads : s.readsAny dropped = false) :
    s.output ∉ p.lost dropped := by
  intro hlost
  obtain ⟨r, hr, hreads', houtput⟩ := mem_lost.1 hlost
  obtain rfl := List.inj_on_of_nodup_map h.nodup_outputs hr hs houtput
  simp [hreads] at hreads'

theorem left?_none (hs : s ∈ p.statements) (hleft : p.left? dropped s = none) :
    s.wires.filter (p.keeps dropped) = [] ∧ p.keeps dropped s.output = false := by
  cases hreads : s.readsAny dropped with
  | true =>
    have hlost : s.output ∈ p.lost dropped := mem_lost.2 ⟨s, hs, hreads, rfl⟩
    obtain ⟨q, -, -, -, delay, rfl⟩ := h.eq_delayed_of_readsAny hs hreads
    exact ⟨rfl, by simp [keeps, hlost]⟩
  | false =>
    have hsound : s.output = .finalSound := by
      by_contra hne
      simp [left?, hreads, hne] at hleft
    have hlost : ∀ l ∈ s.inputs, l ∈ p.lost dropped := by
      simpa [left?, hreads, hsound, mixStatement?] using hleft
    have hsilenced : p.isSilenced dropped = true :=
      List.any_eq_true.2 ⟨s, hs, by simp [hreads, hleft]⟩
    constructor
    · refine List.filter_eq_nil_iff.2 fun l hl => ?_
      simp [keeps, hlost l (List.mem_filter.1 hl).1]
    · rw [hsound, h.keeps_finalSound, hsilenced]
      rfl

theorem left?_some {r : Statement Binary64} (hs : s ∈ p.statements)
    (hleft : p.left? dropped s = some r) :
    r.wires = s.wires.filter (p.keeps dropped) ∧ r.output = s.output ∧
      p.keeps dropped s.output = true := by
  have hterminal : ∀ l ∈ s.inputs, l.isTerminal = false := fun l hl =>
    h.terminal_free (mem_taken.2 ⟨s, hs, hl⟩)
  obtain ⟨hreads, houtput, ⟨hne, rfl⟩ | ⟨hsound, hinputs, -⟩⟩ := left?_eq_some hleft
  · refine ⟨(List.filter_eq_self.2 fun l hl => ?_).symm, rfl, ?_⟩
    · obtain ⟨hl, -⟩ := List.mem_filter.1 hl
      refine keeps_of_isTerminal_eq_false (hterminal l hl) fun hlost => ?_
      exact hne (h.eq_finalSound_of_lost hs hlost hl)
    · simp [keeps, hne, h.output_not_mem_lost hs hreads]
  · refine ⟨?_, houtput, ?_⟩
    · rw [Statement.wires, Statement.wires, hinputs, List.filter_filter, List.filter_filter]
      refine List.filter_congr fun l hl => ?_
      by_cases hlost : l ∈ p.lost dropped
      · simp [keeps, hlost]
      · simp [keeps_of_isTerminal_eq_false (hterminal l hl) hlost, hlost]
    · rw [hsound, h.keeps_finalSound, Bool.not_eq_true', ← Bool.not_eq_true, h.isSilenced_iff]
      rintro ⟨-, hnone⟩
      rw [h.left?_mix hs hsound, hnone] at hleft
      cases hleft

theorem sound_muted (dropped : List Int) :
    (p.muted dropped).sound =
      if remainingLayers t assets dropped = [] then none else p.sound := by
  have hmade : (∃ s ∈ p.statements, s.output = .finalSound) ↔
      .finalSound ∈ p.statements.map (·.output) := List.mem_map.symm
  have hsilenced := h.isSilenced_iff dropped
  rw [hmade, remaining_eq_nil_iff] at hsilenced
  simp only [muted, hsilenced, h.sound_eq]
  split <;> split <;> simp_all

theorem flow_muted (dropped : List Int) :
    Flow [] (p.muted dropped).statements (.finalPicture :: (p.muted dropped).sound.toList) := by
  have hnone : ∀ s ∈ p.statements, p.left? dropped s = none →
      s.wires.filter (p.keeps dropped) = [] ∧ p.keeps dropped s.output = false :=
    fun s hs => h.left?_none hs
  have hflow := h.flow.restrict hnone fun s hs r => h.left?_some hs
  have hpicture : p.keeps dropped .finalPicture = true := by
    have hlost : .finalPicture ∉ p.lost dropped := fun hl => nomatch h.isTerminal_of_lost hl
    simp [keeps, hlost]
  have hsound : p.sound.toList.filter (p.keeps dropped) = (p.muted dropped).sound.toList := by
    have hkeeps := h.keeps_finalSound dropped
    simp only [muted, h.sound_eq]
    cases hsilenced : p.isSilenced dropped <;> split <;> simp_all
  rwa [List.filter_nil, List.filter_cons_of_pos hpicture, hsound] at hflow

theorem nodup_outputs_muted (dropped : List Int) :
    ((p.muted dropped).statements.map (·.output)).Nodup := by
  rw [map_output_muted]
  exact h.nodup_outputs.sublist (List.filter_sublist.map _)

theorem filter_finalSound_muted (dropped : List Int) :
    (p.muted dropped).statements.filter (·.output = .finalSound) =
      (mixStatement? ((remaining t assets dropped).map fun q => .audio q.index)).toList := by
  have hfilter : (p.muted dropped).statements.filter (·.output = .finalSound) =
      (p.statements.filter (·.output = .finalSound)).filterMap (p.left? dropped) := by
    rw [muted, List.filter_filterMap, List.filterMap_filter]
    congr 1
    funext s
    cases hleft : p.left? dropped s with
    | none => simp
    | some r => simp [Option.filter, (left?_eq_some hleft).2.1]
  rw [hfilter, h.filter_finalSound]
  cases hmix : mixStatement? (((placed assets (layers t)).filter (·.isHeard)).map
      fun q => .audio q.index) with
  | none =>
    have hnone : (placed assets (layers t)).filter (·.isHeard) = [] := by
      simpa [mixStatement?] using hmix
    rw [remaining, hnone]
    rfl
  | some s =>
    have hmem : s ∈ p.statements.filter (·.output = .finalSound) := by
      rw [h.filter_finalSound, hmix]
      exact List.mem_singleton.2 rfl
    obtain ⟨hs, hsound⟩ := List.mem_filter.1 hmem
    rw [Option.toList_some, List.filterMap_cons, h.left?_mix hs (of_decide_eq_true hsound)]
    cases mixStatement? ((remaining t assets dropped).map fun q => .audio q.index) <;> rfl

theorem delayed_mem_muted (hq : q ∈ remaining t assets dropped) :
    ∃ delay, q.clip.delay = .ok delay ∧ q.delayed delay ∈ (p.muted dropped).statements := by
  obtain ⟨hq, hindex⟩ := List.mem_filter.1 hq
  obtain ⟨hq, hheard⟩ := List.mem_filter.1 hq
  obtain ⟨delay, hdelay, hmem⟩ := h.heard hq hheard
  refine ⟨delay, hdelay, List.mem_filterMap.2 ⟨_, hmem, ?_⟩⟩
  have hreads : (q.delayed delay).readsAny dropped = false := by
    rw [← Bool.not_eq_true, readsAny_delayed]
    exact of_decide_eq_true hindex
  rw [left?, hreads, if_neg (by simp), if_neg (by simp [Placed.delayed])]

/-- The sounds that still are read are those of the remaining layers. -/
theorem sound_mem_taken_muted {i : Nat} :
    .stream i .sound ∈ (p.muted dropped).taken ↔ ∃ q ∈ remaining t assets dropped, q.index = i := by
  constructor
  · intro hl
    obtain ⟨r, hr, hl⟩ := mem_taken.1 hl
    obtain ⟨s, hs, hreads, hl⟩ := mem_inputs_of_muted hr hl
    obtain ⟨q, hq, hheard, hindex, delay, rfl⟩ := h.eq_delayed hs hl
    rw [← Bool.not_eq_true, readsAny_delayed] at hreads
    refine ⟨q, List.mem_filter.2 ⟨List.mem_filter.2 ⟨hq, hheard⟩, ?_⟩, hindex⟩
    exact decide_eq_true hreads
  · rintro ⟨q, hq, rfl⟩
    obtain ⟨delay, -, hmem⟩ := h.delayed_mem_muted hq
    exact mem_taken.2 ⟨_, hmem, List.mem_singleton.2 rfl⟩

theorem soundInputs_muted (dropped : List Int) :
    (p.muted dropped).soundInputs = (remaining t assets dropped).map (·.input) := by
  have hinputs : (p.muted dropped).inputs = (placed assets (layers t)).map (·.input) := h.inputs_eq
  rw [soundInputs, hinputs, List.filter_map, remaining, List.filter_filter]
  congr 1
  refine List.filter_congr fun q hq => ?_
  have hread : .stream q.index .sound ∈ (p.muted dropped).taken ↔
      q.isHeard = true ∧ (q.index : Int) ∉ dropped := by
    rw [h.sound_mem_taken_muted]
    constructor
    · rintro ⟨r, hr, hindex⟩
      obtain ⟨hr, hdropped⟩ := List.mem_filter.1 hr
      obtain ⟨hr, hheard⟩ := List.mem_filter.1 hr
      obtain rfl := List.inj_on_of_nodup_map nodup_index_placed hr hq hindex
      exact ⟨hheard, of_decide_eq_true hdropped⟩
    · rintro ⟨hheard, hdropped⟩
      refine ⟨q, List.mem_filter.2 ⟨List.mem_filter.2 ⟨hq, hheard⟩, ?_⟩, rfl⟩
      exact decide_eq_true hdropped
  rw [Bool.eq_iff_iff]
  simpa [Program.taken, Placed.input, and_comm] using hread

theorem soundInputs_eq :
    p.soundInputs = ((placed assets (layers t)).filter (·.isHeard)).map (·.input) := by
  have hsound := h.soundInputs_muted []
  rwa [h.muted_nil, remaining_nil] at hsound

/-- What is left of a mix has no more sounds than there were. -/
theorem hasText_muted (htext : p.hasText = true) (dropped : List Int) :
    (p.muted dropped).hasText = true := by
  rw [Program.hasText, List.all_eq_true] at htext ⊢
  intro r hr
  obtain ⟨s, hs, hleft⟩ := List.mem_filterMap.1 hr
  have hs' := htext s hs
  obtain ⟨-, -, ⟨-, rfl⟩ | ⟨hsound, hinputs, hfilters⟩⟩ := left?_eq_some hleft
  · exact hs'
  have hmix : (Value.int s.inputs.length).hasText = true := by
    rw [Statement.hasText, (h.mix_of_finalSound hs hsound).2] at hs'
    simpa [Filter.hasText, Filter.numbers] using hs'
  have hle : r.inputs.length ≤ s.inputs.length := by
    rw [hinputs]
    exact List.length_filter_le _ _
  rw [Statement.hasText, hfilters]
  simpa [Filter.hasText, Filter.numbers] using hasText_of_le hmix hle

end Compiled

/-! ### The whole program -/

/-- A program in which every label is made once, before it is taken, and is taken once: by a later
statement, or by the argument that maps it to the output. -/
structure IsWired (p : Program Binary64) : Prop where
  made_once : (p.statements.map (·.output)).Nodup
  made_before : ∀ before s after, p.statements = before ++ s :: after → ∀ l ∈ s.inputs,
    (∃ i kind, l = .stream i kind ∧ i < p.inputs.length) ∨ ∃ r ∈ before, r.output = l
  taken_once : ∀ before s after, p.statements = before ++ s :: after →
    s.output ∉ Label.finalPicture :: p.sound.toList →
    p.taken.count s.output = 1 ∧ ∃ r ∈ after, s.output ∈ r.inputs
  mapped_free : ∀ l ∈ Label.finalPicture :: p.sound.toList,
    l ∈ p.statements.map (·.output) ∧ l ∉ p.taken
  mapped_once : p.Gives "-map" ((.finalPicture :: p.sound.toList).map Label.pad) ∧
    p.Gives "-c:a" (p.sound.toList.map fun _ => "aac")

/-- What a compiled program is turned into when the sounds of some inputs are dropped. -/
structure IsMuted (t : Timeline) (assets : Option Assets) (dropped : List Int)
    (p p' : Program Binary64) : Prop where
  statements_eq : p'.statements = p.statements.filterMap (p.left? dropped)
  sound_eq : p'.sound = if remainingLayers t assets dropped = [] then none else p.sound
  sound_eq_none_iff : p'.sound = none ↔ remainingLayers t assets dropped = []
  encode_eq : p'.encode =
    if remainingLayers t assets dropped = [] then p.encode.map ({ · with sound := none })
    else p.encode
  encode_sound : p'.encode.map (·.sound) = some p'.sound
  /-- Nothing else is changed but the warnings. -/
  rest_eq : { p' with
    statements := p.statements, sound := p.sound, encode := p.encode, warnings := p.warnings } = p
  wired : IsWired p'
  mixed : remainingLayers t assets dropped ≠ [] →
    ∃ mix, IsMix (remainingLayers t assets dropped) p' mix
  unmixed : remainingLayers t assets dropped = [] → ∀ s ∈ p'.statements, s.output ≠ .finalSound
  inputs_eq : List.Forall₂ (fun numbered input => input ∈ p.inputs ∧ input.index = numbered.2 ∧
    input.source = numbered.1.source) (remainingLayers t assets dropped) p'.soundInputs
  inputs_ordered : (p'.soundInputs.map (·.index)).Pairwise (· < ·)

namespace Compiled

variable (h : Compiled c t quality assets p)
include h

theorem remainingLayers_of_sound (hsound : p.sound = none) :
    remainingLayers t assets dropped = [] := by
  rw [remainingLayers, h.sound_eq_none_iff.1 hsound]
  rfl

theorem sound_muted_eq_none_iff :
    (p.muted dropped).sound = none ↔ remainingLayers t assets dropped = [] := by
  rw [h.sound_muted dropped]
  split
  · simp_all
  · rename_i hne
    exact ⟨fun hsound => absurd (h.remainingLayers_of_sound hsound) hne, fun hnil => absurd hnil hne⟩

theorem encode_muted :
    (p.muted dropped).encode =
      if remainingLayers t assets dropped = [] then p.encode.map ({ · with sound := none })
      else p.encode := by
  obtain ⟨e, hencode, -, -, -, hsound⟩ := h.encode_eq
  have hsilenced := h.isSilenced_iff dropped
  rw [remaining_eq_nil_iff] at hsilenced
  rw [muted]
  by_cases hmix : ∃ s ∈ p.statements, s.output = .finalSound
  · simp [hsilenced, hmix]
  · have hnone : p.sound = none := by
      rw [h.sound_eq, if_neg (by simpa using hmix)]
    obtain ⟨_, _, sound, _, _, _, _, _, _, _⟩ := e
    obtain rfl : sound = none := hsound.trans hnone
    simp [hsilenced, hmix, hencode]

theorem encode_eq_muted (dropped : List Int) : ∃ e, (p.muted dropped).encode = some e ∧ e.streamCopy = false ∧
    e.audioCodec = "aac" ∧ e.picture = some .finalPicture ∧ e.sound = (p.muted dropped).sound := by
  obtain ⟨e, hencode, hcopy, hcodec, hpicture, hsound⟩ := h.encode_eq
  unfold muted
  cases p.isSilenced dropped with
  | true => exact ⟨{ e with sound := none }, by simp [hencode], hcopy, hcodec, hpicture, rfl⟩
  | false => exact ⟨e, by simp [hencode], hcopy, hcodec, hpicture, by simpa using hsound⟩

theorem isStream_of_mem_left_muted (hl : l ∈ Label.finalPicture :: (p.muted dropped).sound.toList) :
    l.isStream = false := by
  rw [h.sound_muted dropped] at hl
  split at hl
  · obtain rfl := List.mem_singleton.1 hl
    rfl
  · exact h.isStream_of_mem_left hl

theorem isWired_muted (dropped : List Int) : IsWired (p.muted dropped) where
  made_once := h.nodup_outputs_muted dropped
  made_before before s after hsplit l hl := by
    refine made_before_of_flow (h.flow_muted dropped) (fun i kind htaken => ?_) hsplit hl
    obtain ⟨r, hr, hl⟩ := mem_taken.1 htaken
    obtain ⟨s, hs, -, hl⟩ := mem_inputs_of_muted hr hl
    exact h.index_lt_of_stream (mem_taken.2 ⟨s, hs, hl⟩)
  taken_once before s after hsplit :=
    count_taken (h.flow_muted dropped) (h.nodup_outputs_muted dropped)
      (fun _ => h.isStream_of_mem_left_muted) hsplit
  mapped_free l hl := by
    constructor
    · exact (h.flow_muted dropped).perm_outputs.mem_iff.2 (List.mem_append_right _ hl)
    · exact not_mem_taken_of_left (h.flow_muted dropped) (h.nodup_outputs_muted dropped)
        (fun _ => h.isStream_of_mem_left_muted) hl
  mapped_once := mapped_of_encode (h.encode_eq_muted dropped) (no_gate_muted h.no_gate dropped)

theorem isMix_muted (hremaining : remainingLayers t assets dropped ≠ []) :
    ∃ mix, IsMix (remainingLayers t assets dropped) (p.muted dropped) mix := by
  rw [← map_remaining] at hremaining ⊢
  refine isMix_of_delayed (by simpa using hremaining) ?_ (h.filter_finalSound_muted dropped)
    fun q hq => h.delayed_mem_muted hq
  exact (h.flow_muted dropped).solves soundReading (fun _ => h.isStream_of_mem_left_muted)
    (h.nodup_outputs_muted dropped)

theorem unmixed_muted (hremaining : remainingLayers t assets dropped = []) :
    ∀ s ∈ (p.muted dropped).statements, s.output ≠ .finalSound := by
  intro s hs hsound
  have hmem : s ∈ (p.muted dropped).statements.filter (·.output = .finalSound) :=
    List.mem_filter.2 ⟨hs, decide_eq_true hsound⟩
  rw [h.filter_finalSound_muted, remaining_eq_nil_iff.2 hremaining] at hmem
  cases hmem

theorem isMuted (dropped : List Int) : IsMuted t assets dropped p (p.muted dropped) where
  statements_eq := rfl
  sound_eq := h.sound_muted dropped
  sound_eq_none_iff := h.sound_muted_eq_none_iff
  encode_eq := h.encode_muted
  encode_sound := by
    obtain ⟨e, hencode, -, -, -, hsound⟩ := h.encode_eq_muted dropped
    rw [hencode, Option.map_some, hsound]
  rest_eq := rfl
  wired := h.isWired_muted dropped
  mixed := h.isMix_muted
  unmixed := h.unmixed_muted
  inputs_eq := by
    rw [h.soundInputs_muted, ← map_remaining, List.forall₂_map_left_iff,
      List.forall₂_map_right_iff, List.forall₂_same]
    intro q hq
    have hq := (List.mem_filter.1 (List.mem_filter.1 hq).1).1
    refine ⟨?_, rfl, (source_of_mem_placed hq).symm⟩
    rw [h.inputs_eq]
    exact List.mem_map_of_mem hq
  inputs_ordered := by
    have hsub : (p.muted dropped).soundInputs.Sublist p.inputs := List.filter_sublist
    have hrange := hsub.map (·.index)
    rw [h.inputs_numbered] at hrange
    exact List.pairwise_lt_range.sublist hrange

end Compiled

end Montage.Graph
