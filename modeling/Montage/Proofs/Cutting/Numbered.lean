import Montage.Cutting.Arrange
import Montage.Cutting.Extract
import Montage.Proofs.Graph.Compilable

/-!
# Clips up to their numbers

An order that is accepted picks each clip once, by its position; the clips that it gives are those
that were picked, with new numbers (`reorder_eq_ok`). Whatever the clip, there is a program for it
(`exists_compileCut`), and only the source and the two ends of the clip have a part in it.
-/

namespace Montage.Cutting

/-! ### Another order -/

theorem isSome_atPosition? {α : Type} {items : List α} {order : List Int}
    (horder : order.Perm (positions items.length)) {position : Int} (h : position ∈ order) :
    (atPosition? items position).isSome := by
  obtain ⟨n, hn, rfl⟩ := List.mem_map.1 (horder.mem_iff.1 h)
  have hbounds := List.mem_range'_1.1 hn
  have hpos : ¬ Int.ofNat n < 1 := by
    rw [Int.ofNat_eq_natCast]
    omega
  rw [atPosition?, if_neg hpos, Int.ofNat_eq_natCast, Int.toNat_natCast,
    List.getElem?_eq_getElem (by omega)]
  rfl

theorem atPosition?_map {α β : Type} (f : α → β) (items : List α) (position : Int) :
    atPosition? (items.map f) position = (atPosition? items position).map f := by
  unfold atPosition?
  split
  · rfl
  · rw [List.getElem?_map]

/-- Clips that are picked and then numbered are those that were picked, up to their numbers. -/
theorem forall₂_numbered {pick : Int → Option Cut} {order : List Int} (start : Nat)
    (hpick : ∀ position ∈ order, (pick position).isSome) :
    List.Forall₂ (fun position c' => ∃ c, pick position = some c ∧ c' = { c with index := c'.index })
      order (((order.filterMap pick).zipIdx start).map fun (c, index) => { c with index := index }) := by
  induction order generalizing start with
  | nil => exact .nil
  | cons position rest ih =>
    obtain ⟨hfirst, hrest⟩ := List.forall_mem_cons.1 hpick
    obtain ⟨c, hc⟩ := Option.isSome_iff_exists.1 hfirst
    rw [List.filterMap_cons_some hc, List.zipIdx_cons, List.map_cons]
    exact .cons ⟨c, hc, rfl⟩ (ih (start + 1) hrest)

theorem mem_of_atPosition? {α : Type} {items : List α} {position : Int} {item : α}
    (h : atPosition? items position = some item) : item ∈ items := by
  unfold atPosition? at h
  split at h
  · cases h
  · exact List.mem_of_getElem? h

theorem reorder_eq_ok {cuts cuts' : List Cut} {order : List Int}
    (h : reorder cuts order = .ok cuts') : order.Perm (positions cuts.length) ∧
      List.Forall₂ (fun position c' =>
        ∃ c, atPosition? cuts position = some c ∧ c' = { c with index := c'.index }) order cuts' := by
  unfold reorder at h
  split at h
  · rename_i hperm
    rw [List.isPerm_iff] at hperm
    rw [← Outcome.pure_eq_ok.1 h]
    exact ⟨hperm, forall₂_numbered 1 fun position => isSome_atPosition? hperm⟩
  · cases h

theorem length_of_reorder {cuts cuts' : List Cut} {order : List Int}
    (h : reorder cuts order = .ok cuts') : cuts'.length = cuts.length := by
  obtain ⟨hperm, hpicked⟩ := reorder_eq_ok h
  rw [← hpicked.length_eq, hperm.length_eq, positions, List.length_map, List.length_range']

/-! ### The program of one clip -/

open Montage.Graph

variable {σ : Type} (e : Extractor σ) (source : Option Source) (hasAudio : Bool) (c : Cut)

/-- The footage of a clip in the timeline that shows it. -/
def Cut.footage : Clip where
  id := extractId
  start := .zero
  duration := c.duration
  source
  trimStart := c.start
  hasAudio

theorem Cut.requiredClips_timeline :
    requiredClips (c.timeline source hasAudio) = [c.footage source hasAudio] :=
  rfl

theorem Cut.mem_soundLayers {assets : Option Assets} {numbered : Clip × Nat}
    (h : numbered ∈ soundLayers (c.timeline source hasAudio) assets) :
    numbered.1 = c.footage source hasAudio := by
  rcases List.mem_append.1 h with hvideo | haudio
  · have hmem := List.fst_mem_of_mem_zipIdx (List.mem_of_mem_filter hvideo)
    exact List.mem_singleton.1 (List.mem_of_mem_filter hmem)
  · exact absurd (List.mem_of_mem_filter (List.fst_mem_of_mem_zipIdx haudio)) List.not_mem_nil

theorem Cut.isCompilable_timeline (assets : Option Assets) :
    IsCompilable (c.timeline source hasAudio) assets where
  hidden := by
    intro track htrack hhidden
    obtain rfl := List.mem_singleton.1 htrack
    cases hhidden
  skipped := by
    intro clip hclip _
    rw [c.requiredClips_timeline, List.mem_singleton] at hclip
    rw [hclip]
    rfl
  heard := by
    intro numbered hnumbered
    have hzero : (Binary64.max .zero .zero * .ofInt 1000).isFinite = true := by decide +kernel
    rw [c.mem_soundLayers source hasAudio hnumbered]
    exact hzero
  anchored := fun o ho => absurd ho List.not_mem_nil
  sized := fun o ho => absurd ho List.not_mem_nil

theorem Extractor.exists_compileCut : ∃ p, e.compileCut source c = .ok p := by
  rw [← Outcome.isOk_iff]
  exact isOk_compile.2 ⟨c.isCompilable_timeline source e.hasAudio _,
    fun o ho => absurd ho List.not_mem_nil⟩

theorem Extractor.compileCut_congr {d : Cut} (hstart : d.start = c.start)
    (hfinish : d.finish = c.finish) : e.compileCut source d = e.compileCut source c := by
  rw [compileCut, compileCut, Cut.timeline, Cut.timeline, Cut.duration, Cut.duration, hstart,
    hfinish]

end Montage.Cutting
