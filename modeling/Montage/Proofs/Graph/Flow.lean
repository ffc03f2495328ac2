import Mathlib.Data.List.Perm.Basic
import Montage.Graph.Statement

/-!
# Graphs that use every label once

A graph is read from its first statement to its last with the list of labels that are open: made and
not taken yet. A statement takes open labels and opens the one that it makes. `Flow` is such a reading
as a whole. That nothing is taken twice, before it is made or not at all follows from it, given that
no label is made twice.
-/

open scoped List

namespace Montage.Graph

variable {τ : Type}

def Label.isStream : Label → Bool
  | .stream .. => true
  | _ => false

namespace Statement

/-- The labels of other statements that a statement takes. -/
def wires (s : Statement τ) : List Label := s.inputs.filter (!·.isStream)

/-- The streams of inputs that a statement reads. -/
def streams (s : Statement τ) : List Label := s.inputs.filter (·.isStream)

end Statement

/-- Statements that are read with some labels open leave others open; order does not matter. -/
inductive Flow : List Label → List (Statement τ) → List Label → Prop
  | done {opened left : List Label} (hleft : opened.Perm left) : Flow opened [] left
  | step {opened kept left : List Label} {s : Statement τ} {rest : List (Statement τ)}
      (htaken : opened.Perm (s.wires ++ kept)) (hrest : Flow (s.output :: kept) rest left) :
      Flow opened (s :: rest) left

namespace Flow

variable {opened middle left : List Label} {s : Statement τ} {ss rest : List (Statement τ)}

theorem perm_left {opened' : List Label} (h : Flow opened ss left) (hperm : opened'.Perm opened) :
    Flow opened' ss left := by
  cases h with
  | done hleft => exact .done (hperm.trans hleft)
  | step htaken hrest => exact .step (hperm.trans htaken) hrest

theorem append (h : Flow opened ss middle) (hrest : Flow middle rest left) :
    Flow opened (ss ++ rest) left := by
  induction h with
  | done hleft => exact hrest.perm_left hleft
  | step htaken _ ih => exact .step htaken (ih hrest)

/-- Labels that are open throughout change nothing. -/
theorem frame (h : Flow opened ss left) (more : List Label) :
    Flow (opened ++ more) ss (left ++ more) := by
  induction h with
  | done hleft => exact .done (hleft.append_right more)
  | step htaken _ ih =>
    refine .step ?_ ih
    simpa using htaken.append_right more

theorem perm_right {left' : List Label} (h : Flow opened ss left) (hperm : left.Perm left') :
    Flow opened ss left' := by
  simpa using h.append (.done hperm)

/-- A single statement, with other labels open beside those that it takes. -/
theorem single {taken : List Label} (hwires : s.wires = taken) (more : List Label) :
    Flow (taken ++ more) [s] (s.output :: more) :=
  .step (hwires ▸ .refl _) (.done (.refl _))

/-- What is opened, at first or by a statement, is what is taken or left. -/
theorem perm_outputs (h : Flow opened ss left) :
    (opened ++ ss.map (·.output)).Perm (ss.flatMap (·.wires) ++ left) := by
  induction h with
  | done hleft => simpa using hleft
  | @step opened kept left s rest htaken _ ih =>
    calc opened ++ (s :: rest).map (·.output)
      _ ~ (s.wires ++ kept) ++ s.output :: rest.map (·.output) := htaken.append_right _
      _ ~ s.wires ++ (s.output :: kept ++ rest.map (·.output)) := by
        rw [List.append_assoc]
        exact List.perm_middle.append_left _
      _ ~ s.wires ++ (rest.flatMap (·.wires) ++ left) := ih.append_left _
      _ ~ (s :: rest).flatMap (·.wires) ++ left := by simp

theorem isStream_output (h : Flow [] ss left) (hleft : ∀ l ∈ left, l.isStream = false) :
    ∀ s ∈ ss, s.output.isStream = false := by
  intro s hs
  have hmem := h.perm_outputs.mem_iff.1 (List.mem_map_of_mem hs)
  rcases List.mem_append.1 hmem with hwire | hlast
  · obtain ⟨r, -, hwire⟩ := List.mem_flatMap.1 hwire
    simpa using (List.mem_filter.1 hwire).2
  · exact hleft _ hlast

/-- A label is open before it is taken. -/
theorem opened_or_made {before after : List (Statement τ)} {l : Label}
    (h : Flow opened (before ++ s :: after) left) (hl : l ∈ s.wires) :
    l ∈ opened ∨ l ∈ before.map (·.output) := by
  induction before generalizing opened with
  | nil =>
    cases h with
    | step htaken _ => exact .inl (htaken.mem_iff.2 (by simp [hl]))
  | cons r before ih =>
    cases h with
    | @step _ kept _ _ _ htaken hrest =>
      rcases ih hrest with hopened | hmade
      · rcases List.mem_cons.1 hopened with rfl | hkept
        · exact .inr (by simp)
        · exact .inl (htaken.mem_iff.2 (by simp [hkept]))
      · exact .inr (List.mem_cons_of_mem _ hmade)

theorem split {before : List (Statement τ)} (h : Flow opened (before ++ ss) left) :
    ∃ middle, Flow opened before middle ∧ Flow middle ss left := by
  induction before generalizing opened with
  | nil => exact ⟨opened, .done (.refl _), h⟩
  | cons s before ih =>
    cases h with
    | step htaken hrest =>
      obtain ⟨middle, hbefore, hss⟩ := ih hrest
      exact ⟨middle, .step htaken hbefore, hss⟩

/-- A label that is not left over is taken after it is made. -/
theorem taken_after {before after : List (Statement τ)}
    (h : Flow opened (before ++ s :: after) left) (hleft : s.output ∉ left) :
    ∃ r ∈ after, s.output ∈ r.wires := by
  obtain ⟨middle, -, hs⟩ := h.split
  cases hs with
  | @step _ kept _ _ _ _ hafter =>
    have hopen : s.output ∈ (s.output :: kept) ++ after.map (·.output) := by simp
    have htaken := (List.mem_append.1 (hafter.perm_outputs.mem_iff.1 hopen)).resolve_right hleft
    exact List.mem_flatMap.1 htaken

theorem nodup_taken (h : Flow [] ss left) (hnodup : (ss.map (·.output)).Nodup) :
    (ss.flatMap (·.wires) ++ left).Nodup :=
  h.perm_outputs.nodup_iff.1 hnodup

/-- A graph without some of its labels, when these are made by the statements that are left out and
no other statement is left with them. -/
theorem restrict {f : Statement τ → Option (Statement τ)} {keeps : Label → Bool}
    (h : Flow opened ss left)
    (hnone : ∀ s ∈ ss, f s = none → s.wires.filter keeps = [] ∧ keeps s.output = false)
    (hsome : ∀ s ∈ ss, ∀ r, f s = some r →
      r.wires = s.wires.filter keeps ∧ r.output = s.output ∧ keeps s.output = true) :
    Flow (opened.filter keeps) (ss.filterMap f) (left.filter keeps) := by
  induction h with
  | done hleft => exact .done (hleft.filter keeps)
  | @step opened kept left s rest htaken _ ih =>
    have hrest := ih (fun r hr => hnone r (List.mem_cons_of_mem _ hr))
      (fun r hr => hsome r (List.mem_cons_of_mem _ hr))
    have htaken := htaken.filter keeps
    rw [List.filter_append] at htaken
    cases hs : f s with
    | none =>
      obtain ⟨hwires, houtput⟩ := hnone s List.mem_cons_self hs
      rw [hwires, List.nil_append] at htaken
      rw [List.filter_cons_of_neg (by simp [houtput])] at hrest
      rw [List.filterMap_cons_none hs]
      exact hrest.perm_left htaken
    | some r =>
      obtain ⟨hwires, houtput, hkeeps⟩ := hsome s List.mem_cons_self r hs
      rw [List.filter_cons_of_pos hkeeps] at hrest
      rw [List.filterMap_cons_some hs]
      exact .step (hwires ▸ htaken) (houtput ▸ hrest)

end Flow

end Montage.Graph
