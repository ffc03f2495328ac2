import Mathlib.Data.List.Nodup
import Mathlib.Logic.Function.Basic
import Montage.Proofs.Graph.Flow

/-!
# Reading a graph

A `Reading` gives meanings to the streams of inputs and says what a filter makes of meanings. A graph
is read in one pass from its first statement to its last (`Reading.meaning`). Where every label is
used once, the order no longer matters in what comes out: each label means what its own statement
says of the labels that it takes (`Flow.solves`).
-/

namespace Montage.Graph

structure Reading (V : Type) where
  stream : Nat → Stream → Option V
  apply : Filter Binary64 → List V → Option V

namespace Reading

variable {V : Type} (m : Reading V)

/-- The first filter takes what the statement takes, each other what the one before it gives. -/
def chain : List (Filter Binary64) → List V → Option V
  | [], [v] => some v
  | [], _ => none
  | f :: rest, vs => do chain rest [← m.apply f vs]

def statement (val : Label → Option V) (s : Statement Binary64) : Option V := do
  m.chain s.filters (← s.inputs.mapM val)

/-- What a label means, given the meanings of the labels made so far. -/
def look (made : Label → Option V) : Label → Option V
  | .stream i kind => m.stream i kind
  | l => made l

def run (ss : List (Statement Binary64)) (made : Label → Option V) : Label → Option V :=
  ss.foldl (fun made s => Function.update made s.output (m.statement (m.look made) s)) made

def meaning (ss : List (Statement Binary64)) : Label → Option V :=
  m.look (m.run ss fun _ => none)

/-- Meanings of labels that agree with every statement. -/
structure Solves (ss : List (Statement Binary64)) (val : Label → Option V) : Prop where
  stream_eq : ∀ i kind, val (.stream i kind) = m.stream i kind
  output_eq : ∀ s ∈ ss, val s.output = m.statement val s

variable {m} {made : Label → Option V} {val val' : Label → Option V} {s : Statement Binary64}
  {ss : List (Statement Binary64)}

theorem Solves.mono {ss' : List (Statement Binary64)} (h : m.Solves ss val)
    (hsub : ∀ s ∈ ss', s ∈ ss) : m.Solves ss' val :=
  ⟨h.stream_eq, fun s hs => h.output_eq s (hsub s hs)⟩

theorem look_of_isStream {made' : Label → Option V} {l : Label} (hl : l.isStream = true) :
    m.look made l = m.look made' l := by
  cases l <;> first | rfl | cases hl

theorem look_update_self {l : Label} (hl : l.isStream = false) (v : Option V) :
    m.look (Function.update made l v) l = v := by
  have hlook : m.look (Function.update made l v) l = Function.update made l v l := by
    cases l <;> first | rfl | cases hl
  rw [hlook, Function.update_self]

theorem look_update_of_ne {l l' : Label} (hne : l ≠ l') (v : Option V) :
    m.look (Function.update made l' v) l = m.look made l := by
  cases l <;> first | rfl | exact Function.update_of_ne hne v made

/-- A label keeps its meaning while others are made. -/
theorem look_run_of_not_mem {l : Label} (hl : l ∉ ss.map (·.output)) :
    m.look (m.run ss made) l = m.look made l := by
  induction ss generalizing made with
  | nil => rfl
  | cons s ss ih =>
    rw [List.map_cons, List.mem_cons, not_or] at hl
    obtain ⟨hne, hrest⟩ := hl
    calc m.look (m.run (s :: ss) made) l
      _ = m.look (Function.update made s.output (m.statement (m.look made) s)) l := ih hrest
      _ = m.look made l := look_update_of_ne hne _

theorem mapM_congr {ls : List Label} (h : ∀ l ∈ ls, val l = val' l) :
    ls.mapM val = ls.mapM val' := by
  induction ls with
  | nil => rfl
  | cons l ls ih =>
    obtain ⟨hl, hls⟩ := List.forall_mem_cons.1 h
    rw [List.mapM_cons, List.mapM_cons, hl, ih hls]

end Reading

open Reading

/-- A graph that uses every label once is solved by its own meanings. -/
theorem Flow.solves {V : Type} (m : Reading V) {ss : List (Statement Binary64)} {left : List Label}
    (h : Flow [] ss left) (hleft : ∀ l ∈ left, l.isStream = false)
    (hnodup : (ss.map (·.output)).Nodup) : m.Solves ss (m.meaning ss) := by
  refine ⟨fun _ _ => rfl, fun s hs => ?_⟩
  have hstream := h.isStream_output hleft s hs
  obtain ⟨before, after, rfl⟩ := List.append_of_mem hs
  rw [List.map_append, List.map_cons, List.nodup_append'] at hnodup
  obtain ⟨-, hafter, hdisjoint⟩ := hnodup
  have hmeaning : m.meaning (before ++ s :: after) =
      m.look (m.run (s :: after) (m.run before fun _ => none)) := by
    simp [meaning, run]
  generalize m.run before (fun _ => none) = made at hmeaning
  -- What a statement takes was made before it and is not made again.
  have hinputs : ∀ l ∈ s.inputs, m.look made l = m.meaning (before ++ s :: after) l := by
    intro l hl
    cases hisStream : l.isStream with
    | true => exact look_of_isStream hisStream
    | false =>
      have hwire : l ∈ s.wires := List.mem_filter.2 ⟨hl, by simp [hisStream]⟩
      have hmade := (h.opened_or_made hwire).resolve_left List.not_mem_nil
      rw [hmeaning, look_run_of_not_mem (hdisjoint hmade)]
  calc m.meaning (before ++ s :: after) s.output
    _ = m.look (m.run after (Function.update made s.output (m.statement (m.look made) s)))
          s.output := by rw [hmeaning]; rfl
    _ = m.look (Function.update made s.output (m.statement (m.look made) s)) s.output :=
      look_run_of_not_mem (List.nodup_cons.1 hafter).1
    _ = m.statement (m.look made) s := look_update_self hstream _
    _ = m.statement (m.meaning (before ++ s :: after)) s := by
      rw [statement, statement, mapM_congr hinputs]

end Montage.Graph
