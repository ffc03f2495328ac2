import Montage.Graph.Compile
import Montage.Graph.Edit
import Montage.Proofs.Graph.Flow

/-!
# Programs in which some inputs are not heard

`Program.muted` takes the sounds of any number of inputs out of a program at once. Taking them out one
after the other gives the same, in whatever order and however often (`foldl_dropSound`), as long as no
statement makes the stream of an input.
-/

namespace Montage.Graph

/-- Whether a statement reads the sound of one of some inputs. -/
def Statement.readsAny (dropped : List Int) (s : Statement Binary64) : Bool :=
  dropped.any (s.readsSound ·)

namespace Program

/-- The labels that nothing makes any more when some inputs are not heard. -/
def lost (p : Program Binary64) (dropped : List Int) : List Label :=
  (p.statements.filter (·.readsAny dropped)).map (·.output)

/-- What is left of a statement then: nothing of one that reads the sound of such an input, and of the
mix what there still is to mix. -/
def left? (p : Program Binary64) (dropped : List Int) (s : Statement Binary64) :
    Option (Statement Binary64) :=
  if s.readsAny dropped then none
  else if s.output = .finalSound then mixStatement? (s.inputs.filter (· ∉ p.lost dropped))
  else some s

/-- Whether there is a mix, but nothing to mix any more. -/
def isSilenced (p : Program Binary64) (dropped : List Int) : Bool :=
  p.statements.any fun s => !s.readsAny dropped && (p.left? dropped s).isNone

def muted (p : Program Binary64) (dropped : List Int) : Program Binary64 :=
  { p with
    statements := p.statements.filterMap (p.left? dropped)
    sound := if p.isSilenced dropped then none else p.sound
    encode := if p.isSilenced dropped then p.encode.map ({ · with sound := none }) else p.encode
    warnings := p.warnings ++ dropped.map soundWarning }

variable {p : Program Binary64} {s r : Statement Binary64} {xs ys : List Int} {l : Label}

theorem mem_lost : l ∈ p.lost xs ↔ ∃ s ∈ p.statements, s.readsAny xs = true ∧ s.output = l := by
  simp [lost, and_assoc]

theorem readsAny_append (s : Statement Binary64) (xs ys : List Int) :
    s.readsAny (xs ++ ys) = (s.readsAny xs || s.readsAny ys) :=
  List.any_append

theorem unmix?_eq (s : Statement Binary64) (removed : List Label) :
    s.unmix? removed =
      if s.output = .finalSound then mixStatement? (s.inputs.filter (· ∉ removed)) else some s := by
  obtain ⟨inputs, filters, output⟩ := s
  by_cases hsound : output = .finalSound
  · subst hsound
    simp [Statement.unmix?, mixStatement?]
  · simp [Statement.unmix?, hsound]

theorem dropSound_eq (p : Program Binary64) (index : Int) : p.dropSound index = p.muted [index] := by
  have hreads : (fun s : Statement Binary64 => s.readsAny [index]) = (·.readsSound index) := by
    funext s
    simp [Statement.readsAny]
  have hleft : ∀ s, p.left? [index] s =
      if !s.readsSound index then s.unmix? (p.lost [index]) else none := by
    intro s
    rw [unmix?_eq, left?, congrFun hreads s]
    cases s.readsSound index <;> rfl
  have hlost : p.lost [index] = (p.statements.filter (·.readsSound index)).map (·.output) := by
    rw [lost, hreads]
  have hstatements : (p.statements.filter (!·.readsSound index)).filterMap
      (·.unmix? (p.lost [index])) = p.statements.filterMap (p.left? [index]) := by
    rw [List.filterMap_filter, funext hleft]
  have hsilent : ((p.statements.filter (!·.readsSound index)).any
      fun s => (s.unmix? (p.lost [index])).isNone) = p.isSilenced [index] := by
    rw [List.any_filter, isSilenced]
    congr 1
    funext s
    rw [congrFun hreads s, hleft]
    cases s.readsSound index <;> rfl
  simp only [dropSound, muted, ← hlost, hstatements, hsilent, List.map_cons, List.map_nil]

/-! ### One after the other -/

/-- A statement without inputs, other than the mix, is left as it is. -/
theorem mem_muted_of_inputs_eq_nil (hs : s ∈ p.statements) (hinputs : s.inputs = [])
    (houtput : s.output ≠ .finalSound) (xs : List Int) : s ∈ (p.muted xs).statements := by
  refine List.mem_filterMap.2 ⟨s, hs, ?_⟩
  have hreads : s.readsAny xs = false := by
    simp [Statement.readsAny, Statement.readsSound, Statement.reads, hinputs]
  rw [left?, hreads, if_neg (by simp), if_neg houtput]

theorem left?_eq_some (h : p.left? xs s = some r) :
    s.readsAny xs = false ∧ r.output = s.output ∧
      (s.output ≠ .finalSound ∧ r = s ∨
        s.output = .finalSound ∧ r.inputs = s.inputs.filter (· ∉ p.lost xs) ∧
          r.filters = [.mix r.inputs.length]) := by
  unfold left? at h
  split at h
  · cases h
  · rename_i hreads
    refine ⟨Bool.eq_false_iff.2 hreads, ?_⟩
    split at h
    · rename_i hsound
      unfold mixStatement? at h
      split at h
      · cases h
      · cases h
        exact ⟨hsound.symm, .inr ⟨hsound, rfl, rfl⟩⟩
    · rename_i hsound
      cases h
      exact ⟨rfl, .inl ⟨hsound, rfl⟩⟩

theorem no_gate_muted (hgate : ∀ s ∈ p.statements, ∀ f ∈ s.filters, ∀ w, f ≠ .gate w)
    (xs : List Int) : ∀ r ∈ (p.muted xs).statements, ∀ f ∈ r.filters, ∀ w, f ≠ .gate w := by
  intro r hr f hf
  obtain ⟨s, hs, hleft⟩ := List.mem_filterMap.1 hr
  obtain ⟨-, -, ⟨-, rfl⟩ | ⟨-, -, hfilters⟩⟩ := left?_eq_some hleft
  · exact hgate r hs f hf
  · rw [hfilters] at hf
    obtain rfl := List.mem_singleton.1 hf
    exact fun _ => nofun

theorem map_output_muted (p : Program Binary64) (xs : List Int) :
    (p.muted xs).statements.map (·.output) =
      (p.statements.filter fun s => (p.left? xs s).isSome).map (·.output) := by
  rw [muted, List.map_filterMap, ← List.filterMap_eq_map, List.filterMap_filter]
  congr 1
  funext s
  cases hleft : p.left? xs s with
  | none => rfl
  | some r => simp [(left?_eq_some hleft).2.1]

/-- A program whose statements make no stream of an input. -/
def MakesNoStream (p : Program Binary64) : Prop := ∀ s ∈ p.statements, s.output.isStream = false

namespace MakesNoStream

variable (h : p.MakesNoStream)
include h

theorem not_mem_lost (xs : List Int) (i : Nat) (kind : Stream) : .stream i kind ∉ p.lost xs := by
  intro hmem
  obtain ⟨s, hs, -, houtput⟩ := mem_lost.1 hmem
  have hstream := h s hs
  rw [houtput] at hstream
  cases hstream

theorem readsAny_of_inputs (hinputs : r.inputs = s.inputs.filter (· ∉ p.lost xs)) :
    r.readsAny ys = s.readsAny ys := by
  unfold Statement.readsAny
  congr 1
  funext i
  have hlost := h.not_mem_lost xs i.toNat .sound
  simp [Statement.readsSound, Statement.reads, hinputs, hlost]

theorem readsAny_of_left? (hleft : p.left? xs s = some r) : r.readsAny ys = s.readsAny ys := by
  obtain ⟨-, -, ⟨-, rfl⟩ | ⟨-, hinputs, -⟩⟩ := left?_eq_some hleft
  · rfl
  · exact h.readsAny_of_inputs hinputs

/-- A statement that reads the sound of another input is left. -/
theorem exists_left? (hxs : s.readsAny xs = false) (hys : s.readsAny ys = true) :
    ∃ r, p.left? xs s = some r := by
  obtain ⟨i, -, hi⟩ := List.any_eq_true.1 hys
  have hstream : .stream i.toNat .sound ∈ s.inputs.filter (· ∉ p.lost xs) := by
    have hlost := h.not_mem_lost xs i.toNat .sound
    simp_all [Statement.readsSound, Statement.reads]
  unfold left? mixStatement?
  rw [hxs, if_neg (by simp), List.isEmpty_eq_false_iff.2 (List.ne_nil_of_mem hstream)]
  split <;> exact ⟨_, rfl⟩

theorem readsAny_of_left?_eq_none (hxs : s.readsAny xs = false) (hleft : p.left? xs s = none) :
    s.readsAny ys = false := by
  cases hys : s.readsAny ys with
  | false => rfl
  | true =>
    obtain ⟨r, hr⟩ := h.exists_left? hxs hys
    rw [hleft] at hr
    cases hr

theorem mem_lost_append :
    l ∈ p.lost (xs ++ ys) ↔ l ∈ p.lost xs ∨ l ∈ (p.muted xs).lost ys := by
  simp only [mem_lost, readsAny_append, Bool.or_eq_true]
  constructor
  · rintro ⟨s, hs, hreads, rfl⟩
    by_cases hxs : s.readsAny xs = true
    · exact .inl ⟨s, hs, hxs, rfl⟩
    · have hys := hreads.resolve_left hxs
      obtain ⟨r, hr⟩ := h.exists_left? (Bool.eq_false_iff.2 hxs) hys
      refine .inr ⟨r, List.mem_filterMap.2 ⟨s, hs, hr⟩, ?_, (left?_eq_some hr).2.1⟩
      rwa [h.readsAny_of_left? hr]
  · rintro (⟨s, hs, hxs, rfl⟩ | ⟨r, hr, hys, rfl⟩)
    · exact ⟨s, hs, .inl hxs, rfl⟩
    · obtain ⟨s, hs, hleft⟩ := List.mem_filterMap.1 hr
      rw [h.readsAny_of_left? hleft] at hys
      exact ⟨s, hs, .inr hys, (left?_eq_some hleft).2.1.symm⟩

theorem left?_bind (s : Statement Binary64) :
    (p.left? xs s).bind ((p.muted xs).left? ys) = p.left? (xs ++ ys) s := by
  have hlost : (s.inputs.filter (· ∉ p.lost xs)).filter (· ∉ (p.muted xs).lost ys) =
      s.inputs.filter (· ∉ p.lost (xs ++ ys)) := by
    rw [List.filter_filter]
    congr 1
    funext l
    simp [h.mem_lost_append, Bool.and_comm]
  cases hxs : s.readsAny xs with
  | true => simp [left?, readsAny_append, hxs]
  | false =>
    by_cases hsound : s.output = .finalSound
    · cases hleft : p.left? xs s with
      | none =>
        have hys : s.readsAny ys = false := h.readsAny_of_left?_eq_none hxs hleft
        have hempty : s.inputs.filter (· ∉ p.lost xs) = [] := by
          simpa [left?, hxs, hsound, mixStatement?] using hleft
        rw [hempty, List.filter_nil] at hlost
        simp only [Option.bind_none, left?, readsAny_append, hxs, hys, hsound, ← hlost,
          mixStatement?, Bool.or_false, if_true]
        rfl
      | some r =>
        obtain ⟨-, houtput, ⟨hne, -⟩ | ⟨-, hinputs, -⟩⟩ := left?_eq_some hleft
        · exact absurd hsound hne
        · simp only [Option.bind_some, left?, readsAny_append, hxs, Bool.false_or,
            h.readsAny_of_inputs hinputs, houtput, hsound, hinputs, hlost, if_true]
    · simp [left?, readsAny_append, hxs, hsound]

theorem isSilenced_append (xs ys : List Int) :
    p.isSilenced (xs ++ ys) = (p.isSilenced xs || (p.muted xs).isSilenced ys) := by
  rw [Bool.eq_iff_iff]
  simp only [isSilenced, Bool.or_eq_true, List.any_eq_true, Bool.and_eq_true, Bool.not_eq_true',
    Option.isNone_iff_eq_none, readsAny_append, Bool.or_eq_false_iff, ← h.left?_bind]
  constructor
  · rintro ⟨s, hs, ⟨hxs, hys⟩, hnone⟩
    cases hleft : p.left? xs s with
    | none => exact .inl ⟨s, hs, hxs, hleft⟩
    | some r =>
      rw [hleft] at hnone
      refine .inr ⟨r, List.mem_filterMap.2 ⟨s, hs, hleft⟩, ?_, hnone⟩
      rwa [h.readsAny_of_left? hleft]
  · rintro (⟨s, hs, hxs, hleft⟩ | ⟨r, hr, hys, hnone⟩)
    · have hys : s.readsAny ys = false := h.readsAny_of_left?_eq_none hxs hleft
      exact ⟨s, hs, ⟨hxs, hys⟩, by rw [hleft]; rfl⟩
    · obtain ⟨s, hs, hleft⟩ := List.mem_filterMap.1 hr
      rw [h.readsAny_of_left? hleft] at hys
      exact ⟨s, hs, ⟨(left?_eq_some hleft).1, hys⟩, by rw [hleft]; exact hnone⟩

theorem muted_muted : (p.muted xs).muted ys = p.muted (xs ++ ys) := by
  have hstatements : ((p.muted xs).statements).filterMap ((p.muted xs).left? ys) =
      p.statements.filterMap (p.left? (xs ++ ys)) := by
    rw [← funext h.left?_bind]
    exact List.filterMap_filterMap
  have hsilenced := h.isSilenced_append xs ys
  unfold Program.muted at hstatements hsilenced ⊢
  simp only [hstatements, hsilenced, List.map_append, List.append_assoc]
  cases p.isSilenced xs <;> cases p.encode <;> simp

theorem foldl_muted (xs ys : List Int) : ys.foldl dropSound (p.muted xs) = p.muted (xs ++ ys) := by
  induction ys generalizing xs with
  | nil => rw [List.foldl_nil, List.append_nil]
  | cons y ys ih => rw [List.foldl_cons, dropSound_eq, h.muted_muted, ih, List.append_assoc]; rfl

/-- Taking the sounds of inputs out of a program one after the other takes them out at once. -/
theorem foldl_dropSound (hmuted : p.muted [] = p) (indices : List Int) :
    indices.foldl dropSound p = p.muted indices := by
  have hfold := h.foldl_muted [] indices
  rwa [hmuted] at hfold

end MakesNoStream

/-- Which inputs are not heard decides what is left, not how often or in what order they are given. -/
theorem muted_congr (p : Program Binary64) (hsame : ∀ i, i ∈ xs ↔ i ∈ ys) :
    { p.muted xs with warnings := [] } = { p.muted ys with warnings := [] } := by
  have hreads : Statement.readsAny xs = Statement.readsAny ys := by
    funext s
    rw [Bool.eq_iff_iff, Statement.readsAny, Statement.readsAny, List.any_eq_true, List.any_eq_true]
    exact exists_congr fun i => and_congr_left' (hsame i)
  have hlost : p.lost xs = p.lost ys := by rw [lost, lost, hreads]
  have hleft : p.left? xs = p.left? ys := by
    funext s
    rw [left?, left?, hreads, hlost]
  have hsilenced : p.isSilenced xs = p.isSilenced ys := by
    rw [isSilenced, isSilenced, hreads, hleft]
  simp only [muted, hleft, hsilenced]

end Program

end Montage.Graph
