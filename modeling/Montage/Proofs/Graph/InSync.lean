import Montage.Proofs.Graph.Sound
import Montage.Proofs.Number.Milliseconds
import Montage.Timeline.Snapshot

/-!
# Sound and picture of a clip together

A clip with both is cut to one range of one input, and its picture and its sound are moved to the same
start (`compile_inSync`). The sound moves by whole milliseconds, so that it may be off by one half and a
rounding; and it cannot move before the start of the whole, where a picture still can.
-/

namespace Montage.Graph

open Outcome

/-- Whole milliseconds for a start in seconds: none before zero, else the nearest, up to the rounding
of a product. -/
structure IsNear (start : Binary64) (milliseconds : Int) : Prop where
  early : ∀ units, start.toUnits? = some units → units ≤ 0 → milliseconds = 0
  late : ∀ units, start.toUnits? = some units → 0 ≤ units → units < 10 ^ 9 * Binary64.one →
    |(milliseconds : ℚ) - 1000 * (units / Binary64.one)| ≤
      1 / 2 + 1000 * (units / Binary64.one) / 2 ^ 53

/-- The one statement for the picture of a clip and the one for its sound, from the same input. -/
structure InSync (canvas : Canvas) (p : Program Binary64) (clip : Clip) (i : Nat) : Prop where
  picture : p.statements.filter (fun s => .stream i .picture ∈ s.inputs) =
    [⟨[.stream i .picture], [.trim false clip.trimStart clip.duration,
      .scale canvas.width canvas.height, .shift clip.start], .visual i⟩]
  sound : ∃ delay, p.statements.filter (fun s => .stream i .sound ∈ s.inputs) =
    [⟨[.stream i .sound], [.trim true clip.trimStart clip.duration, .resetSound, .delay delay],
      .audio i⟩] ∧ IsNear clip.start delay

theorem isNear_delay {clip : Clip} {delay : Int} (h : clip.delay = .ok delay) :
    IsNear clip.start delay where
  early := by
    intro units hunits hnonpos
    rw [Clip.delay, Binary64.max_zero_of_nonpos hunits hnonpos, Timecode.milliseconds_zero] at h
    exact (Except.ok.inj h).symm
  late := by
    intro units hunits hnonneg hlimit
    obtain ⟨u, rfl⟩ := Int.eq_ofNat_of_zero_le hnonneg
    rw [Clip.delay, Binary64.max_zero_of_nonneg hunits] at h
    rw [Int.cast_natCast]
    exact Timecode.milliseconds_close _ (by exact_mod_cast hlimit) h

/-- The label for what is read from an input. -/
def Stream.madeLabel (i : Nat) : Stream → Label
  | .picture => .visual i
  | .sound => .audio i

variable {c : Compiler} {t : Timeline} {quality : Value} {assets : Option Assets}
  {p : Program Binary64} {s : Statement Binary64} {q : Placed}

/-! ### The statements of one input -/

theorem Stacked.seen_mem {canvas : Canvas} {ps : List Placed} {stage : Nat} {below top : Label}
    {stack : List (Statement Binary64)} (h : Stacked canvas ps stage below stack top) (hq : q ∈ ps)
    (hseen : q.isSeen = true) : q.visual canvas ∈ stack := by
  induction h with
  | done => cases hq
  | seen _ _ _ ih =>
    rcases List.mem_cons.1 hq with rfl | hq
    · simp
    · simp [ih hq]
  | unseen hunseen _ _ ih =>
    rcases List.mem_cons.1 hq with rfl | hq
    · rw [hseen] at hunseen
      cases hunseen
    · simp [ih hq]

namespace Compiled

variable (h : Compiled c t quality assets p)
include h

theorem seen (hq : q ∈ placed assets (layers t)) (hseen : q.isSeen = true) :
    q.visual c.canvas ∈ p.statements := by
  obtain @⟨stack, top, captions, warnings, hstack, -⟩ := h
  simp [Compiler.assemble, hstack.seen_mem hq hseen]

/-- What a stream of an input is read for. -/
theorem output_of_stream (hs : s ∈ p.statements) {i : Nat} {kind : Stream}
    (hread : .stream i kind ∈ s.inputs) :
    s.output = kind.madeLabel i := by
  have hpoint : ∀ {l : Label}, l.isPoint = true → .stream i kind = l → False := by
    rintro l hl rfl
    cases hl
  cases h.role hs with
  | canvas hcanvas => simp [hcanvas, canvasStatement] at hread
  | layer _ hmakes =>
    cases hmakes with
    | visual _ =>
      obtain ⟨rfl, rfl⟩ := Label.stream.inj (List.mem_singleton.1 hread)
      rfl
    | laidOver _ _ hbelow =>
      rcases List.mem_pair.1 hread with hl | hl
      · exact (hpoint hbelow hl).elim
      · cases hl
    | delayed _ _ =>
      obtain ⟨rfl, rfl⟩ := Label.stream.inj (List.mem_singleton.1 hread)
      rfl
  | mix hpoints hmix =>
    rw [hmix] at hread
    exact (hpoint (hpoints _ hread) rfl).elim
  | text hl hinputs _ _ =>
    rw [hinputs] at hread
    exact (hpoint hl (List.mem_singleton.1 hread)).elim

/-- A stream is read by one statement. -/
theorem filter_stream (hs : s ∈ p.statements) {i : Nat} {kind : Stream}
    (hread : .stream i kind ∈ s.inputs) :
    p.statements.filter (fun r => .stream i kind ∈ r.inputs) = [s] := by
  have honly : ∀ r ∈ p.statements, decide (.stream i kind ∈ r.inputs) = (r == s) := by
    intro r hr
    rw [Bool.eq_iff_iff, decide_eq_true_iff, beq_iff_eq]
    constructor
    · intro hother
      have houtput := (h.output_of_stream hr hother).trans (h.output_of_stream hs hread).symm
      exact List.inj_on_of_nodup_map h.nodup_outputs hr hs houtput
    · rintro rfl
      exact hread
  rw [List.filter_congr honly, List.filter_beq,
    List.count_eq_one_of_mem (List.Nodup.of_map _ h.nodup_outputs) hs]
  rfl

theorem inSync (hq : q ∈ placed assets (layers t)) (hkind : q.layer.kind = .video)
    (haudio : q.clip.hasAudio = true) : InSync c.canvas p q.clip q.index := by
  have hseen : q.isSeen = true := by simp [Placed.isSeen, hkind]
  have hheard : q.isHeard = true := by simp [Placed.isHeard, hkind, haudio]
  have himage : q.isImage = false := by simp [Placed.isImage, hkind]
  obtain ⟨delay, hdelay, hmem⟩ := h.heard hq hheard
  refine ⟨?_, delay, h.filter_stream hmem (List.mem_singleton.2 rfl), isNear_delay hdelay⟩
  rw [h.filter_stream (h.seen hq hseen) (List.mem_singleton.2 rfl), Placed.visual, himage]
  rfl

end Compiled

/-- The videos come first among the inputs. -/
theorem exists_placed_video {numbered : Clip × Nat}
    (hmem : numbered ∈ (t.available assets .video).zipIdx) :
    ∃ q ∈ placed assets (layers t), q.layer = ⟨.video, numbered.1⟩ ∧ q.index = numbered.2 := by
  have hkept : (⟨.video, numbered.1⟩, numbered.2) ∈ (keptLayers t assets).zipIdx := by
    rw [keptLayers, pictureLayers, List.append_assoc, List.zipIdx_append, List.zipIdx_map]
    exact List.mem_append_left _ (List.mem_map.2 ⟨numbered, hmem, rfl⟩)
  rw [← placed_zipIdx] at hkept
  obtain ⟨q, hq, heq⟩ := List.mem_map.1 hkept
  exact ⟨q, hq, congrArg Prod.fst heq, congrArg Prod.snd heq⟩

/-- Every video with sound keeps both together. -/
theorem compile_inSync (h : c.compile t quality assets = .ok p) :
    ∀ numbered ∈ (t.available assets .video).zipIdx, numbered.1.hasAudio = true →
      InSync c.canvas p numbered.1 numbered.2 := by
  intro numbered hmem haudio
  obtain ⟨q, hq, hlayer, hindex⟩ := exists_placed_video hmem
  have hclip : q.clip = numbered.1 := by rw [Placed.clip, hlayer]
  have hsync := (Compiled.of_compile h).inSync hq (by rw [hlayer]) (hclip ▸ haudio)
  rwa [hclip, hindex] at hsync

/-! ### One clip -/

def startSnapshot (start : Value) : Value := .record [("tracks", .list [.record [("type", "video"),
  ("clips", .list [.record [("url", "a"), ("duration", .int 1), ("start_time", start)]])]])]

theorem startSnapshot_inSync :
    ∃ t, Timeline.ofValue (startSnapshot "1:01.2345") = .ok t ∧ ∃ clip p,
      t.available none .video = [clip] ∧ ({} : Compiler).compile t "medium" none = .ok p ∧
        InSync {} p clip 0 := by
  have hcheck : (Timeline.ofValue (startSnapshot "1:01.2345")).toOption.any (fun t =>
      (t.available none .video).length = 1 && (t.available none .video).all (·.hasAudio) &&
        (({} : Compiler).compile t "medium" none).isOk) = true := by decide +kernel
  obtain ⟨t, ht, hcheck⟩ := exists_ok_of_any hcheck
  rw [Bool.and_eq_true_iff, Bool.and_eq_true_iff, decide_eq_true_iff] at hcheck
  obtain ⟨⟨hlength, haudio⟩, hok⟩ := hcheck
  obtain ⟨clip, hclip⟩ := List.length_eq_one_iff.1 hlength
  obtain ⟨p, hp⟩ := isOk_iff.1 hok
  refine ⟨t, ht, clip, p, hclip, hp, compile_inSync hp (clip, 0) ?_ ?_⟩
  · rw [hclip]
    exact List.mem_singleton.2 rfl
  · exact List.all_eq_true.1 haudio clip (hclip ▸ List.mem_singleton.2 rfl)

/-- At most one half between milliseconds and a start in seconds. -/
def IsHalfClose (start : Binary64) (milliseconds : Int) : Prop :=
  ∀ units ∈ start.toUnits?,
    2 * (milliseconds * Binary64.one - 1000 * units).natAbs ≤ Binary64.one

instance (start : Binary64) (milliseconds : Int) : Decidable (IsHalfClose start milliseconds) :=
  inferInstanceAs (Decidable (∀ _ ∈ _, _))

/-- A clip whose picture is moved by a time, and its sound by another one. -/
def Drifts (start : Value) (shift : Binary64) (delay : Int) : Prop :=
  ∃ t, Timeline.ofValue (startSnapshot start) = .ok t ∧
    ∃ p, ({} : Compiler).compile t "medium" none = .ok p ∧
      (∃ s ∈ p.statements, .stream 0 .picture ∈ s.inputs ∧ .shift shift ∈ s.filters) ∧
      (∃ s ∈ p.statements, .stream 0 .sound ∈ s.inputs ∧ .delay delay ∈ s.filters) ∧
      ¬ IsHalfClose shift delay

theorem drifts_of_check {start : Value} {shift : Binary64} {delay : Int}
    (hcheck : (Timeline.ofValue (startSnapshot start)).toOption.any (fun t =>
      (({} : Compiler).compile t "medium" none).toOption.any fun p =>
        (p.statements.any fun s => .stream 0 .picture ∈ s.inputs && .shift shift ∈ s.filters) &&
          p.statements.any fun s => .stream 0 .sound ∈ s.inputs && .delay delay ∈ s.filters) = true)
    (hfar : ¬ IsHalfClose shift delay) : Drifts start shift delay := by
  obtain ⟨t, ht, hcheck⟩ := exists_ok_of_any hcheck
  obtain ⟨p, hp, hcheck⟩ := exists_ok_of_any hcheck
  simp only [Bool.and_eq_true, List.any_eq_true, decide_eq_true_eq] at hcheck
  exact ⟨t, ht, p, hp, hcheck.1, hcheck.2, hfar⟩

/-- The sound of a clip before the start is late, and a product can be rounded onto a tie. -/
theorem startSnapshot_drifts :
    Drifts (.int (-2)) (.ofInt (-2)) 0 ∧ Drifts "0.0045" (.ofRatio 45 10000) 5 := by
  constructor
  · apply drifts_of_check
    · decide +kernel
    · decide +kernel
  · apply drifts_of_check
    · decide +kernel
    · decide +kernel

end Montage.Graph
