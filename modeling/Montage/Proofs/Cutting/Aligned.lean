import Montage.Cutting.Subtitle
import Montage.Proofs.Cutting.Numbered
import Montage.Proofs.Graph.Film
import Montage.Proofs.Number.Milliseconds
import Montage.Proofs.Render.Answering

/-!
# Subtitles and picture of a clip together

The program of a clip shows its source from the start of the clip on (`Extractor.compileCut_shows`).
What a clip takes from a transcript is in step with that: clamped without rounding, the texts that are
on at a time of the clip are those of the passages that are on in the recording as long after the start
of the clip (`Span.textsAt_clamp`). The cues of a clip are these spans with each end rounded once
(`Cut.cues_isRounded`).
-/

namespace Montage.Cutting

open Montage.Graph Binary64

/-! ### The picture -/

variable {σ : Type} {e : Extractor σ} {source : Source} {c : Cut} {program : Program Binary64}

/-- A program that shows one part of one input, from its first moment to its last. -/
structure ShowsCut (canvas : Canvas) (source : Source) (c : Cut) (p : Program Binary64) : Prop where
  inputs_eq : p.inputs.map (·.source) = [some source]
  layerCount_eq : p.layerCount = 1
  totalDuration_eq : p.totalDuration = c.duration
  statements_eq : p.statements.take 3 = [
    ⟨[], [.color canvasColor canvas.width canvas.height c.duration], .base⟩,
    ⟨[.stream 0 .picture], [.trim false c.start c.duration, .scale canvas.width canvas.height,
      .shift zero], .visual 0⟩,
    ⟨[.base, .visual 0], [.overlay ⟨zero, c.duration, false⟩ 0 0], .stage 0⟩]
  shows_eq : ∃ film, filmReading.meaning p.statements .finalPicture = some film ∧
    ∀ u, film.shows u = if 0 ≤ u ∧ u < c.duration.toRat then
      [.canvas canvasColor canvas.width canvas.height,
        .footage 0 (c.start.toRat + u) (some (canvas.width, canvas.height))]
      else []

/-- The only layer of the program of a clip. -/
def Cut.layer (c : Cut) (source : Source) (hasAudio : Bool) : Placed where
  index := 0
  layer := ⟨.video, c.footage (some source) hasAudio⟩
  source

theorem Cut.placed_timeline (c : Cut) (source : Source) (hasAudio : Bool) :
    placed (some [(extractId, { data := some .empty })])
      (layers (c.timeline (some source) hasAudio)) = [c.layer source hasAudio] :=
  rfl

section

variable (hstart : zero.le c.start = true) (hspan : c.start.lt c.finish = true)
  (hfinite : c.finish.isFinite = true)
include hstart hspan hfinite

theorem Cut.exists_duration_eq : ∃ u, ∃ hu : Representable u, 0 < u ∧ c.duration = finite false u hu :=
  exists_sub_eq hstart hspan hfinite

theorem Cut.isFinite_duration : c.duration.isFinite = true := by
  obtain ⟨u, hu, -, hduration⟩ := Cut.exists_duration_eq hstart hspan hfinite
  rw [hduration]
  rfl

theorem Cut.zero_add_duration : zero + c.duration = c.duration := by
  obtain ⟨u, hu, -, hduration⟩ := Cut.exists_duration_eq hstart hspan hfinite
  rw [hduration, zero_add_finite]

theorem Cut.totalDuration_timeline (source : Option Source) (hasAudio : Bool) :
    (c.timeline source hasAudio).totalDuration = c.duration := by
  obtain ⟨u, hu, -, hduration⟩ := Cut.exists_duration_eq hstart hspan hfinite
  have htotal : (c.timeline source hasAudio).totalDuration = .max zero (zero + c.duration) := rfl
  rw [htotal, hduration, zero_add_finite, max_zero]

theorem Cut.finish_layer (source : Source) (hasAudio : Bool) :
    (c.layer source hasAudio).clip.finish = c.duration :=
  Cut.zero_add_duration hstart hspan hfinite

theorem Extractor.compileCut_film (h : e.compileCut (some source) c = .ok program) :
    filmReading.meaning program.statements .finalPicture = some
      ((placedFilm e.compiler.canvas 0 c.start.toRat c.duration.toRat 0).laidOver
        (.still (.canvas canvasColor e.compiler.canvas.width e.compiler.canvas.height)
          c.duration.toRat) 0 c.duration.toRat false) := by
  have hcompiled := Compiled.of_compile h
  have hvalue := toRat?_eq_toRat (Cut.isFinite_duration hstart hspan hfinite)
  have hlength : (c.timeline (some source) e.hasAudio).totalDuration.toRat? =
      some c.duration.toRat := by
    rw [Cut.totalDuration_timeline hstart hspan hfinite, hvalue]
  have hcut : (c.layer source e.hasAudio).clip.trimStart.toRat? = some c.start.toRat :=
    toRat?_eq_toRat (isFinite_of_lt hstart hspan)
  have hduration : (c.layer source e.hasAudio).clip.duration.toRat? = some c.duration.toRat := hvalue
  have hoffset : (c.layer source e.hasAudio).clip.start.toRat? = some 0 :=
    toRat_zero ▸ toRat?_eq_toRat isFinite_zero
  have hfinish : (c.layer source e.hasAudio).clip.finish.toRat? = some c.duration.toRat := by
    rw [Cut.finish_layer hstart hspan hfinite, hvalue]
  have hfilm := hcompiled.film_single (c.placed_timeline source e.hasAudio) rfl rfl hlength hcut
    hduration hoffset hfinish
  exact hfilm

/-- The program of a clip shows its source from the start of the clip on. -/
theorem Extractor.compileCut_shows (h : e.compileCut (some source) c = .ok program) :
    ShowsCut e.compiler.canvas source c program := by
  have hcompiled := Compiled.of_compile h
  have hplaced := c.placed_timeline source e.hasAudio
  have htotal := Cut.totalDuration_timeline hstart hspan hfinite (some source) e.hasAudio
  have hbefore : 0 ≤ c.start.toRat := by
    rw [← toRat_zero, ← le_iff_toRat isFinite_zero (isFinite_of_lt hstart hspan)]
    exact hstart
  obtain ⟨sounds, hsounds, hstatements⟩ := hcompiled.statements_single hplaced rfl rfl
  refine ⟨?_, ?_, ?_, ?_, _, Extractor.compileCut_film hstart hspan hfinite h, fun u => ?_⟩
  · rw [hcompiled.inputs_eq, hplaced]
    rfl
  · have hnone : sounds.filter (·.isLayer) = [] := by
      refine List.filter_eq_nil_iff.2 fun s hs => ?_
      simp [hsounds s hs]
    rw [Program.layerCount, hstatements, List.filter_cons_of_neg Bool.false_ne_true,
      List.filter_cons_of_neg Bool.false_ne_true, List.filter_cons_of_pos rfl, List.filter_append,
      hnone]
    rfl
  · rw [← htotal]
    cases hcompiled
    rfl
  · simp only [hstatements, htotal, List.take_succ_cons, List.take_zero, canvasStatement,
      Placed.laidOver, Cut.finish_layer hstart hspan hfinite]
    rfl
  · simp only [Film.laidOver, Film.still, shows_placedFilm _ _ hbefore, zero_add, sub_zero]
    by_cases hu : 0 ≤ u ∧ u < c.duration.toRat
    · simp [hu]
    · simp [hu]

end

/-! ### The texts -/

/-- A text with the exact times at which it begins and ends. -/
structure Span where
  start : ℚ
  finish : ℚ
  text : String
  deriving DecidableEq

namespace Span

variable {a b u : ℚ} {s : Span} {spans : List Span}

def isOn (s : Span) (t : ℚ) : Prop := s.start ≤ t ∧ t < s.finish

instance (s : Span) (t : ℚ) : Decidable (s.isOn t) := inferInstanceAs (Decidable (_ ∧ _))

/-- The texts that are on at a time. -/
def textsAt (spans : List Span) (t : ℚ) : List String :=
  (spans.filter (·.isOn t)).map (·.text)

/-- What a clip from `a` to `b` takes from a span, in exact arithmetic. -/
def clamp (a b : ℚ) (s : Span) : Option Span :=
  if s.finish ≤ a ∨ b ≤ s.start ∨ s.text.isEmpty = true then none
  else some ⟨max 0 (s.start - a), min (b - a) (s.finish - a), s.text⟩

theorem textsAt_cons (s : Span) (spans : List Span) (t : ℚ) :
    textsAt (s :: spans) t = if s.isOn t then s.text :: textsAt spans t else textsAt spans t := by
  by_cases hon : s.isOn t <;> simp [textsAt, hon]

/-- Within the clip, a span that is clamped is on as long after the start of the clip. -/
theorem isOn_of_clamp {s' : Span} (h : clamp a b s = some s') (hlow : 0 ≤ u) (hhigh : u < b - a) :
    s'.isOn u ↔ s.isOn (a + u) := by
  unfold clamp at h
  split at h
  · cases h
  · cases h
    simp only [isOn, max_le_iff, lt_min_iff, hlow, hhigh, true_and]
    constructor <;> rintro ⟨hstart, hfinish⟩ <;> constructor <;> linarith

theorem text_of_clamp {s' : Span} (h : clamp a b s = some s') :
    s'.text = s.text ∧ s.text.isEmpty = false := by
  unfold clamp at h
  split at h
  · cases h
  · rename_i hnot
    cases h
    exact ⟨rfl, by simpa using fun hempty => hnot (.inr (.inr hempty))⟩

/-- What a clip leaves out is off all along the clip, or blank. -/
theorem isEmpty_of_clamp_eq_none (h : clamp a b s = none) (hlow : 0 ≤ u) (hhigh : u < b - a)
    (hon : s.isOn (a + u)) : s.text.isEmpty = true := by
  unfold clamp at h
  split at h
  · rename_i hout
    obtain ⟨hstart, hfinish⟩ := hon
    rcases hout with hbefore | hafter | hempty
    · linarith
    · linarith
    · exact hempty
  · cases h

/-- At each time of a clip, the clamped texts are those that are on in the recording. -/
theorem textsAt_clamp (hlow : 0 ≤ u) (hhigh : u < b - a) (spans : List Span) :
    textsAt (spans.filterMap (clamp a b)) u = (textsAt spans (a + u)).filter (!·.isEmpty) := by
  induction spans with
  | nil => rfl
  | cons s spans ih =>
    rw [textsAt_cons]
    cases hclamp : clamp a b s with
    | none =>
      rw [List.filterMap_cons_none hclamp, ih]
      split
      · rename_i hon
        rw [List.filter_cons_of_neg (by simp [isEmpty_of_clamp_eq_none hclamp hlow hhigh hon])]
      · rfl
    | some s' =>
      obtain ⟨htext, hfull⟩ := text_of_clamp hclamp
      have hon := isOn_of_clamp hclamp hlow hhigh
      rw [List.filterMap_cons_some hclamp, textsAt_cons, ih, htext]
      by_cases hs : s.isOn (a + u)
      · rw [if_pos hs, if_pos (hon.2 hs), List.filter_cons_of_pos (by simp [hfull])]
      · rw [if_neg hs, if_neg (mt hon.1 hs)]

end Span

/-- A passage, with its text as a cue shows it. -/
def Passage.span (p : Passage) : Span := ⟨p.start.toRat, p.finish.toRat, Text.strip p.text⟩

def Cue.span (cue : Cue) : Span := ⟨cue.start.toRat, cue.finish.toRat, cue.text⟩

/-- A cue with the text of a span, and each of its ends rounded. -/
structure Cue.IsRounded (cue : Cue) (s : Span) : Prop where
  start : IsFaithful cue.start s.start
  finish : IsFaithful cue.finish s.finish
  text_eq : cue.text = s.text

/-- The spans that a clip takes from a transcript, in exact arithmetic. -/
def Cut.spans (c : Cut) (transcript : List Passage) : List Span :=
  (transcript.map Passage.span).filterMap (Span.clamp c.start.toRat c.finish.toRat)

/-- A passage with times that are numbers. -/
def Passage.isTimed (p : Passage) : Bool := p.start.isFinite && p.finish.isFinite

variable {transcript : List Passage}

theorem Cut.cue?_isRounded {p : Passage} (hstart : c.start.isFinite = true)
    (hfinish : c.finish.isFinite = true) (hp : p.isTimed = true) :
    Option.Rel Cue.IsRounded (c.cue? p) (Span.clamp c.start.toRat c.finish.toRat p.span) := by
  obtain ⟨hpstart, hpfinish⟩ := Bool.and_eq_true_iff.1 hp
  have hbefore := le_iff_toRat hpfinish hstart
  have hafter := le_iff_toRat hfinish hpstart
  have hout : (p.finish.le c.start || c.finish.le p.start || (Text.strip p.text).isEmpty) = true ↔
      p.span.finish ≤ c.start.toRat ∨ c.finish.toRat ≤ p.span.start ∨ p.span.text.isEmpty = true := by
    simp only [Bool.or_eq_true, or_assoc, hbefore, hafter, Passage.span]
  unfold Cut.cue? Span.clamp
  by_cases h : (p.finish.le c.start || c.finish.le p.start || (Text.strip p.text).isEmpty) = true
  · rw [if_pos (hout.1 h), if_pos h]
    exact .none
  · rw [if_neg (mt hout.2 h), if_neg h]
    refine .some ⟨?_, ?_, rfl⟩
    · exact toRat_zero ▸ (IsFaithful.of_isFinite isFinite_zero).max (isFaithful_sub hpstart hstart)
    · exact (isFaithful_sub hfinish hstart).min (isFaithful_sub hpfinish hstart)

/-- The cues of a clip are what it takes in exact arithmetic, rounded. -/
theorem Cut.cues_isRounded (hstart : c.start.isFinite = true) (hfinish : c.finish.isFinite = true)
    (htimed : ∀ p ∈ transcript, p.isTimed = true) :
    List.Forall₂ Cue.IsRounded (c.cues transcript) (c.spans transcript) := by
  induction transcript with
  | nil => exact .nil
  | cons p transcript ih =>
    obtain ⟨hp, htimed⟩ := List.forall_mem_cons.1 htimed
    have hrest := ih htimed
    have hcue := Cut.cue?_isRounded hstart hfinish hp
    rw [cues, spans, List.map_cons] at *
    generalize hx : c.cue? p = x at hcue
    generalize hy : Span.clamp c.start.toRat c.finish.toRat p.span = y at hcue
    cases hcue with
    | none => rwa [List.filterMap_cons_none hx, List.filterMap_cons_none hy]
    | some hrounded =>
      rw [List.filterMap_cons_some hx, List.filterMap_cons_some hy]
      exact .cons hrounded hrest

/-- The format has a number for this value. -/
def IsNumber (q : ℚ) : Prop := ∃ x : Binary64, x.toRat? = some q

theorem Cue.IsRounded.span_eq {cue : Cue} {s : Span} (h : cue.IsRounded s) (hstart : IsNumber s.start)
    (hfinish : IsNumber s.finish) : cue.span = s := by
  obtain ⟨⟨x, hx⟩, ⟨y, hy⟩⟩ := hstart, hfinish
  rw [Cue.span, toRat_eq_of_toRat? (h.start.toRat?_eq hx), toRat_eq_of_toRat? (h.finish.toRat?_eq hy),
    h.text_eq]

theorem map_span_of_isRounded {cues : List Cue} {spans : List Span}
    (h : List.Forall₂ Cue.IsRounded cues spans)
    (hnumbers : ∀ s ∈ spans, IsNumber s.start ∧ IsNumber s.finish) : cues.map Cue.span = spans := by
  induction h with
  | nil => rfl
  | cons hrounded _ ih =>
    obtain ⟨⟨hstart, hfinish⟩, hnumbers⟩ := List.forall_mem_cons.1 hnumbers
    rw [List.map_cons, hrounded.span_eq hstart hfinish, ih hnumbers]

/-- The cues of a clip are those of exact arithmetic with their ends rounded, and these show what is
said in the recording at the same time; where nothing is rounded, both are the same. -/
structure LinesUp (c : Cut) (transcript : List Passage) : Prop where
  duration : IsFaithful c.duration (c.finish.toRat - c.start.toRat)
  cues : List.Forall₂ Cue.IsRounded (c.cues transcript) (c.spans transcript)
  textsAt_eq : ∀ u, 0 ≤ u → u < c.finish.toRat - c.start.toRat →
    Span.textsAt (c.spans transcript) u =
      (Span.textsAt (transcript.map Passage.span) (c.start.toRat + u)).filter (!·.isEmpty)
  exact : IsNumber (c.finish.toRat - c.start.toRat) →
    (∀ s ∈ c.spans transcript, IsNumber s.start ∧ IsNumber s.finish) →
      c.duration.toRat = c.finish.toRat - c.start.toRat ∧
        (c.cues transcript).map Cue.span = c.spans transcript

/-- At the same time of a clip, its picture and its subtitles are those of the same time of the
recording. -/
theorem Extractor.compileCut_aligned (e : Extractor σ) (source : Source) {c : Cut}
    {transcript : List Passage} (hstart : zero.le c.start = true) (hspan : c.start.lt c.finish = true)
    (hfinite : c.finish.isFinite = true) (htimed : ∀ p ∈ transcript, p.isTimed = true) :
    (∃ program, e.compileCut (some source) c = .ok program ∧
      ShowsCut e.compiler.canvas source c program) ∧ LinesUp c transcript := by
  have hstartFinite := isFinite_of_lt hstart hspan
  have hduration : IsFaithful c.duration (c.finish.toRat - c.start.toRat) :=
    isFaithful_sub hfinite hstartFinite
  have hcues := Cut.cues_isRounded hstartFinite hfinite htimed
  obtain ⟨program, hprogram⟩ := e.exists_compileCut (some source) c
  refine ⟨⟨program, hprogram, Extractor.compileCut_shows hstart hspan hfinite hprogram⟩, hduration,
    hcues, fun u hlow hhigh => Span.textsAt_clamp hlow hhigh _, ?_⟩
  rintro ⟨x, hx⟩ hnumbers
  exact ⟨toRat_eq_of_toRat? (hduration.toRat?_eq hx), map_span_of_isRounded hcues hnumbers⟩

/-! ### A part of a lecture -/

def lectureExtractor : Extractor (List String) where
  renderer := .answering fun _ => 0
  resolver := {}

def lectureSource : Source := ⟨.null, "lecture.mp4", "video/mp4"⟩

def lecture : List Passage := [
  ⟨0, 2, "Hello and welcome"⟩, ⟨3, .ofRatio 11 2, "Today we cover pricing"⟩, ⟨6, 7, "  "⟩,
  ⟨20, 22, "Thanks"⟩]

def lectureCut : Cut where
  start := .ofRatio 3 2
  finish := 7

theorem lectureCut_aligned : ∃ program,
    lectureExtractor.compileCut (some lectureSource) lectureCut = .ok program ∧
    (∃ film, filmReading.meaning program.statements .finalPicture = some film ∧
      film.shows 2 = [.canvas "black" 1920 1080, .footage 0 (7 / 2) (some (1920, 1080))]) ∧
    Span.textsAt ((lectureCut.cues lecture).map Cue.span) 2 = ["Today we cover pricing"] := by
  obtain ⟨⟨program, hprogram, hshows⟩, hlines⟩ :
      (∃ program, _ ∧ ShowsCut _ _ lectureCut program) ∧ LinesUp lectureCut lecture :=
    lectureExtractor.compileCut_aligned lectureSource (by decide +kernel) (by decide +kernel)
      (by decide +kernel) (by decide +kernel)
  have hstart : lectureCut.start.toRat = 3 / 2 := by decide +kernel
  have hlength : lectureCut.finish.toRat - lectureCut.start.toRat = 11 / 2 := by decide +kernel
  have hspans : lectureCut.spans lecture =
      [⟨0, 1 / 2, "Hello and welcome"⟩, ⟨3 / 2, 4, "Today we cover pricing"⟩] := by decide +kernel
  obtain ⟨hduration, hcues⟩ := hlines.exact (hlength ▸ ⟨.ofRatio 11 2, by decide +kernel⟩) (by
    rw [hspans]
    simp only [List.forall_mem_cons, List.not_mem_nil, false_imp_iff, implies_true, and_true]
    exact ⟨⟨⟨0, by decide +kernel⟩, ⟨.ofRatio 1 2, by decide +kernel⟩⟩,
      ⟨.ofRatio 3 2, by decide +kernel⟩, ⟨4, by decide +kernel⟩⟩)
  obtain ⟨film, hfilm, hframes⟩ := hshows.shows_eq
  refine ⟨program, hprogram, ⟨film, hfilm, ?_⟩, ?_⟩
  · have htime : (3 / 2 + 2 : ℚ) = 7 / 2 := by norm_num
    rw [hframes, hduration, hlength, hstart, if_pos (by norm_num), htime]
    rfl
  · rw [hcues, hlines.textsAt_eq 2 (by norm_num) (by rw [hlength]; norm_num), hstart]
    decide +kernel

end Montage.Cutting
