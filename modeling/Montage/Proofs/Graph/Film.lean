import Montage.Proofs.Graph.Assembly
import Montage.Proofs.Number.Difference

/-!
# What a graph shows as time passes

`filmReading` reads a graph as a film: what frames lie over one another at each exact time, and when the
footage begins. Trimming keeps the times of frames, and a shift makes the first one come at the offset,
so that footage that is cut and shifted shows what lies as far behind its cut (`film_visual`).
-/

namespace Montage.Graph

open Binary64

/-- The bare canvas, or the picture of an input at one of its own times, with its size if scaled. -/
inductive Frame where
  | canvas (color : String) (width height : Int)
  | footage (input : Nat) (time : ℚ) (size : Option (Int × Int))
  deriving DecidableEq

def Frame.scale (width height : Int) : Frame → Frame
  | canvas color _ _ => canvas color width height
  | footage input time _ => footage input time (some (width, height))

/-- The time of the first frame, and the frames from bottom to top at each time. -/
structure Film where
  begins : ℚ
  shows : ℚ → List Frame

namespace Film

/-- One frame throughout. -/
def still (frame : Frame) (duration : ℚ) : Film where
  begins := 0
  shows t := if 0 ≤ t ∧ t < duration then [frame] else []

/-- An input from its beginning on. -/
def input (i : Nat) : Film where
  begins := 0
  shows t := if 0 ≤ t then [.footage i t none] else []

def trim (film : Film) (start duration : ℚ) : Film where
  begins := max start film.begins
  shows t := if start ≤ t ∧ t < start + duration then film.shows t else []

def scale (film : Film) (width height : Int) : Film where
  begins := film.begins
  shows t := (film.shows t).map (·.scale width height)

/-- The first frame comes at the offset, and the others as long after it as before. -/
def shift (film : Film) (offset : ℚ) : Film where
  begins := offset
  shows t := film.shows (t - offset + film.begins)

/-- One film over another one, within a window. -/
def laidOver (above below : Film) (start finish : ℚ) (closed : Bool) : Film where
  begins := below.begins
  shows t := below.shows t ++
    if start ≤ t ∧ (t < finish ∨ closed = true ∧ t = finish) then above.shows t else []

end Film

/-- Pictures only, and only with times that are numbers. -/
def filmReading : Reading Film where
  stream
    | i, .picture => some (.input i)
    | _, .sound => none
  apply
    | .color color width height duration, [] => do
      return .still (.canvas color width height) (← duration.toRat?)
    | .trim false start duration, [film] => do
      return film.trim (← start.toRat?) (← duration.toRat?)
    | .scale width height, [film] => some (film.scale width height)
    | .shift offset, [film] => do return film.shift (← offset.toRat?)
    | .overlay window 0 0, [below, above] => do
      return above.laidOver below (← window.start.toRat?) (← window.finish.toRat?) window.closed
    | .passthrough, [film] => some film
    | _, _ => none

variable {canvas : Canvas} {val : Label → Option Film} {q : Placed} {ss : List (Statement Binary64)}
  {start duration offset : ℚ}

/-- Footage that is cut from an input and shifted. -/
def placedFilm (canvas : Canvas) (i : Nat) (start duration offset : ℚ) : Film :=
  (((Film.input i).trim start duration).scale canvas.width canvas.height).shift offset

theorem shows_placedFilm (canvas : Canvas) (i : Nat) (hstart : 0 ≤ start) (u : ℚ) :
    (placedFilm canvas i start duration offset).shows u =
      if offset ≤ u ∧ u < offset + duration then
        [.footage i (start + (u - offset)) (some (canvas.width, canvas.height))]
      else [] := by
  simp only [placedFilm, Film.shift, Film.scale, Film.trim, Film.input, max_eq_left hstart]
  have hwindow : (start ≤ u - offset + start ∧ u - offset + start < start + duration) ↔
      offset ≤ u ∧ u < offset + duration := by
    constructor <;> rintro ⟨hlow, hhigh⟩ <;> constructor <;> linarith
  by_cases hu : offset ≤ u ∧ u < offset + duration
  · have hbegun : 0 ≤ u - offset + start := by linarith [hu.1]
    rw [if_pos (hwindow.2 hu), if_pos hu, if_pos hbegun, add_comm]
    rfl
  · rw [if_neg (mt hwindow.1 hu), if_neg hu]
    rfl

theorem film_visual (hsolves : filmReading.Solves ss val) (hmem : q.visual canvas ∈ ss)
    (hkind : q.isImage = false) (hstart : q.clip.trimStart.toRat? = some start)
    (hduration : q.clip.duration.toRat? = some duration) (hoffset : q.clip.start.toRat? = some offset) :
    val (.visual q.index) = some (placedFilm canvas q.index start duration offset) := by
  have hstream := hsolves.stream_eq q.index .picture
  have hvisual : val (.visual q.index) = _ := hsolves.output_eq _ hmem
  rw [hvisual, Reading.statement, Placed.visual]
  simp [hstream, hkind, hstart, hduration, hoffset, Reading.chain, filmReading, placedFilm]

theorem film_laidOver {stage : Nat} {below : Label} {film visual : Film} {finish : ℚ}
    (hsolves : filmReading.Solves ss val) (hmem : q.laidOver stage below ∈ ss)
    (hbelow : val below = some film) (hvisual : val (.visual q.index) = some visual)
    (hstart : q.clip.start.toRat? = some start) (hfinish : q.clip.finish.toRat? = some finish) :
    val (.stage stage) = some (visual.laidOver film start finish false) := by
  have hstage : val (.stage stage) = _ := hsolves.output_eq _ hmem
  rw [hstage, Reading.statement, Placed.laidOver]
  simp [hbelow, hvisual, hstart, hfinish, Reading.chain, filmReading]

/-! ### Programs with one layer -/

theorem Placed.Sounding.isLayer_eq {sounds : List (Statement Binary64)} (h : q.Sounding sounds) :
    ∀ s ∈ sounds, s.isLayer = false := by
  cases h with
  | silent _ => exact fun s hs => absurd hs List.not_mem_nil
  | heard _ _ =>
    intro s hs
    rw [List.mem_singleton.1 hs]
    rfl

theorem Stacked.single {stack : List (Statement Binary64)} {top : Label}
    (h : Stacked canvas [q] 0 .base stack top) (hseen : q.isSeen = true) :
    top = .stage 0 ∧ ∃ sounds, q.Sounding sounds ∧
      stack = q.visual canvas :: q.laidOver 0 .base :: sounds := by
  cases h with
  | @seen _ _ _ _ _ sounds more _ hsounds hmore =>
    cases hmore
    exact ⟨rfl, sounds, hsounds, by rw [List.append_nil]⟩
  | unseen hunseen => simp [hseen] at hunseen

variable {c : Compiler} {t : Timeline} {quality : Value} {assets : Option Assets}
  {p : Program Binary64}

/-- The statements of a program that has one layer and no texts: what is not listed is for sound. -/
theorem Compiled.statements_single (h : Compiled c t quality assets p)
    (hplaced : placed assets (layers t) = [q]) (hseen : q.isSeen = true) (htexts : t.overlays = []) :
    ∃ sounds : List (Statement Binary64), (∀ s ∈ sounds, s.isLayer = false) ∧
      p.statements = canvasStatement c.canvas t.totalDuration :: q.visual c.canvas ::
        q.laidOver 0 .base :: (sounds ++ [⟨[.stage 0], [.passthrough], .finalPicture⟩]) := by
  obtain @⟨stack, top, captions, warnings, hstack, hcaptions⟩ := h
  rw [hplaced] at hstack ⊢
  obtain ⟨rfl, sounds, hsounds, rfl⟩ := hstack.single hseen
  rw [htexts] at hcaptions
  cases hcaptions
  refine ⟨sounds ++ (mixStatement? (([q].filter (·.isHeard)).map fun q => .audio q.index)).toList,
    ?_, by simp [Compiler.assemble, captionStatements]⟩
  intro s hs
  rcases List.mem_append.1 hs with hs | hs
  · exact hsounds.isLayer_eq s hs
  · unfold mixStatement? at hs
    split at hs
    · cases hs
    · rw [List.mem_singleton.1 hs]
      rfl

/-- The film of a program that has one video and no texts. -/
theorem Compiled.film_single {length finish : ℚ} (h : Compiled c t quality assets p)
    (hplaced : placed assets (layers t) = [q]) (hkind : q.layer.kind = .video)
    (htexts : t.overlays = []) (hlength : t.totalDuration.toRat? = some length)
    (hstart : q.clip.trimStart.toRat? = some start) (hduration : q.clip.duration.toRat? = some duration)
    (hoffset : q.clip.start.toRat? = some offset) (hfinish : q.clip.finish.toRat? = some finish) :
    filmReading.meaning p.statements .finalPicture = some
      ((placedFilm c.canvas q.index start duration offset).laidOver
        (.still (.canvas canvasColor c.canvas.width c.canvas.height) length) offset finish false) := by
  have hsolves := h.solves filmReading
  obtain ⟨sounds, -, hstatements⟩ :=
    h.statements_single hplaced (by simp [Placed.isSeen, hkind]) htexts
  have hpart : ∀ s ∈ [canvasStatement c.canvas t.totalDuration, q.visual c.canvas,
      q.laidOver 0 .base, ⟨[.stage 0], [.passthrough], .finalPicture⟩], s ∈ p.statements := by
    rw [hstatements]
    simp
  generalize filmReading.meaning p.statements = val at hsolves ⊢
  have hcanvas : val .base = _ := hsolves.output_eq _ (hpart _ List.mem_cons_self)
  have hbase : val .base =
      some (.still (.canvas canvasColor c.canvas.width c.canvas.height) length) := by
    rw [hcanvas]
    simp [Reading.statement, canvasStatement, Reading.chain, filmReading, hlength]
  have hvisual := film_visual hsolves (hpart (q.visual c.canvas) (by simp))
    (by simp [Placed.isImage, hkind]) hstart hduration hoffset
  have hstage := film_laidOver hsolves (hpart (q.laidOver 0 .base) (by simp)) hbase hvisual hoffset
    hfinish
  have hfinal : val .finalPicture = _ :=
    hsolves.output_eq ⟨[.stage 0], [.passthrough], .finalPicture⟩ (hpart _ (by simp))
  rw [hfinal]
  simp [Reading.statement, hstage, Reading.chain, filmReading]

end Montage.Graph
