import Montage.Proofs.Graph.Compilable
import Montage.Proofs.Graph.DrawTexts
import Montage.Proofs.Number.Monotone

/-!
# Where texts are anchored

Ratios are rounded to the nearest whole number, the larger one on a tie (`Ratio.isHalfUp_round`), and so are
the shares of a length at the percentages that the digits of numbers say (`Measure.places_percentOf`). The
texts of a compiled program are anchored at such shares of its canvas (`Graph.drawTexts_anchored`).
-/

namespace Montage

namespace Ratio

/-- A number as a ratio in lowest terms. -/
def ofRat (v : ℚ) : Ratio := ⟨v.num, v.den⟩

theorem value_ofRat (v : ℚ) : (ofRat v).value = v := Rat.num_div_den v

/-- To round to the nearest whole number, and a tie to the larger one. -/
structure IsHalfUp (round : ℚ → ℤ) : Prop where
  eq_iff : ∀ v n, round v = n ↔ (n : ℚ) - 1 / 2 ≤ v ∧ v < n + 1 / 2
  mono : ∀ v w, v ≤ w → round v ≤ round w
  add_int : ∀ v (k : ℤ), round (v + k) = round v + k

theorem isHalfUp_round : IsHalfUp fun v => (ofRat v).round := by
  have heq (v : ℚ) (n : ℤ) : (ofRat v).round = n ↔ (n : ℚ) - 1 / 2 ≤ v ∧ v < n + 1 / 2 := by
    rw [round_eq_iff v.pos, value_ofRat]
  refine ⟨heq, fun v w h => round_mono v.pos w.pos ?_, fun v k => ?_⟩
  · rwa [value_ofRat, value_ofRat]
  · obtain ⟨hlow, hhigh⟩ := (heq v _).1 rfl
    refine (heq (v + k) _).2 ?_
    push_cast
    constructor <;> linarith

end Ratio

namespace Timecode

open Binary64

variable {x y : Binary64} {r r' : Ratio}

theorem ratio?_eq_some : ratio? x = some r ↔ Ratio.read x.repr = .ok r := by
  rw [ratio?]
  cases Ratio.read x.repr <;> simp [Except.toOption]

theorem value_of_ratio? {negative : Bool} {units : Nat} {hunits : Representable units}
    (h : ratio? (finite negative units hunits) = some r) :
    r.value = (if negative then -1 else 1) * shortestValue units := by
  obtain ⟨r', hr', hvalue⟩ := ratio?_finite negative hunits
  rwa [← Option.some.inj (hr'.symm.trans h)]

/-- The digits of a larger number stand for no smaller one. -/
theorem value_le_of_le (hxy : x.le y = true) (hx : ratio? x = some r) (hy : ratio? y = some r') :
    r.value ≤ r'.value := by
  have hfinite {z : Binary64} {q : Ratio} (hz : ratio? z = some q) : z.isFinite = true := by
    rw [← isSome_ratio?, hz]
    rfl
  cases x with
  | finite s a ha =>
    cases y with
    | finite s' b hb =>
      have hnonneg := shortestValue_nonneg a
      have hnonneg' := shortestValue_nonneg b
      rw [value_of_ratio? hx, value_of_ratio? hy]
      cases s <;> cases s' <;> have hle := (le_iff_units rfl rfl).1 hxy <;>
        simp only [Bool.false_eq_true, if_true, if_false, one_mul, neg_one_mul]
      · exact shortestValue_mono ha hb (Int.ofNat_le.1 hle)
      · -- A number without a sign is at most one with a sign only if both are zero.
        obtain ⟨rfl, rfl⟩ : a = 0 ∧ b = 0 := by omega
        simp [shortestValue]
      · linarith
      · exact neg_le_neg (shortestValue_mono hb ha (by omega))
    | _ => cases hfinite hy
  | _ => cases hfinite hx

end Timecode

namespace Measure

open Binary64

variable {x y : Binary64} {r r' : Ratio} {length n : ℤ}

/-- A pixel at a percentage of a length: at most half a pixel from the share that the digits of the
percentage say, and within the length at percentages from zero to one hundred. -/
structure IsPixel (percent : Binary64) (length n : ℤ) : Prop where
  close : ∃ r, Timecode.ratio? percent = some r ∧ |(n : ℚ) - r.value * length / 100| ≤ 1 / 2
  within : zero.le percent = true → percent.le (.ofInt 100) = true → 0 ≤ n ∧ n ≤ length

/-- To have a pixel at each percentage, and no smaller ones at larger percentages. -/
structure Places (length : ℤ) (place : Binary64 → Except Fault ℤ) : Prop where
  pixel : ∀ x, x.isFinite = true → ∃ n, place x = .ok n ∧ IsPixel x length n
  mono : ∀ x y m n, x.le y = true → place x = .ok m → place y = .ok n → m ≤ n

theorem toRatio_eq_ok : (Value.float x).toRatio = .ok r ↔ Timecode.ratio? x = some r := by
  have hdisplay : (Value.float x).display = x.repr := rfl
  rw [Timecode.ratio?, Value.toRatio, hdisplay]
  cases Ratio.read x.repr with
  | ok r' => simp [Except.toOption]
  | error e => cases e <;> simp [Except.toOption]

theorem percentOf_eq_ok :
    percentOf x length = .ok n ↔ ∃ r, Timecode.ratio? x = some r ∧ ofPercent r length = n := by
  simp only [percentOf, Outcome.bind_eq_ok, Outcome.pure_eq_ok, toRatio_eq_ok]

/-- The share of a length at a percentage. -/
def share (percent : Ratio) (length : ℤ) : Ratio :=
  ⟨percent.numerator * length, percent.denominator * 100⟩

theorem ofPercent_eq (percent : Ratio) (length : ℤ) :
    ofPercent percent length = (share percent length).round := rfl

theorem value_share (percent : Ratio) (length : ℤ) :
    (share percent length).value = percent.value * length / 100 := by
  rw [share, Ratio.value, Ratio.value]
  push_cast
  ring

theorem denominator_share_pos (h : Timecode.ratio? x = some r) : 0 < (share r length).denominator :=
  Nat.mul_pos (Ratio.denominator_pos_of_read (Timecode.ratio?_eq_some.1 h)) (by decide)

theorem ofPercent_mono (hlength : 0 ≤ length) (hx : Timecode.ratio? x = some r)
    (hy : Timecode.ratio? y = some r') (h : x.le y = true) : ofPercent r length ≤ ofPercent r' length := by
  have hle := Timecode.value_le_of_le h hx hy
  have hlength : (0 : ℚ) ≤ length := by exact_mod_cast hlength
  rw [ofPercent_eq, ofPercent_eq]
  refine Ratio.round_mono (denominator_share_pos hx) (denominator_share_pos hy) ?_
  rw [value_share, value_share]
  gcongr

theorem ofPercent_zero (length : ℤ) :
    ∃ r, Timecode.ratio? zero = some r ∧ ofPercent r length = 0 := by
  have hread : Timecode.ratio? zero = some ⟨0, 10⟩ := by decide +kernel
  refine ⟨⟨0, 10⟩, hread, ?_⟩
  rw [ofPercent_eq, Ratio.round_eq_iff (by decide : 0 < 10 * 100), value_share]
  norm_num [Ratio.value]

theorem ofPercent_hundred (length : ℤ) :
    ∃ r, Timecode.ratio? (.ofInt 100) = some r ∧ ofPercent r length = length := by
  have hread : Timecode.ratio? (.ofInt 100) = some ⟨1000, 10⟩ := by decide +kernel
  refine ⟨⟨1000, 10⟩, hread, ?_⟩
  rw [ofPercent_eq, Ratio.round_eq_iff (by decide : 0 < 10 * 100), value_share]
  norm_num [Ratio.value]

theorem isPixel_of_percentOf (hlength : 0 ≤ length) (h : percentOf x length = .ok n) :
    IsPixel x length n := by
  obtain ⟨r, hr, rfl⟩ := percentOf_eq_ok.1 h
  refine ⟨⟨r, hr, ?_⟩, fun hlow hhigh => ?_⟩
  · have hpos : 0 < (share r length).denominator := denominator_share_pos hr
    obtain ⟨hlow, hhigh⟩ := Ratio.round_spec hpos
    rw [value_share] at hlow hhigh
    rw [ofPercent_eq, abs_le]
    constructor <;> linarith
  · obtain ⟨_, hr₀, hzero⟩ := ofPercent_zero length
    obtain ⟨_, hr₁, hhundred⟩ := ofPercent_hundred length
    exact ⟨hzero.ge.trans (ofPercent_mono hlength hr₀ hr hlow),
      (ofPercent_mono hlength hr hr₁ hhigh).trans hhundred.le⟩

theorem places_percentOf (hlength : 0 ≤ length) : Places length fun x => percentOf x length where
  pixel x hx := by
    obtain ⟨n, hn⟩ := Outcome.isOk_iff.1 ((isOk_percentOf x length).2 hx)
    exact ⟨n, hn, isPixel_of_percentOf hlength hn⟩
  mono x y m n hxy hx hy := by
    obtain ⟨r, hr, rfl⟩ := percentOf_eq_ok.1 hx
    obtain ⟨r', hr', rfl⟩ := percentOf_eq_ok.1 hy
    exact ofPercent_mono hlength hr hr' hxy

end Measure

namespace Graph

open Outcome

/-- A text at the pixels where an overlay asks for it. -/
structure IsAnchored (canvas : Canvas) (o : TextOverlay) (d : DrawText Binary64) : Prop where
  x : Measure.IsPixel o.x canvas.width d.anchorX
  y : Measure.IsPixel o.y canvas.height d.anchorY

theorem drawTexts_anchored {c : Compiler} {t : Timeline} {quality : Value} {assets : Option Assets}
    {p : Program Binary64} (hwidth : 0 ≤ c.canvas.width) (hheight : 0 ≤ c.canvas.height)
    (h : c.compile t quality assets = .ok p) :
    List.Forall₂ (IsAnchored c.canvas) t.overlays p.drawTexts := by
  refine (Compiled.of_compile h).forall₂_drawTexts fun numbered caption hcaption => ?_
  obtain ⟨data, x, y, size, -, hx, hy, -, rfl⟩ := ofOverlay_eq_ok.1 hcaption
  exact ⟨Measure.isPixel_of_percentOf hwidth hx, Measure.isPixel_of_percentOf hheight hy⟩

/-- Ratios are rounded half up, percentages of a length are placed that way, and so are the anchors of the
texts on a canvas. -/
theorem anchors_halfUp :
    Ratio.IsHalfUp (fun v => (Ratio.ofRat v).round) ∧
      (∀ length, 0 ≤ length → Measure.Places length fun x => Measure.percentOf x length) ∧
      ∀ (c : Compiler) (t : Timeline) (quality : Value) (assets : Option Assets) (p : Program Binary64),
        0 ≤ c.canvas.width → 0 ≤ c.canvas.height → c.compile t quality assets = .ok p →
          List.Forall₂ (IsAnchored c.canvas) t.overlays p.drawTexts :=
  ⟨Ratio.isHalfUp_round, fun _ => Measure.places_percentOf, fun _ _ _ _ _ => drawTexts_anchored⟩

/-- A text in a corner, and one at halves of pixels. -/
def cornerTimeline : Timeline where
  overlays := [
    { id := "corner", text := "One", start := .zero, duration := 1, x := .zero, y := 100 },
    { id := "half", text := "Two", start := 1, duration := 1, x := .ofRatio (-5) 64, y := .ofRatio 125 4 }]

theorem cornerTimeline_anchored : (0 : ℤ) ≤ 1920 ∧ (0 : ℤ) ≤ 1080 ∧
    Measure.Places 1080 (fun x => Measure.percentOf x 1080) ∧
    Measure.percentOf (Binary64.ofRatio 125 4) 1080 = .ok 338 ∧
    ∃ p, ({} : Compiler).compile cornerTimeline = .ok p ∧
      List.Forall₂ (IsAnchored {}) cornerTimeline.overlays p.drawTexts := by
  have hcompiles : IsCompilable cornerTimeline none ∧
      ∀ o ∈ cornerTimeline.overlays, (captionData o.text).isOk = true := by decide +kernel
  obtain ⟨p, hp⟩ := isOk_iff.1 (isOk_compile.2 hcompiles)
  exact ⟨by decide, by decide, anchors_halfUp.2.1 1080 (by decide), by decide +kernel, p, hp,
    anchors_halfUp.2.2 {} _ _ _ p (by decide) (by decide) hp⟩

end Graph

end Montage
