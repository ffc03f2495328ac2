import Montage.Proofs.Number.Clock
import Montage.Terminal.Board

/-!
# What a board shows

A board on the screen recalls what has happened since it was put there (`Terminal.Recalls`): each event keeps
to this (`Terminal.Recalls.play`), and so does every sequence of events (`Terminal.Recalls.after`). Hence what
it shows follows from these events alone (`Terminal.Board.play_displays`), unless an export ends at the very
reading of the clock at which it started, and the clock moves on.
-/

namespace Montage

namespace Terminal

open Binary64 Outcome

/-- A span of time of moderate length has a text. -/
theorem isOk_durationText {k : Nat} (hk : k ≤ 1000) {x : Binary64} (h : x.le (.ofInt (2 ^ k)) = true) :
    (durationText x).isOk = true := by
  by_cases hshort : x.lt sixty = true
  · rw [durationText, if_pos hshort]
    rfl
  · have hsixty := ofInt_natCast (n := 60) (by decide)
    rw [Nat.cast_ofNat] at hsixty
    change sixty = _ at hsixty
    rw [durationText, if_neg hshort]
    rw [ofInt_two_pow (by omega)] at h
    rw [hsixty] at hshort ⊢
    have hone : one ≤ 60 * one := Nat.le_mul_of_pos_left one (by decide)
    have hunsigned := isUnsigned_of_not_lt (Binary64.one_pos.trans_le hone) (isNaN_of_le h).1 hshort
    obtain ⟨u, hu, rfl, hle⟩ := Timecode.eq_finite_of_le hunsigned h
    have hnext : Nat.pow 2 k * one + one ≤ Nat.pow 2 (k + 1) * one := by
      have hpower : Nat.pow 2 k + 1 ≤ Nat.pow 2 (k + 1) := Nat.pow_lt_pow_right Nat.one_lt_two k.lt_succ_self
      rw [← Nat.succ_mul]
      exact Nat.mul_le_mul_right one hpower
    obtain ⟨w, hw, hquotient, hwlimit⟩ := isUpTo_floorDiv hu (representable_mul_one (by decide)) hone
      (representable_two_pow_mul_one (by omega)) ((Nat.add_le_add_right hle one).trans hnext)
    have hminutes := Value.toInt_finite hw
    have hwhole : w / one ≤ Nat.pow 2 (k + 1) := Nat.div_le_of_le_mul (by rwa [Nat.mul_comm])
    rw [hquotient]
    generalize w / one = minutes at hminutes hwhole
    have hfinite : (ofInt (minutes * 60 : Nat)).isFinite = true := by
      have hlimit : Nat.pow 2 (k + 1) * 60 ≤ Nat.pow 2 (k + 1 + 6) := by
        rw [Nat.pow_eq, Nat.pow_eq, Nat.pow_add 2 (k + 1)]
        exact Nat.mul_le_mul_left _ (by decide)
      exact isFinite_ofInt (by omega) ((Nat.mul_le_mul_right 60 hwhole).trans hlimit)
    exact isOk_bind.2 ⟨_, hminutes, isOk_bind.2 ⟨_, Value.toBinary64_int hfinite, rfl⟩⟩

/-! ### Events -/

/-- A change to a board that is mounted. -/
inductive Call where
  | setStage (stage : String)
  | setProgress (percent : Int)
  | setProblem (problem trace : String)
  | finish
  | refresh

namespace Call

def change : Call → Board → Changed
  | setStage stage, b => b.setStage stage
  | setProgress percent, b => b.setProgress percent
  | setProblem problem trace, b => (.ok (), b.setProblem problem trace)
  | finish, b => b.finish
  | refresh, b => b.refresh

/-- A problem is only kept and written to the log; all others show the metrics again. -/
def isProblem : Call → Bool
  | setProblem .. => true
  | _ => false

def isFinish : Call → Bool
  | finish => true
  | _ => false

def stage? : Call → Option String
  | setStage stage => some stage
  | _ => none

def percent? : Call → Option Int
  | setProgress percent => some percent
  | _ => none

end Call

/-- A call at a reading of the clock. -/
structure Event where
  clock : Binary64
  call : Call

def Event.play (e : Event) (b : Board) : Changed := e.call.change { b with clock := e.clock }

/-- A board after some events, those that cannot be shown among them. -/
def Board.after (b : Board) (events : List Event) : Board := events.foldl (fun b e => (e.play b).2) b

/-! ### What has happened -/

def hasProblem (history : List Event) : Bool := history.any (·.call.isProblem)

/-- The reading of the clock at the first end. -/
def firstFinish? (history : List Event) : Option Binary64 :=
  (history.find? (·.call.isFinish)).map (·.clock)

def lastStage (history : List Event) : String :=
  (history.filterMap (·.call.stage?)).getLast?.getD "loading"

def lastPercent (history : List Event) : Int :=
  (history.filterMap (·.call.percent?)).getLast?.getD 0

/-- Failed after a problem, else done after an end, else the last stage. -/
def statusOf (history : List Event) : String :=
  if hasProblem history then "failed"
  else if (firstFinish? history).isSome then "done"
  else lastStage history

/-- The time from the start to the first end, or up to now. -/
def elapsedOf (start now : Binary64) (history : List Event) : Binary64 :=
  (firstFinish? history).getD now - start

/-- What a board shows after some events and a span of time, up to characters that cannot be shown. -/
def displayAt (elapsed : Binary64) (history : List Event) : Except Fault String := do
  let elapsed ← durationText elapsed
  return withoutControls
    s!"Status: {statusOf history}\nElapsed: {elapsed}\nProgress: {lastPercent history}%"

/-- What a board has to show after some events. -/
def displayOf (start now : Binary64) (history : List Event) : Except Fault String :=
  displayAt (elapsedOf start now history) history

section History

variable (history : List Event) (e : Event)

theorem hasProblem_append :
    hasProblem (history ++ [e]) = (hasProblem history || e.call.isProblem) := by
  simp [hasProblem]

theorem firstFinish?_append : firstFinish? (history ++ [e]) =
    (firstFinish? history).or (if e.call.isFinish then some e.clock else none) := by
  rw [firstFinish?, List.find?_append, firstFinish?]
  cases history.find? (·.call.isFinish) <;> cases hfinish : e.call.isFinish <;> simp [hfinish]

theorem lastStage_append :
    lastStage (history ++ [e]) = e.call.stage?.getD (lastStage history) := by
  rw [lastStage, List.filterMap_append, lastStage]
  cases hstage : e.call.stage? <;> simp [hstage]

theorem lastPercent_append :
    lastPercent (history ++ [e]) = e.call.percent?.getD (lastPercent history) := by
  rw [lastPercent, List.filterMap_append, lastPercent]
  cases hpercent : e.call.percent? <;> simp [hpercent]

end History

/-! ### What a board knows -/

/-- A board that was mounted at a reading of the clock, and knows what has happened since. -/
structure Recalls (start : Binary64) (history : List Event) (b : Board) : Prop where
  mounted : b.mounted = true
  startTime : b.startTime = some start
  percent : b.percent = lastPercent history
  stage : b.stage = lastStage history
  finished : b.finished = (firstFinish? history).isSome
  finishTime : b.finishTime = (firstFinish? history).map (· - start)
  problem : b.problem.isSome = hasProblem history

/-- What an event changes of what a board recalls. -/
structure Follows (start : Binary64) (b : Board) (e : Event) (b' : Board) : Prop where
  mounted : b'.mounted = b.mounted
  startTime : b'.startTime = b.startTime
  percent : b'.percent = e.call.percent?.getD b.percent
  stage : b'.stage = e.call.stage?.getD b.stage
  finished : b'.finished = (b.finished || e.call.isFinish)
  finishTime : b'.finishTime = b.finishTime.or (if e.call.isFinish then some (e.clock - start) else none)
  problem : b'.problem.isSome = (b.problem.isSome || e.call.isProblem)

variable {start : Binary64} {history : List Event} {e : Event} {b b' : Board}

namespace Recalls

theorem step (h : Recalls start history b) (hfollows : Follows start b e b') :
    Recalls start (history ++ [e]) b' where
  mounted := hfollows.mounted.trans h.mounted
  startTime := hfollows.startTime.trans h.startTime
  percent := by rw [hfollows.percent, h.percent, lastPercent_append]
  stage := by rw [hfollows.stage, h.stage, lastStage_append]
  finished := by
    rw [hfollows.finished, h.finished, firstFinish?_append]
    cases firstFinish? history <;> cases e.call.isFinish <;> rfl
  finishTime := by
    rw [hfollows.finishTime, h.finishTime, firstFinish?_append]
    cases firstFinish? history <;> cases e.call.isFinish <;> rfl
  problem := by rw [hfollows.problem, h.problem, hasProblem_append]

theorem refresh (h : Recalls start history b) : Recalls start history b.refresh.2 := by
  unfold Board.refresh Board.display
  split
  · split
    · exact { h with }
    · exact h
  · exact h

theorem write (h : Recalls start history b) (entry : LogEntry) :
    Recalls start history (b.write entry) := by
  unfold Board.write
  split
  · exact { h with }
  · exact h

/-- Apart from a problem, an event ends with a refresh of a board that knows of it. -/
theorem exists_refresh (h : Recalls start history b) (he : e.call.isProblem = false) :
    ∃ b', e.play b = b'.refresh ∧ b'.clock = e.clock ∧ Recalls start (history ++ [e]) b' := by
  obtain ⟨clock, call⟩ := e
  cases call with
  | setStage stage =>
    exact ⟨{ b with clock, stage }, rfl, rfl,
      h.step ⟨rfl, rfl, rfl, rfl, (Bool.or_false _).symm, Option.or_none.symm, (Bool.or_false _).symm⟩⟩
  | setProgress percent =>
    exact ⟨{ b with clock, percent, bar := if b.mounted then some percent else b.bar }, rfl, rfl,
      h.step ⟨rfl, rfl, rfl, rfl, (Bool.or_false _).symm, Option.or_none.symm, (Bool.or_false _).symm⟩⟩
  | setProblem problem trace => cases he
  | finish =>
    let ended : Board :=
      { b with clock, finished := true, finishTime := b.finishTime.or (b.startTime.map (clock - ·)) }
    have hended : Recalls start (history ++ [⟨clock, .finish⟩]) ended := by
      refine h.step ⟨rfl, rfl, rfl, rfl, (Bool.or_true _).symm, ?_, (Bool.or_false _).symm⟩
      simp [ended, h.startTime, Call.isFinish]
    refine ⟨ended.write (.plain ended.lastLine), if_pos h.mounted, ?_, hended.write _⟩
    rw [Board.write, if_pos hended.mounted]
  | refresh =>
    exact ⟨{ b with clock }, rfl, rfl,
      h.step ⟨rfl, rfl, rfl, rfl, (Bool.or_false _).symm, Option.or_none.symm, (Bool.or_false _).symm⟩⟩

theorem setProblem (h : Recalls start history b) (clock : Binary64) (problem trace : String) :
    Recalls start (history ++ [⟨clock, .setProblem problem trace⟩])
      ({ b with clock }.setProblem problem trace) := by
  have hkept : Recalls start (history ++ [⟨clock, .setProblem problem trace⟩])
      { b with clock, problem := some problem } :=
    h.step ⟨rfl, rfl, rfl, rfl, (Bool.or_false _).symm, Option.or_none.symm, (Bool.or_true _).symm⟩
  refine Recalls.write ?_ _
  split
  · exact hkept
  · exact hkept.write _

/-- A board knows of one more event after it. -/
theorem play (h : Recalls start history b) (e : Event) : Recalls start (history ++ [e]) (e.play b).2 := by
  cases he : e.call.isProblem with
  | false =>
    obtain ⟨b', hplay, -, hb'⟩ := h.exists_refresh he
    rw [hplay]
    exact hb'.refresh
  | true =>
    obtain ⟨clock, call⟩ := e
    cases call with
    | setProblem problem trace => exact h.setProblem clock problem trace
    | _ => cases he

theorem after (h : Recalls start history b) (events : List Event) :
    Recalls start (history ++ events) (b.after events) := by
  induction events generalizing history b with
  | nil => rwa [List.append_nil]
  | cons e events ih =>
    rw [List.append_cons]
    exact ih (h.play e)

end Recalls

/-! ### What a board shows -/

theorem withoutControls_append (s t : String) :
    withoutControls (s ++ t) = withoutControls s ++ withoutControls t := by
  rw [withoutControls, String.toList_append, List.filter_append, String.ofList_append]
  rfl

@[simp] theorem Styled.plain_append (t : Styled) (s : String) (style : Option String) :
    (t.append s style).plain = t.plain ++ withoutControls s := by
  rw [Styled.append]
  split
  · rename_i hempty
    rw [String.isEmpty_iff.1 hempty]
    exact (String.append_empty).symm
  · rfl

/-- The lines of the metrics. -/
theorem plain_metricsText (b : Board) : b.metricsText.map (·.plain) = (do
    let elapsed ← durationText b.elapsed
    return withoutControls s!"Status: {b.status}\nElapsed: {elapsed}\nProgress: {b.percent}%") := by
  unfold Board.metricsText
  cases durationText b.elapsed with
  | error fault => rfl
  | ok elapsed =>
    refine congrArg Except.ok ?_
    have hstring (s : String) : toString s = s := rfl
    have helapsed : withoutControls "\nElapsed: " = withoutControls "\n" ++ withoutControls "Elapsed: " :=
      withoutControls_append "\n" "Elapsed: "
    have hprogress :
        withoutControls "\nProgress: " = withoutControls "\n" ++ withoutControls "Progress: " :=
      withoutControls_append "\n" "Progress: "
    simp [Board.appendField, Styled.newline, withoutControls_append, String.append_assoc, hstring,
      helapsed, hprogress]

/-- As long as the clock has moved between the start and the first end, or not since the first end. -/
def IsSteady (start now : Binary64) (history : List Event) : Prop :=
  ∀ taken, firstFinish? history = some taken → taken.same start = false ∨ now = taken

instance (start now : Binary64) (history : List Event) : Decidable (IsSteady start now history) :=
  decidable_of_iff
    ((firstFinish? history).all fun taken => !taken.same start || decide (now = taken)) (by
      simp [IsSteady, Option.all_eq_true])

theorem Recalls.status_eq (h : Recalls start history b) : b.status = statusOf history := by
  rw [Board.status, statusOf, h.problem, h.finished, h.stage]

theorem Recalls.elapsed_eq (h : Recalls start history b) (hsteady : IsSteady start b.clock history) :
    b.elapsed = elapsedOf start b.clock history := by
  rw [Board.elapsed, h.startTime, h.finishTime, elapsedOf, h.finished]
  cases hfinish : firstFinish? history with
  | none => rfl
  | some taken =>
    rcases hsteady taken hfinish with hmoved | rfl
    · have hspan := sub_same_zero_eq_false hmoved
      simp [hspan]
    · simp

/-- The time runs on when it has not moved up to the first end. -/
theorem Recalls.elapsed_eq_sub (h : Recalls start history b) (hstart : start.isFinite = true)
    (hsteady : ¬ IsSteady start b.clock history) : b.elapsed = b.clock - start := by
  simp only [IsSteady, not_forall, not_or, Bool.not_eq_false] at hsteady
  obtain ⟨taken, hfinish, hsame, -⟩ := hsteady
  have hspan := sub_same_zero_eq_true hstart hsame
  rw [Board.elapsed, h.startTime, h.finishTime, hfinish]
  simp [hspan]

/-- A change that ends well when a text can be shown, and then shows it. -/
structure Displays (text : Except Fault String) (changed : Changed) : Prop where
  outcome : changed.1 = text.map fun _ => ()
  shown : ∀ s, text = .ok s → changed.2.metrics.map (·.plain) = some s

theorem Recalls.displays (h : Recalls start history b) : Displays (displayAt b.elapsed history) b.refresh := by
  have hplain := plain_metricsText b
  rw [h.status_eq, h.percent] at hplain
  change _ = displayAt b.elapsed history at hplain
  rw [← hplain]
  unfold Board.refresh Board.display
  rw [if_pos h.mounted]
  cases b.metricsText with
  | ok t => exact ⟨rfl, fun s hs => congrArg some (Except.ok.inj hs)⟩
  | error fault => exact ⟨rfl, nofun⟩

/-- Puts the board of an export on the screen, at a reading of the clock. -/
def Board.launch (file : String) (options : ExportOptions) (start : Binary64) : Changed :=
  Board.mount { file, options, clock := start }

theorem Board.isOk_projectText (hquality : b.quality = .null) (hduration : b.duration = none) :
    b.projectText.isOk = true := by
  have hasked : b.qualityText.isOk = true := by
    rw [Board.qualityText, hquality]
    cases b.options.quality with
    | none => rfl
    | some s =>
      rw [orAsked]
      cases hempty : s.isEmpty <;> simp [Value.truthy, Value.asText, hempty] <;> rfl
  obtain ⟨quality, hquality⟩ := isOk_iff.1 hasked
  rw [Board.projectText, hquality, hduration]
  rfl

theorem Board.launch_spec (file : String) (options : ExportOptions) (start : Binary64) :
    (Board.launch file options start).1 = .ok () ∧ Recalls start [] (Board.launch file options start).2 := by
  obtain ⟨t, ht⟩ := isOk_iff.1 (Board.isOk_projectText
    (b := { file, options, clock := start, mounted := true, startTime := some start }) rfl rfl)
  have hlaunch : Board.launch file options start = (.ok (), {
      file, options, clock := start, mounted := true, startTime := some start, project := some t }) := by
    unfold Board.launch Board.mount Board.showProject Board.display
    rw [if_pos rfl, ht]
  rw [hlaunch]
  exact ⟨rfl, rfl, rfl, rfl, rfl, rfl, rfl, rfl⟩

/-- Every event but a problem shows the status, the time and the progress that follow from what has happened
since the board was put on the screen, as long as the clock is steady. Otherwise the time runs on past the
first end. Only a span of time beyond all measure has no text. -/
theorem Board.play_displays (file : String) (options : ExportOptions) (start : Binary64) :
    (Board.launch file options start).1 = .ok () ∧
      ∀ (events : List Event) (e : Event), e.call.isProblem = false →
        (IsSteady start e.clock (events ++ [e]) →
          Displays (displayOf start e.clock (events ++ [e]))
            (e.play ((Board.launch file options start).2.after events))) ∧
          (start.isFinite = true → ¬ IsSteady start e.clock (events ++ [e]) →
            Displays (displayAt (e.clock - start) (events ++ [e]))
              (e.play ((Board.launch file options start).2.after events))) ∧
          ∀ elapsed : Binary64, elapsed.le (.ofInt (2 ^ 1000)) = true →
            ∃ s, displayAt elapsed (events ++ [e]) = .ok s := by
  obtain ⟨hok, hrecalls⟩ := Board.launch_spec file options start
  refine ⟨hok, fun events e he => ?_⟩
  obtain ⟨b, hplay, hclock, hb⟩ := (hrecalls.after events).exists_refresh he
  have hdisplays := hb.displays
  rw [hplay]
  refine ⟨fun hsteady => ?_, fun hstart hsteady => ?_, fun elapsed hspan => ?_⟩
  · rw [← hclock] at hsteady
    rwa [hb.elapsed_eq hsteady, hclock] at hdisplays
  · rw [← hclock] at hsteady
    rwa [hb.elapsed_eq_sub hstart hsteady, hclock] at hdisplays
  · obtain ⟨text, htext⟩ := isOk_iff.1 (isOk_durationText le_rfl hspan)
    exact ⟨_, bind_eq_ok.2 ⟨text, htext, rfl⟩⟩

/-- An export that ends after two seconds and a half, shown eight seconds later. -/
def shortExport : List Event := [⟨1000, .refresh⟩, ⟨1000, .setStage "rendering"⟩, ⟨1001, .setProgress 40⟩,
  ⟨.ofRatio 2005 2, .finish⟩]

/-- An export that ends at the very reading of its start. -/
def instantExport : List Event := [⟨1000, .finish⟩]

theorem shortExport_displays :
    IsSteady 1000 1010 (shortExport ++ [⟨1010, .refresh⟩]) ∧
      displayOf 1000 1010 (shortExport ++ [⟨1010, .refresh⟩]) =
        .ok "Status: done\nElapsed: 2.5s\nProgress: 40%" ∧
      Displays (displayOf 1000 1010 (shortExport ++ [⟨1010, .refresh⟩]))
        ((⟨1010, .refresh⟩ : Event).play ((Board.launch "talk.yaml" {} 1000).2.after shortExport)) ∧
      ¬ IsSteady 1000 1009 (instantExport ++ [⟨1009, .refresh⟩]) ∧
      Displays (displayAt (1009 - 1000) (instantExport ++ [⟨1009, .refresh⟩]))
        ((⟨1009, .refresh⟩ : Event).play ((Board.launch "talk.yaml" {} 1000).2.after instantExport)) ∧
      ∃ s, displayAt (1009 - 1000) (instantExport ++ [⟨1009, .refresh⟩]) = .ok s := by
  obtain ⟨hsteady, hstart, hunsteady, hspan⟩ :
      IsSteady 1000 1010 (shortExport ++ [⟨1010, .refresh⟩]) ∧ (1000 : Binary64).isFinite = true ∧
        ¬ IsSteady 1000 1009 (instantExport ++ [⟨1009, .refresh⟩]) ∧
        (1009 - 1000 : Binary64).le (.ofInt (2 ^ 1000)) = true := by
    decide +kernel
  have hall := (Board.play_displays "talk.yaml" {} 1000).2
  exact ⟨hsteady, by decide +kernel, (hall shortExport ⟨1010, .refresh⟩ rfl).1 hsteady, hunsteady,
    (hall instantExport ⟨1009, .refresh⟩ rfl).2.1 hstart hunsteady,
    (hall instantExport ⟨1009, .refresh⟩ rfl).2.2 _ hspan⟩

/-- An end at the very reading of the start does not stop the time. -/
theorem instantExport_not_displays :
    ¬ ∀ (file : String) (options : ExportOptions) (start : Binary64) (events : List Event) (e : Event),
      (start :: (events ++ [e]).map (·.clock)).Pairwise (fun x y => x.le y = true) →
        e.call.isProblem = false → Displays (displayOf start e.clock (events ++ [e]))
          (e.play ((Board.launch file options start).2.after events)) := by
  intro hall
  have hdisplays := hall "talk.yaml" {} 1000 instantExport ⟨1009, .refresh⟩ (by decide +kernel) rfl
  have htext : displayOf 1000 1009 (instantExport ++ [⟨1009, .refresh⟩]) =
      .ok "Status: done\nElapsed: 0.0s\nProgress: 0%" := by
    decide +kernel
  have hshown : ((⟨1009, .refresh⟩ : Event).play ((Board.launch "talk.yaml" {} 1000).2.after
      instantExport)).2.metrics.map (·.plain) = some "Status: done\nElapsed: 9.0s\nProgress: 0%" := by
    decide +kernel
  have heq := hdisplays.shown _ htext
  rw [hshown] at heq
  exact absurd heq (by decide)

end Terminal

end Montage
