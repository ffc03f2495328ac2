import Montage.Proofs.Engine.Confined
import Montage.Proofs.Number.Percent

/-!
# What the engine says of its progress

A line of the engine tells of a share of the duration, or of nothing, unless it has a time that is too large
for the binary format (`Engine.fraction?_cases`). Lines do no more than to report the shares that
they tell of: a run ends with its status when all of them can be read, and otherwise before the first one
that cannot (`Engine.exec_reported`). Later times are no smaller percentages (`Engine.progressOf_mono_time`).
-/

namespace Montage.Engine

open Session

variable {σ : Type} {s : Studio σ} {line : String} {lines : List String} {duration : Option Binary64}

/-- Whether the time in a line, if it matters, is in the range of the binary format. -/
def isReadable (line : String) (duration : Option Binary64) : Bool :=
  isEnd line || duration.all fun d => d.le .zero ||
    (microseconds? line).all fun n => (Binary64.ofInt n).isFinite

/-- The lines before the first one that cannot be read. -/
def readable (lines : List String) (duration : Option Binary64) : List String :=
  lines.takeWhile (isReadable · duration)

/-- The shares of the duration that lines tell of. -/
def shares (lines : List String) (duration : Option Binary64) : List Binary64 :=
  lines.filterMap fun line => (fraction? line duration).toOption.join

/-- The percentages that lines report. -/
def percents (lines : List String) (duration : Option Binary64) : List Int :=
  (shares lines duration).map Measure.progressOf

/-- The share of a duration at a time in microseconds. -/
def shareAt (microseconds : Int) (duration : Binary64) : Binary64 :=
  .ofInt microseconds / .ofInt 1000000 / duration

theorem fraction?_end (h : isEnd line = true) (duration : Option Binary64) :
    fraction? line duration = .ok (some (.ofInt 1)) := if_pos h

theorem fraction?_none (h : isEnd line = false) : fraction? line none = .ok none := by
  unfold fraction?
  rw [if_neg (Bool.eq_false_iff.1 h)]
  rfl

theorem fraction?_some {d : Binary64} (h : isEnd line = false) : fraction? line (some d) =
    if d.le .zero then .ok none else match microseconds? line with
      | none => .ok none
      | some n => if (Binary64.ofInt n).isFinite then .ok (some (shareAt n d))
        else .error (.misuse .range) := by
  unfold fraction?
  rw [if_neg (Bool.eq_false_iff.1 h)]
  dsimp only
  cases d.le .zero with
  | true => rfl
  | false =>
    cases microseconds? line with
    | none => rfl
    | some n =>
      dsimp only
      rw [Value.toBinary64, Value.Number.toBinary64]
      cases (Binary64.ofInt n).isFinite <;> rfl

/-- A line that can be read gives a share or none, any other one a fault. -/
theorem fraction?_cases (line : String) (duration : Option Binary64) :
    (isReadable line duration = true ∧ ∃ share, fraction? line duration = .ok share) ∨
      isReadable line duration = false ∧ fraction? line duration = .error (.misuse .range) := by
  unfold isReadable
  cases hend : isEnd line with
  | true => exact .inl ⟨rfl, _, fraction?_end hend duration⟩
  | false =>
    cases duration with
    | none => exact .inl ⟨rfl, _, fraction?_none hend⟩
    | some d =>
      rw [fraction?_some hend, Bool.false_or, Option.all_some]
      cases d.le .zero with
      | true => exact .inl ⟨rfl, _, rfl⟩
      | false =>
        cases microseconds? line with
        | none => exact .inl ⟨rfl, _, rfl⟩
        | some n =>
          rw [Option.all_some, Bool.false_or, if_neg Bool.false_ne_true]
          dsimp only
          -- Neither number is to be computed in what follows.
          generalize shareAt n d = share
          cases (Binary64.ofInt n).isFinite with
          | true => exact .inl ⟨rfl, share, rfl⟩
          | false => exact .inr ⟨rfl, rfl⟩

/-! ### Lines in a row -/

variable {onFraction : Binary64 → Session σ Unit} {onLine : String → Session σ Unit}

/-- Reports the share that a line tells of. -/
def reportLine (duration : Option Binary64) (onFraction : Binary64 → Session σ Unit) (line : String) :
    Session σ Unit := do
  if let some fraction ← Session.lift (fraction? line duration) then onFraction fraction

theorem exec_reportLine {share : Option Binary64} (h : fraction? line duration = .ok share)
    (s : Studio σ) : (reportLine duration onFraction line).exec s =
      (share.toList.forM onFraction : Session σ Unit).exec s := by
  rw [reportLine, exec_bind, h, exec_lift]
  cases share with
  | none => rfl
  | some x =>
    change (onFraction x).exec s = (onFraction x >>= fun _ => pure ()).exec s
    rw [bind_pure_unit]

theorem readable_cons (h : isReadable line duration = true) (lines : List String) :
    readable (line :: lines) duration = line :: readable lines duration :=
  List.takeWhile_cons_of_pos h

theorem shares_cons {share : Option Binary64} (h : fraction? line duration = .ok share)
    (lines : List String) : shares (line :: lines) duration = share.toList ++ shares lines duration := by
  unfold shares
  rw [List.filterMap_cons, h]
  cases share <;> rfl

/-- The shares in lines are reported up to a line that cannot be read, if there is one. -/
theorem exec_reportLines (lines : List String) (duration : Option Binary64) (s : Studio σ) :
    (lines.forM (reportLine duration onFraction)).exec s = Session.exec (do
      (shares (readable lines duration) duration).forM onFraction
      if lines.all (isReadable · duration) then pure () else throw (.misuse .range)) s := by
  induction lines generalizing s with
  | nil => rfl
  | cons line lines ih =>
    rw [List.forM_eq_forM, List.forM_cons, exec_bind, List.all_cons]
    rcases fraction?_cases line duration with ⟨hreadable, share, hshare⟩ | ⟨hunreadable, hfault⟩
    · rw [exec_reportLine hshare, readable_cons hreadable, shares_cons hshare, List.forM_eq_forM,
        List.forM_append, bind_assoc, exec_bind, hreadable, Bool.true_and]
      rcases (share.toList.forM onFraction : Session σ Unit).exec s with ⟨_ | _, s₁⟩
      · rfl
      · exact ih s₁
    · have hnone : readable (line :: lines) duration = [] :=
        List.takeWhile_cons_of_neg (Bool.eq_false_iff.1 hunreadable)
      rw [reportLine, exec_bind, hfault, hnone, hunreadable]
      rfl

/-- What a run prints does no more than to report shares. Its status is given unless a line has a time
that is too large. -/
theorem exec_reported (run : EngineRun) (s : Studio σ) :
    (reported run duration onFraction onLine).exec s = Session.exec (do
      run.messages.forM fun line => onLine (withoutEnd line)
      (shares (readable run.progress duration) duration).forM onFraction
      if run.progress.all (isReadable · duration) then pure run.status else throw (.misuse .range)) s := by
  have hreported : reported run duration onFraction onLine = (do
      run.messages.forM fun line => onLine (withoutEnd line)
      run.progress.forM (reportLine duration onFraction)
      pure run.status) := rfl
  rw [hreported, exec_bind, exec_bind]
  rcases (run.messages.forM fun line => onLine (withoutEnd line)).exec s with ⟨_ | _, s₁⟩
  · rfl
  dsimp only
  rw [exec_bind, exec_reportLines, exec_bind, exec_bind]
  rcases ((shares (readable run.progress duration) duration).forM onFraction).exec s₁ with ⟨_ | _, s₂⟩
  · rfl
  dsimp only
  cases run.progress.all (isReadable · duration) <;> rfl

/-- A run of the engine up to what it prints: it is started, and its product is left. -/
def performed (engine workspace : String) (words : List String) (onLine : String → Session σ Unit) :
    Session σ EngineRun := do
  let (run, number) ← launched engine workspace words onLine
  leaveProduct workspace (runCommand engine words) (Product.bytes? number run.product)
  return run

theorem performed_ends {engine workspace : String} {words : List String} {run : EngineRun} {s' : Studio σ}
    (hline : ∀ line, Respects Studio.AtRest (onLine line))
    (h : Ends (performed engine workspace words onLine) s run s') : run = s.runs.headD {} := by
  obtain ⟨⟨launched, number⟩, s₁, hlaunched, h⟩ := ends_bind.1 h
  obtain ⟨⟨⟩, s₂, -, h⟩ := ends_bind.1 h
  obtain ⟨rfl, -⟩ := ends_pure.1 h
  exact (launched_ends hline hlaunched).1

/-- What a run ends with that prints its lines. -/
def statusOf (run : EngineRun) (duration : Option Binary64) : Except Fault Int :=
  if run.progress.all (isReadable · duration) then .ok run.status else .error (.misuse .range)

section Outcome

variable (hfraction : ∀ x s, ∃ s', Ends (onFraction x) s () s')
  (hline : ∀ line s, ∃ s', Ends (onLine line) s () s')

include hfraction hline

theorem reported_outcome (run : EngineRun) (s : Studio σ) :
    ((reported run duration onFraction onLine).exec s).1 = statusOf run duration := by
  obtain ⟨s₁, hmessages⟩ := exists_ends_forM (fun line => hline (withoutEnd line)) run.messages s
  obtain ⟨s₂, hshares⟩ := exists_ends_forM hfraction (shares (readable run.progress duration) duration) s₁
  rw [exec_reported, exec_bind, show Session.exec _ s = (.ok (), s₁) from hmessages]
  dsimp only
  rw [exec_bind, show Session.exec _ s₁ = (.ok (), s₂) from hshares]
  unfold statusOf
  cases run.progress.all (isReadable · duration) <;> rfl

/-- Lines make no difference to how a run of the engine ends, unless one of them cannot be read. -/
theorem execute_outcome (engine workspace : String) (words : List String) (s : Studio σ) :
    (((installed (some engine)).execute workspace words duration onFraction onLine).exec s).1 =
      ((performed engine workspace words onLine).exec s).1 >>= (statusOf · duration) := by
  rw [execute_eq, performed, exec_bind, exec_bind]
  rcases (launched engine workspace words onLine).exec s with ⟨_ | ⟨run, number⟩, s₁⟩
  · rfl
  dsimp only
  rw [exec_bind, exec_bind]
  rcases (leaveProduct workspace (runCommand engine words)
    (Product.bytes? number run.product)).exec s₁ with ⟨_ | _, s₂⟩
  · rfl
  · exact reported_outcome hfraction hline run s₂

end Outcome

/-! ### Later times -/

theorem isScaling_million : Binary64.IsScaling Binary64.one (1000000 * Binary64.one)
    (· / Binary64.ofInt 1000000) := by
  obtain ⟨h, hmillion⟩ : ∃ h, Binary64.ofInt 1000000 = .finite false (1000000 * Binary64.one) h :=
    ⟨by decide +kernel, by decide +kernel⟩
  rw [hmillion]
  exact Binary64.isScaling_div h (by decide +kernel)

/-- Nothing is done of a duration without an end. -/
theorem progressOf_div_infinite (x : Binary64) : Measure.progressOf (x / .infinite false) ≤ 0 := by
  cases x with
  | nan => exact Int.le_refl 0
  | infinite s => exact Int.le_refl 0
  | finite s a h =>
    have hzero : (.finite s a h / .infinite false : Binary64) =
        .finite s 0 representable_zero :=
      congrArg (Binary64.finite · 0 representable_zero) (Bool.bne_false s)
    rw [hzero]
    refine (Measure.isPercentage_progressOf _).nonpos ?_
    cases s <;> decide +kernel

/-- A later time is no smaller percentage of the same duration. -/
theorem progressOf_mono_time {i j : Int} {d : Binary64} (hpos : d.le .zero = false) (h : i ≤ j) :
    Measure.progressOf (shareAt i d) ≤ Measure.progressOf (shareAt j d) := by
  have hseconds := isScaling_million.le (Binary64.ofInt_mono h)
  unfold shareAt
  generalize Binary64.ofInt i / .ofInt 1000000 = x at *
  generalize Binary64.ofInt j / .ofInt 1000000 = y at *
  cases d with
  | nan =>
    have hnan (x : Binary64) : x / .nan = .nan := by cases x <;> rfl
    rw [hnan, hnan]
  | infinite s =>
    cases s with
    | true => cases hpos
    | false => exact (progressOf_div_infinite x).trans (Measure.progressOf_mem _).1
  | finite s a ha =>
    have hle_zero (hunits : Binary64.signed s a ≤ 0) : (Binary64.finite s a ha).le .zero = true := by
      refine (Binary64.le_iff_units ?_ rfl).2 hunits
      cases s <;> rfl
    have hpositive : 0 < Binary64.signed s a := by
      by_contra hnot
      rw [hle_zero (not_lt.1 hnot)] at hpos
      cases hpos
    cases s with
    | true => simp only [Binary64.signed, if_true] at hpositive; omega
    | false =>
      simp only [Binary64.signed, Bool.false_eq_true, if_false] at hpositive
      exact Measure.progressOf_mono ((Binary64.isScaling_div ha (by omega)).le hseconds)

theorem isEnd_of_microseconds {n : Int} (h : microseconds? line = some n) : isEnd line = false := by
  unfold microseconds? at h
  unfold isEnd
  generalize keyValue line = pair at *
  obtain ⟨key, value⟩ := pair
  dsimp only at h
  split at h
  · rename_i hkey
    refine decide_eq_false fun heq => ?_
    obtain ⟨rfl, -⟩ := Prod.mk.inj heq
    revert hkey
    decide
  · cases h

theorem eq_shareAt {n : Int} {share : Binary64} (hn : microseconds? line = some n)
    (h : fraction? line duration = .ok (some share)) :
    ∃ d, duration = some d ∧ d.le .zero = false ∧ share = shareAt n d := by
  have hend := isEnd_of_microseconds hn
  cases duration with
  | none =>
    rw [fraction?_none hend] at h
    cases h
  | some d =>
    rw [fraction?_some hend, hn] at h
    cases hpos : d.le .zero with
    | true =>
      rw [hpos, if_pos rfl] at h
      cases h
    | false =>
      refine ⟨d, rfl, hpos, ?_⟩
      rw [hpos, if_neg Bool.false_ne_true] at h
      dsimp only at h
      generalize shareAt n d = share' at *
      split at h
      · exact (Option.some.inj (Except.ok.inj h)).symm
      · cases h

/-- A line that tells of a later time reports no smaller percentage. -/
theorem progressOf_mono_line {line' : String} {i j : Int} {x y : Binary64} (hi : microseconds? line = some i)
    (hj : microseconds? line' = some j) (h : i ≤ j) (hx : fraction? line duration = .ok (some x))
    (hy : fraction? line' duration = .ok (some y)) : Measure.progressOf x ≤ Measure.progressOf y := by
  obtain ⟨d, hd, hpos, hshare⟩ := eq_shareAt hi hx
  obtain ⟨d', hd', -, hshare'⟩ := eq_shareAt hj hy
  rw [hd, Option.some.injEq] at hd'
  rw [hshare, hshare', ← hd']
  exact progressOf_mono_time hpos h

end Montage.Engine
