import Mathlib.Logic.Function.Basic
import Montage.Render.Pool

/-!
# Threads that share an engine

Threads attempt runs, work on them and finish them, in any order. The engine is held just while some
thread is inside a run, so that at most one driver is exporting (`Stage.IsExclusive.plays`).
-/

namespace Montage

/-- What a run does with its driver once it has started. -/
inductive Work where
  | note (line : String)
  | advance (percent : Int)
  | setProgram (p : Graph.Program Binary64)

def Work.line? : Work → Option String
  | .note line => some line
  | _ => none

def linesOf (works : List Work) : List String := works.filterMap (·.line?)

/-- What a thread does with the drivers of an engine. -/
inductive Deed where
  | attempt (id : Nat) (p : Graph.Program Binary64)
  | start
  | work (w : Work)
  | finish (failed : Bool)

/-- A whole run of a thread; one that is refused for its files does no work. -/
def runDeeds (id : Nat) (p : Graph.Program Binary64) (works : Option (List Work)) (failed : Bool) :
    List Deed :=
  .attempt id p :: ((works.map fun works => .start :: works.map .work).getD [] ++ [.finish failed])

namespace DriverPool

variable (pool : DriverPool) {id other : Nat} (f : DriverState → DriverState)

@[simp] theorem update_holder : (pool.update id f).holder = pool.holder := rfl

@[simp] theorem update_drivers_self : (pool.update id f).drivers id = f (pool.drivers id) := if_pos rfl

theorem update_drivers_of_ne (h : other ≠ id) : (pool.update id f).drivers other = pool.drivers other :=
  if_neg h

@[simp] theorem release_drivers_self (failed : Bool) :
    (pool.release id failed).drivers id = { pool.drivers id with
      exporting := false, progress := if failed then 0 else (pool.drivers id).progress } :=
  if_pos rfl

theorem release_drivers_of_ne (h : other ≠ id) (failed : Bool) :
    (pool.release id failed).drivers other = pool.drivers other :=
  if_neg h

def perform (pool : DriverPool) (id : Nat) : Work → DriverPool
  | .note line => pool.note id line
  | .advance percent => pool.advance id percent
  | .setProgram p => pool.setProgram id p

def performs (pool : DriverPool) (id : Nat) (works : List Work) : DriverPool :=
  works.foldl (·.perform id) pool

/-- A driver that has got the engine for a program. -/
def entered (pool : DriverPool) (id : Nat) (p : Graph.Program Binary64) : DriverPool :=
  { pool with holder := some id }.setProgram id p

@[simp] theorem perform_holder (w : Work) : (pool.perform id w).holder = pool.holder := by
  cases w <;> rfl

theorem perform_drivers_of_ne (h : other ≠ id) (w : Work) :
    (pool.perform id w).drivers other = pool.drivers other := by
  cases w <;> exact if_neg h

theorem perform_lines (w : Work) :
    ((pool.perform id w).drivers id).lines = (pool.drivers id).lines ++ linesOf [w] := by
  cases w <;> simp [perform, note, advance, setProgram, linesOf, Work.line?]

section performs

variable (works : List Work)

@[simp] theorem performs_holder : (pool.performs id works).holder = pool.holder := by
  induction works generalizing pool with
  | nil => rfl
  | cons w works ih => exact (ih _).trans (pool.perform_holder w)

theorem performs_drivers_of_ne (h : other ≠ id) :
    (pool.performs id works).drivers other = pool.drivers other := by
  induction works generalizing pool with
  | nil => rfl
  | cons w works ih => exact (ih _).trans (pool.perform_drivers_of_ne h w)

theorem performs_lines :
    ((pool.performs id works).drivers id).lines = (pool.drivers id).lines ++ linesOf works := by
  induction works generalizing pool with
  | nil => exact (List.append_nil _).symm
  | cons w works ih =>
    calc ((pool.performs id (w :: works)).drivers id).lines
        = ((pool.perform id w).drivers id).lines ++ linesOf works := ih _
      _ = (pool.drivers id).lines ++ (linesOf [w] ++ linesOf works) := by
        rw [perform_lines, List.append_assoc]
      _ = (pool.drivers id).lines ++ linesOf (w :: works) := by
        rw [linesOf, linesOf, ← List.filterMap_append]
        rfl

theorem performs_append (more : List Work) :
    (pool.performs id works).performs id more = pool.performs id (works ++ more) :=
  List.foldl_append.symm

end performs

end DriverPool

/-- The drivers of an engine, and which of them each thread is running. -/
structure Stage where
  pool : DriverPool
  inside : Nat → Option Nat

namespace Stage

/-- A thread that is inside no run has nothing to work on or to finish. -/
def step (x : Stage) (thread : Nat) : Deed → Stage
  | .attempt id p => match x.pool.acquire id with
    | .error _ => x
    | .ok pool => ⟨pool.setProgram id p, Function.update x.inside thread (some id)⟩
  | .start => match x.inside thread with
    | none => x
    | some id => { x with pool := x.pool.start id }
  | .work w => match x.inside thread with
    | none => x
    | some id => { x with pool := x.pool.perform id w }
  | .finish failed => match x.inside thread with
    | none => x
    | some id => ⟨x.pool.release id failed, Function.update x.inside thread none⟩

def plays (x : Stage) (steps : List (Nat × Deed)) : Stage :=
  steps.foldl (fun x (thread, deed) => x.step thread deed) x

/-- The engine is held by the one driver whose run some thread is inside, and no other driver is
exporting. -/
structure IsExclusive (x : Stage) : Prop where
  holds : ∀ {thread id}, x.inside thread = some id → x.pool.holder = some id
  alone : ∀ {a b}, x.inside a ≠ none → x.inside b ≠ none → a = b
  held : x.pool.holder ≠ none → ∃ thread, x.inside thread = x.pool.holder
  exporting : ∀ {id}, (x.pool.drivers id).exporting = true → x.pool.holder = some id

variable {x : Stage} {thread id : Nat}

theorem isExclusive_of_idle {pool : DriverPool} (hfree : pool.holder = none)
    (hidle : ∀ id, (pool.drivers id).exporting = false) : IsExclusive ⟨pool, fun _ => none⟩ where
  holds := nofun
  alone := fun h => absurd rfl h
  held := fun h => absurd hfree h
  exporting := fun {id} h => by rw [hidle id] at h; cases h

theorem step_attempt_of_held (hheld : x.pool.holder ≠ none) (p : Graph.Program Binary64) :
    x.step thread (.attempt id p) = x := by
  have hacquire : x.pool.acquire id = .error .engineBusy :=
    if_pos (Option.isSome_iff_ne_none.2 hheld)
  rw [step, hacquire]

theorem step_attempt_of_free (hfree : x.pool.holder = none) (p : Graph.Program Binary64) :
    x.step thread (.attempt id p) =
      ⟨x.pool.entered id p, Function.update x.inside thread (some id)⟩ := by
  have hacquire : x.pool.acquire id = .ok { x.pool with holder := some id } :=
    if_neg (by simp [hfree])
  rw [step, hacquire]
  rfl

theorem step_finish (hinside : x.inside thread = some id) (failed : Bool) :
    x.step thread (.finish failed) =
      ⟨x.pool.release id failed, Function.update x.inside thread none⟩ := by
  rw [step, hinside]

theorem step_start (hinside : x.inside thread = some id) :
    x.step thread .start = { x with pool := x.pool.start id } := by
  rw [step, hinside]

theorem step_work (hinside : x.inside thread = some id) (w : Work) :
    x.step thread (.work w) = { x with pool := x.pool.perform id w } := by
  rw [step, hinside]

theorem plays_cons (d : Deed) (steps : List (Nat × Deed)) :
    x.plays ((thread, d) :: steps) = (x.step thread d).plays steps :=
  rfl

theorem plays_append (steps more : List (Nat × Deed)) :
    x.plays (steps ++ more) = (x.plays steps).plays more :=
  List.foldl_append

theorem plays_work (hinside : x.inside thread = some id) (works : List Work) :
    x.plays (works.map fun w => (thread, .work w)) = { x with pool := x.pool.performs id works } := by
  induction works generalizing x with
  | nil => rfl
  | cons w works ih =>
    rw [List.map_cons, plays_cons, step_work hinside]
    exact ih hinside

namespace IsExclusive

theorem inside_of_free (h : x.IsExclusive) (hfree : x.pool.holder = none) (thread : Nat) :
    x.inside thread = none := by
  cases hinside : x.inside thread with
  | none => rfl
  | some id => rw [h.holds hinside] at hfree; cases hfree

theorem plays_run (h : x.IsExclusive) (hfree : x.pool.holder = none) (p : Graph.Program Binary64)
    (works : Option (List Work)) (failed : Bool) :
    x.plays ((runDeeds id p works failed).map (thread, ·)) =
      { x with pool := ((works.map fun works => ((x.pool.entered id p).start id).performs id
        works).getD (x.pool.entered id p)).release id failed } := by
  have hinside := Function.update_self thread (some id) x.inside
  have hleft : Function.update (Function.update x.inside thread (some id)) thread none = x.inside := by
    rw [Function.update_idem, ← h.inside_of_free hfree thread, Function.update_eq_self]
  have hend (pool : DriverPool) :
      step ⟨pool, Function.update x.inside thread (some id)⟩ thread (.finish failed) =
        ⟨pool.release id failed, x.inside⟩ := by
    rw [step_finish hinside, hleft]
  cases works with
  | none =>
    have hsteps : (runDeeds id p none failed).map (thread, ·) =
        [(thread, .attempt id p), (thread, .finish failed)] := rfl
    rw [hsteps, plays_cons, plays_cons, step_attempt_of_free hfree, hend]
    rfl
  | some works =>
    have hsteps : (runDeeds id p (some works) failed).map (thread, ·) =
        (thread, .attempt id p) :: (thread, .start) ::
          (works.map (fun w => (thread, Deed.work w)) ++ [(thread, .finish failed)]) := by
      simp [runDeeds]
    rw [hsteps, plays_cons, plays_cons, plays_append, step_attempt_of_free hfree,
      step_start hinside, plays_work hinside, plays_cons, hend]
    rfl

theorem of_change (h : x.IsExclusive) (hinside : x.inside thread = some id) {pool : DriverPool}
    (hholder : pool.holder = x.pool.holder)
    (hothers : ∀ other ≠ id, pool.drivers other = x.pool.drivers other) :
    IsExclusive { x with pool } where
  holds := fun hin => hholder.trans (h.holds hin)
  alone := h.alone
  held := fun hheld => by
    obtain ⟨thread, hthread⟩ := h.held (hholder ▸ hheld)
    exact ⟨thread, hthread.trans hholder.symm⟩
  exporting := by
    intro other hexporting
    rw [hholder]
    by_cases hother : other = id
    · rw [hother, h.holds hinside]
    · exact h.exporting (hothers other hother ▸ hexporting)

theorem begin (h : x.IsExclusive) (hfree : x.pool.holder = none) (p : Graph.Program Binary64) :
    (x.step thread (.attempt id p)).IsExclusive := by
  -- The engine was free, so nobody was inside a run before.
  have hnobody := h.inside_of_free hfree
  have honly : ∀ a, Function.update x.inside thread (some id) a ≠ none → a = thread := by
    intro a ha
    by_contra hne
    rw [Function.update_of_ne hne, hnobody a] at ha
    exact ha rfl
  rw [step_attempt_of_free hfree]
  refine ⟨?_, ?_, ?_, ?_⟩
  · intro a i (hinside : Function.update x.inside thread (some id) a = some i)
    obtain rfl := honly a (by simp [hinside])
    rwa [Function.update_self] at hinside
  · exact fun ha hb => (honly _ ha).trans (honly _ hb).symm
  · exact fun _ => ⟨thread, Function.update_self _ _ _⟩
  · intro i hexporting
    have hbefore : (x.pool.drivers i).exporting = true := by
      by_cases hi : i = id
      · subst hi
        simpa [DriverPool.entered, DriverPool.setProgram] using hexporting
      · rwa [DriverPool.entered, DriverPool.setProgram,
          DriverPool.update_drivers_of_ne _ _ hi] at hexporting
    rw [h.exporting hbefore] at hfree
    cases hfree

theorem finish (h : x.IsExclusive) (hinside : x.inside thread = some id) (failed : Bool) :
    (x.step thread (.finish failed)).IsExclusive := by
  -- The thread was the only one inside a run, so nobody is left there.
  have hnobody : ∀ a, Function.update x.inside thread none a = none := by
    intro a
    by_cases ha : a = thread
    · rw [ha, Function.update_self]
    · rw [Function.update_of_ne ha]
      by_contra hin
      exact ha (h.alone hin (by simp [hinside]))
  rw [step_finish hinside]
  refine ⟨?_, ?_, ?_, ?_⟩
  · intro a i (hin : Function.update x.inside thread none a = some i)
    rw [hnobody a] at hin
    cases hin
  · exact fun ha => absurd (hnobody _) ha
  · exact fun hheld => absurd rfl hheld
  · intro i hexporting
    by_cases hi : i = id
    · subst hi
      simp at hexporting
    · rw [DriverPool.release_drivers_of_ne _ hi] at hexporting
      have hholder := h.holds hinside
      rw [h.exporting hexporting] at hholder
      exact absurd (Option.some.inj hholder) hi

theorem step (h : x.IsExclusive) (thread : Nat) (d : Deed) : (x.step thread d).IsExclusive := by
  cases d with
  | attempt id p =>
    by_cases hheld : x.pool.holder = none
    · exact h.begin hheld p
    · rw [step_attempt_of_held hheld]
      exact h
  | start =>
    cases hinside : x.inside thread with
    | none => simpa [Stage.step, hinside] using h
    | some id =>
      rw [step_start hinside]
      exact h.of_change hinside rfl fun other hne => DriverPool.update_drivers_of_ne _ _ hne
  | work w =>
    cases hinside : x.inside thread with
    | none => simpa [Stage.step, hinside] using h
    | some id =>
      rw [step_work hinside]
      exact h.of_change hinside (x.pool.perform_holder w) fun other hne =>
        x.pool.perform_drivers_of_ne hne w
  | finish failed =>
    cases hinside : x.inside thread with
    | none => simpa [Stage.step, hinside] using h
    | some id => exact h.finish hinside failed

theorem plays (h : x.IsExclusive) (steps : List (Nat × Deed)) : (x.plays steps).IsExclusive := by
  induction steps generalizing x with
  | nil => exact h
  | cons step steps ih => exact ih (h.step step.1 step.2)

/-- While a thread is inside a run, no other thread changes anything. -/
theorem step_of_other (h : x.IsExclusive) (hinside : x.inside thread ≠ none) {other : Nat}
    (hne : other ≠ thread) (d : Deed) : x.step other d = x := by
  have hheld : x.pool.holder ≠ none := by
    obtain ⟨id, hid⟩ := Option.ne_none_iff_exists'.1 hinside
    rw [h.holds hid]
    exact nofun
  have hout : x.inside other = none := by
    by_contra hin
    exact hne (h.alone hin hinside)
  cases d with
  | attempt id p => exact step_attempt_of_held hheld p
  | start => simp [Stage.step, hout]
  | work w => simp [Stage.step, hout]
  | finish failed => simp [Stage.step, hout]

end IsExclusive

end Stage

end Montage
