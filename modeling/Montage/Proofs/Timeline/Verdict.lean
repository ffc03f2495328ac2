import Montage.Proofs.Number.Seconds
import Montage.Proofs.Outcome
import Montage.Timeline.Snapshot

/-!
# The first part that cannot be used

A snapshot is taken part by part, and the first part that cannot be used ends it: a part that is missing or
of the wrong shape is refused with a reason, and a value that a conversion goes wrong on is misread. The
verdicts on all parts are listed here in the order of reading, and the first that is not good is what reading
comes to (`Timeline.of_ofValue`).
-/

namespace Montage

/-- How a part of a request is taken. -/
inductive Verdict where
  | used
  | refused
  | misread
  deriving DecidableEq

namespace Verdict

/-- The verdict on parts that are taken one after the other. -/
def first (vs : List Verdict) : Verdict := (vs.find? (· ≠ used)).getD used

/-- A part that has to be there, or to be of a shape. -/
def require (b : Bool) : Verdict := if b then used else refused

/-- A value that a conversion has to go well with. -/
def convert (b : Bool) : Verdict := if b then used else misread

/-- What a computation comes to under a verdict. -/
inductive Of {α : Type} : Verdict → Except Fault α → Prop
  | used (a : α) : Of used (.ok a)
  | refused (reason : Rejection) : Of refused (.error (.rejected reason))
  | misread (what : Misuse) (h : what ≠ .depth) : Of misread (.error (.misuse what))

variable {α β : Type} {v : Verdict} {vs ws : List Verdict} {x : Except Fault α} {f : α → Except Fault β}

theorem first_cons (v : Verdict) (vs : List Verdict) :
    first (v :: vs) = if v = used then first vs else v := by
  cases v <;> rfl

theorem first_append (vs ws : List Verdict) :
    first (vs ++ ws) = if first vs = used then first ws else first vs := by
  induction vs with
  | nil => rfl
  | cons v vs ih => cases v <;> simp [first_cons, ih]

theorem first_eq_used_iff : first vs = used ↔ ∀ v ∈ vs, v = used := by
  induction vs with
  | nil => simp [first]
  | cons v vs ih => cases v <;> simp [first_cons, ih]

theorem Of.isOk_iff (h : Of v x) : x.isOk = true ↔ v = Verdict.used := by
  cases h <;> simp [Except.isOk, Except.toBool]

/-! ### Ways of going on -/

theorem Of.bind (hx : Of (first vs) x) (hf : ∀ a, x = .ok a → Of (first ws) (f a)) :
    Of (first (vs ++ ws)) (x >>= f) := by
  rw [first_append]
  generalize first vs = v at hx
  cases hx with
  | used a => exact hf a rfl
  | refused reason => exact .refused reason
  | misread what h => exact .misread what h

theorem Of.single (hx : Of v x) : Of (first [v]) x := by
  cases v <;> exact hx

theorem Of.step (hx : Of v x) (hf : ∀ a, x = .ok a → Of (first vs) (f a)) :
    Of (first (v :: vs)) (x >>= f) := by
  exact Of.bind hx.single hf

theorem Of.guard {b : Bool} {reason : Rejection} (hx : b = true → Of (first vs) x) :
    Of (first (require b :: vs)) (if (!b) = true then .error (.rejected reason) else x) := by
  cases b with
  | false => exact .refused reason
  | true => exact hx rfl

theorem Of.forbid {b : Bool} {reason : Rejection} (hx : b = false → Of (first vs) x) :
    Of (first (require (!b) :: vs)) (if b = true then .error (.rejected reason) else x) := by
  cases b with
  | false => exact hx rfl
  | true => exact .refused reason

/-- A part that may be left out: null stands for nothing. -/
theorem Of.optional {b : Bool} {a : α} (hx : Of (first vs) x) :
    Of (first (if b = true then [] else vs)) (if b = true then .ok a else x) := by
  cases b with
  | false => exact hx
  | true => exact .used a

theorem Of.passed {b : Bool} (hb : b = true) (hx : Of (first vs) x) : Of (first (require b :: vs)) x := by
  subst hb
  exact hx

theorem Of.mapM {f : α → Except Fault β} {g : α → List Verdict} {as : List α}
    (h : ∀ a, Of (first (g a)) (f a)) : Of (first (as.flatMap g)) (as.mapM f) := by
  induction as with
  | nil => exact .used []
  | cons a as ih =>
    rw [List.mapM_cons, List.flatMap_cons]
    refine .bind (h a) fun b _ => ?_
    rw [← List.append_nil (as.flatMap g)]
    exact .bind ih fun bs _ => .used (b :: bs)

theorem of_convert {x : Except Fault α} (h : ∀ e, x = .error e → ∃ what ≠ .depth, e = .misuse what) :
    Of (convert x.isOk) x := by
  cases x with
  | ok a => exact .used a
  | error e =>
    obtain ⟨what, hwhat, rfl⟩ := h e rfl
    exact .misread what hwhat

end Verdict

open Verdict

/-! ### Values -/

namespace Value

/-- A time can be a number of any size; a text has to stand for one. -/
def timeVerdict : Value → Verdict
  | int _ | float _ => used
  | text s => convert (Timecode.seconds (text s)).isOk
  | _ => refused

def numberVerdict (v : Value) : Verdict := convert v.toBinary64.isOk

/-- A value is taken as text if it can be written. -/
def textVerdict (v : Value) : Verdict := convert v.hasText

/-- Any text can be written, so that it does not matter which one is the default. -/
theorem textVerdict_getD (v : Value) (key s t : String) :
    (v.getD key (.text s)).textVerdict = (v.getD key (.text t)).textVerdict := by
  unfold getD
  cases v.get? key <;> rfl

/-- The entries of the list under a key; there are none without a list. -/
def entriesOf (v : Value) (key : String) : List Value := (v.getD key (.list [])).list?.getD []

def listVerdict (v : Value) (key : String) : Verdict := require (v.getD key (.list [])).list?.isSome

theorem orNone_eq (v : Value) : v.orNone = if v.isNull then none else some v := by
  cases v <;> rfl

theorem of_toText (v : Value) : Of v.textVerdict v.toText := by
  unfold textVerdict toText
  cases v.hasText with
  | true => exact .used _
  | false => exact .misread .value (by decide)

theorem of_toBinary64 (v : Value) : Of v.numberVerdict v.toBinary64 := by
  refine of_convert fun e he => ?_
  unfold toBinary64 at he
  split at he
  · cases he
  · unfold Number.toBinary64 at he
    dsimp only at he
    split at he <;> cases he
    exact ⟨.range, by decide, rfl⟩
  · cases he
  · split at he <;> cases he
    exact ⟨.value, by decide, rfl⟩
  · split at he <;> cases he
    exact ⟨.value, by decide, rfl⟩
  · cases he
    exact ⟨.kind, by decide, rfl⟩

theorem of_listField (v : Value) (key : String) (refusal : Rejection) :
    Of (v.listVerdict key) (v.listField key refusal) := by
  unfold listVerdict listField
  cases (v.getD key (.list [])).list? with
  | some items => exact .used items
  | none => exact .refused refusal

theorem list?_of_listField {v : Value} {key : String} {refusal : Rejection} {items : List Value}
    (h : v.listField key refusal = .ok items) : (v.getD key (.list [])).list? = some items := by
  unfold listField at h
  cases hlist : (v.getD key (.list [])).list? with
  | none =>
    rw [hlist] at h
    cases h
  | some items' =>
    rw [hlist] at h
    exact congrArg some (Except.ok.inj h)

theorem entriesOf_of_listField {v : Value} {key : String} {refusal : Rejection} {items : List Value}
    (h : v.listField key refusal = .ok items) : v.entriesOf key = items := by
  rw [entriesOf, list?_of_listField h]
  rfl

end Value

namespace Timecode

theorem of_seconds (v : Value) : Of v.timeVerdict (seconds v) := by
  have hdecimal {α : Type} {x : Except Decimal.Error α} {e : Fault} (h : liftDecimal x = .error e) :
      ∃ what ≠ .depth, e = .misuse what := by
    rcases x with (_ | _) | _ <;> cases h
    · exact ⟨.invalidDecimal, by decide, rfl⟩
    · exact ⟨.decimalOverflow, by decide, rfl⟩
  cases v with
  | int n => exact .used _
  | float x =>
    obtain ⟨y, hy⟩ := Outcome.isOk_iff.1 (isOk_seconds_float x)
    rw [hy]
    exact .used y
  | text s =>
    refine of_convert fun e he => ?_
    unfold seconds at he
    cases hread : read (.text s) with
    | error e' =>
      rw [hread] at he
      cases he
      exact hdecimal hread
    | ok d =>
      rw [hread] at he
      cases hnumber : d.toBinary64? with
      | some x => simp [bind, Except.bind, hnumber] at he
      | none =>
        -- A signalling NaN is read, but no binary number stands for it.
        simp only [bind, Except.bind, hnumber] at he
        exact ⟨.value, by decide, (Except.error.inj he).symm⟩
  | null => exact .refused .timeRequired
  | _ => exact .refused .timeKind

theorem of_ofField (entry : Value) (key : String) (default : Value) :
    Of (entry.getD key default).timeVerdict (ofField entry key default) := by
  unfold ofField
  split
  · rename_i hnull
    rw [hnull]
    exact .refused _
  · exact of_seconds _

end Timecode

/-! ### Entries -/

theorem of_readEntries {α : Type} {read : Value → Nat → Except Fault α} {g : Value → List Verdict}
    (h : ∀ entry position, Of (first (g entry)) (read entry position)) (entries : List Value) :
    Of (first (entries.flatMap g)) (readEntries read entries) := by
  have hentries : entries.flatMap g = (entries.zipIdx 1).flatMap fun numbered => g numbered.1 := by
    conv_lhs => rw [← List.zipIdx_map_fst 1 entries, List.flatMap_map]
  rw [hentries]
  exact .mapM fun numbered => h numbered.1 numbered.2

namespace Clip

def verdicts (entry : Value) : List Verdict := [
  require entry.isMapping,
  (entry.getD "id" (.text "")).textVerdict,
  (entry.getD "start_time" (.int 0)).timeVerdict,
  (entry.get "duration").timeVerdict,
  (entry.getD "trim_start" (.int 0)).timeVerdict,
  (entry.getD "trim_end" (.int 0)).timeVerdict]

theorem of_ofValue (kind : TrackKind) (track : String) (entry : Value) (position : Nat) :
    Of (first (verdicts entry)) (ofValue kind track entry position) := by
  refine .guard fun _ => ?_
  refine .step ((entry.textVerdict_getD "id" _ _).symm ▸ Value.of_toText _) fun id _ => ?_
  refine .step (Timecode.of_ofField _ _ _) fun start _ => ?_
  refine .step (Timecode.of_ofField _ _ _) fun duration _ => ?_
  refine .step (Timecode.of_ofField _ _ _) fun trimStart _ => ?_
  refine .step (Timecode.of_ofField _ _ _) fun trimEnd _ => ?_
  exact .used _

end Clip

namespace Track

def verdicts (entry : Value) : List Verdict :=
  require entry.isMapping ::
  require (TrackKind.ofValue? (entry.getD "type" (entry.get "kind"))).isSome ::
  (entry.getD "id" (.text "")).textVerdict ::
  entry.listVerdict "clips" ::
  (entry.entriesOf "clips").flatMap Clip.verdicts

theorem of_ofValue (entry : Value) (position : Nat) :
    Of (first (verdicts entry)) (ofValue entry position) := by
  refine .guard fun _ => ?_
  cases TrackKind.ofValue? (entry.getD "type" (entry.get "kind")) with
  | none => exact .refused _
  | some kind =>
    refine .passed rfl ?_
    refine .step ((entry.textVerdict_getD "id" _ _).symm ▸ Value.of_toText _) fun id _ => ?_
    refine .step (Value.of_listField _ _ _) fun entries hentries => ?_
    rw [Value.entriesOf_of_listField hentries, ← List.append_nil (List.flatMap _ _)]
    exact .bind (of_readEntries (Clip.of_ofValue kind id) entries) fun clips _ => .used _

end Track

namespace TextOverlay

def verdicts (entry : Value) : List Verdict := [
  require entry.isMapping,
  require (!(entry.get "text").isNull),
  (entry.getD "id" (.text "")).textVerdict,
  (entry.get "text").textVerdict,
  (entry.getD "start_time" (.int 0)).timeVerdict,
  (entry.get "duration").timeVerdict,
  (entry.getD "x" (.int 50)).numberVerdict,
  (entry.getD "y" (.int 50)).numberVerdict]

theorem of_ofValue (entry : Value) (position : Nat) :
    Of (first (verdicts entry)) (ofValue entry position) := by
  refine .guard fun _ => ?_
  rw [Value.orNone_eq]
  cases (entry.get "text").isNull with
  | true => exact .refused _
  | false =>
    refine .passed rfl ?_
    refine .step ((entry.textVerdict_getD "id" _ _).symm ▸ Value.of_toText _) fun id _ => ?_
    refine .step (Value.of_toText _) fun text _ => ?_
    refine .step (Timecode.of_ofField _ _ _) fun start _ => ?_
    refine .step (Timecode.of_ofField _ _ _) fun duration _ => ?_
    refine .step (Value.of_toBinary64 _) fun x _ => ?_
    refine .step (Value.of_toBinary64 _) fun y _ => ?_
    exact .used _

end TextOverlay

namespace Timeline

/-- The snapshot that is read: null is an empty one. -/
def snapshotOf (v : Value) : Value := v.orNone.getD (.mapping [])

def minimumOf (snapshot minimum : Value) : Value :=
  minimum.orNone.getD (snapshot.getD "minimum_duration" (.int 5))

def verdicts (v minimum : Value) : List Verdict :=
  let snapshot := snapshotOf v
  require snapshot.isMapping ::
  snapshot.listVerdict "tracks" ::
  snapshot.listVerdict "text_overlays" ::
  ((snapshot.entriesOf "tracks").flatMap Track.verdicts ++
    ((snapshot.entriesOf "text_overlays").flatMap TextOverlay.verdicts ++
      [(minimumOf snapshot minimum).timeVerdict]))

/-- Reading a snapshot comes to what the first part says that is not good: tracks with their clips first,
then texts, and the minimum duration last. -/
theorem of_ofValue (v minimum : Value) : Of (first (verdicts v minimum)) (ofValue v minimum) := by
  refine .guard fun _ => ?_
  refine .step (Value.of_listField _ _ _) fun tracks htracks => ?_
  refine .step (Value.of_listField _ _ _) fun overlays hoverlays => ?_
  rw [snapshotOf, Value.entriesOf_of_listField htracks, Value.entriesOf_of_listField hoverlays]
  refine .bind (of_readEntries Track.of_ofValue tracks) fun tracks _ => ?_
  refine .bind (of_readEntries TextOverlay.of_ofValue overlays) fun overlays _ => ?_
  exact .step (Timecode.of_seconds _) fun minimum _ => .used _

theorem isOk_ofValue_iff (v minimum : Value) :
    (ofValue v minimum).isOk = true ↔ ∀ verdict ∈ verdicts v minimum, verdict = used := by
  rw [(of_ofValue v minimum).isOk_iff, first_eq_used_iff]

end Timeline

end Montage
