import Montage.Export.Job
import Montage.Proofs.Render.Played
import Montage.Proofs.Timeline.Verdict

/-!
# Requests that are refused

A request that cannot be used is refused with a reason, as long as no value comes before the reason that a
conversion goes wrong on: a path that is no text, a number or a time that does not say one, and a whole number
too long to be written. What loading comes to is what the first part says that is not good
(`ExportRequest.load_isReported`).
-/

namespace Montage

open Verdict

/-! ### Parts of a request -/

namespace Value

def pathVerdict : Value → Verdict
  | text _ => used
  | _ => misread

theorem of_asText (v : Value) : Of v.pathVerdict v.asText := by
  cases v with
  | text s => exact .used s
  | _ => exact .misread .kind (by decide)

theorem of_pathFrom (base : String) (v : Value) : Of v.pathVerdict (pathFrom base v) := by
  cases v with
  | text s => exact .used _
  | _ => exact .misread .kind (by decide)

/-- The items that a value is gone through by; there are none where it cannot be. -/
def itemsOf (v : Value) : List Value := v.items.toOption.getD []

theorem of_items (v : Value) : Of (convert v.items.isOk) v.items := by
  refine of_convert fun e he => ⟨.kind, by decide, ?_⟩
  unfold items at he
  split at he <;> cases he
  rfl

end Value

namespace StorageChoice

def verdicts (storage : Value) : List Verdict :=
  if storage.isNull then [] else [
    require storage.isMapping,
    require (!(storage.get "root").isNull),
    (storage.get "root").pathVerdict,
    if (storage.get "timeout").isNull then used else (storage.get "timeout").numberVerdict]

theorem of_ofValue (base : String) (storage : Value) :
    Of (first (verdicts storage)) (ofValue base storage) := by
  refine .optional <| .guard fun _ => ?_
  rw [Value.orNone_eq]
  cases (storage.get "root").isNull with
  | true => exact .refused _
  | false =>
    refine .passed rfl ?_
    refine .step (Value.of_pathFrom base _) fun root _ => ?_
    cases storage.get "timeout" with
    | null => exact .used _
    | _ =>
      rw [if_neg nofun]
      exact .step (Value.of_toBinary64 _) fun timeout _ => .used _

end StorageChoice

def fontVerdicts (fonts : Value) : List Verdict :=
  if fonts.isNull then [] else
    require fonts.isMapping ::
    convert (fonts.getD "dirs" (.list [])).items.isOk ::
    ((fonts.get "dir").orNone.toList ++ (fonts.getD "dirs" (.list [])).itemsOf).map (·.pathVerdict)

theorem of_fontDirectoriesOf (base : String) (fonts : Value) :
    Of (first (fontVerdicts fonts)) (fontDirectoriesOf base fonts) := by
  refine .optional <| .guard fun _ => ?_
  refine .step (Value.of_items _) fun more hmore => ?_
  rw [Value.itemsOf, hmore, List.map_eq_flatMap]
  exact .mapM fun path => .single (Value.of_pathFrom base path)

def engineVerdicts (engine : Value) : List Verdict :=
  if engine.isNull then [] else [require engine.isMapping]

theorem of_engineOf (engine : Value) : Of (first (engineVerdicts engine)) (engineOf engine) :=
  .optional <| .guard fun _ => .used _

def hasVersion (data : Value) : Bool :=
  match (data.get "clipgraph").number? with
  | some version => version.isInt formatVersion
  | none => false

theorem of_checkVersion (data : Value) : Of (require (hasVersion data)) (checkVersion data) := by
  unfold hasVersion checkVersion
  cases (data.get "clipgraph").number? with
  | none => exact .refused _
  | some version =>
    dsimp only
    cases version.isInt formatVersion with
    | true => exact .used _
    | false => exact .refused _

theorem of_outputPath (base : String) (asked : Option String) (given : Value) :
    Of (orAsked asked given).pathVerdict (outputPath base asked given) := by
  unfold outputPath
  cases asked with
  | none => exact Value.of_pathFrom base given
  | some asked => exact Value.of_asText _

/-! ### The whole request -/

namespace ExportRequest

def verdicts (options : ExportOptions) (data : Value) : List Verdict :=
  require (hasVersion data) ::
  require (data.get? "timeline").isSome ::
  require (data.get? "output").isSome ::
  require (data.get "output").isMapping ::
  require (!(orAsked options.output ((data.get "output").get "file")).isNull) ::
  (orAsked options.output ((data.get "output").get "file")).pathVerdict ::
  (StorageChoice.verdicts (data.get "storage") ++ (fontVerdicts (data.get "fonts") ++
    (engineVerdicts (data.get "engine") ++ Timeline.verdicts (data.get "timeline") .null)))

theorem of_ofValue (directory file : String) (options : ExportOptions) (data : Value) :
    Of (first (verdicts options data)) (ofValue directory file options data) := by
  refine .step (of_checkVersion data) fun _ _ => ?_
  rw [List.find?_cons, List.find?_cons, List.find?_nil]
  cases data.get? "timeline" with
  | none => exact .refused _
  | some timeline =>
    refine .passed rfl ?_
    cases data.get? "output" with
    | none => exact .refused _
    | some output =>
      refine .passed rfl <| .guard fun _ => .forbid fun _ => ?_
      -- From here on each section has verdicts of its own, one after the other.
      refine .step (of_outputPath _ _ _) fun outputFile _ => ?_
      refine .bind (StorageChoice.of_ofValue _ _) fun storage _ => ?_
      refine .bind (of_fontDirectoriesOf _ _) fun fontDirectories _ => ?_
      refine .bind (of_engineOf _) fun engine _ => ?_
      rw [← List.append_nil (Timeline.verdicts _ _)]
      exact .bind (Timeline.of_ofValue _ _) fun timeline _ => .used _

/-- The verdicts on the parts of a document, in the order of reading. -/
def documentVerdicts (options : ExportOptions) (data : Value) : List Verdict :=
  require data.isMapping :: verdicts options data

/-- The values of a request that stand for paths. -/
def paths (options : ExportOptions) (data : Value) : List Value :=
  let storage := data.get "storage"
  let fonts := data.get "fonts"
  [orAsked options.output ((data.get "output").get "file"), storage.get "root", fonts.get "dir"] ++
    (fonts.getD "dirs" (.list [])).itemsOf

end ExportRequest

/-- A request is taken, or refused with a reason. -/
def IsReported {α : Type} (x : Except Fault α) : Prop :=
  (∃ a, x = .ok a) ∨ ∃ reason, x = .error (.rejected reason)

/-- A conversion has gone wrong. -/
def IsEscaped {α : Type} (x : Except Fault α) : Prop := ∃ what ≠ .depth, x = .error (.misuse what)

theorem Verdict.Of.isReported {α : Type} {v : Verdict} {x : Except Fault α} (h : Of v x)
    (hv : v ≠ .misread) : IsReported x := by
  cases h with
  | used a => exact .inl ⟨a, rfl⟩
  | refused reason => exact .inr ⟨reason, rfl⟩
  | misread what _ => exact (hv rfl).elim

theorem Verdict.Of.isEscaped {α : Type} {v : Verdict} {x : Except Fault α} (h : Of v x)
    (hv : v = .misread) : IsEscaped x := by
  cases h with
  | misread what hwhat => exact ⟨what, hwhat, rfl⟩
  | _ => cases hv

theorem IsEscaped.not_isReported {α : Type} {x : Except Fault α} (h : IsEscaped x) : ¬ IsReported x := by
  obtain ⟨what, -, rfl⟩ := h
  rintro (⟨a, ha⟩ | ⟨reason, hreason⟩)
  · cases ha
  · cases hreason

/-- The text of a file can be read, and says a value. -/
def Studio.Reads {σ : Type} (s : Studio σ) (file : String) (data : Value) : Prop :=
  ∃ raw, s.tree.readFile s.site.directory file = .ok raw ∧ raw.size ≤ s.site.maxFileSize ∧
    s.site.readDocument raw = .ok data

variable {σ : Type} {s : Studio σ} {file : String} {data : Value}

theorem Studio.Reads.exec_readDocument (h : s.Reads file data) : (Session.readDocument file).exec s =
    (if data.isMapping then .ok data else .error (.rejected .topLevel), s) := by
  obtain ⟨raw, hread, hsize, hdata⟩ := h
  have hsite : Session.exec Session.site s = (.ok s.site, s) := rfl
  rw [Session.readDocument, Session.exec_bind, Session.exec_readFile, hread]
  dsimp only
  rw [Session.exec_bind, hsite]
  dsimp only
  rw [if_neg (Nat.not_lt.2 hsize), Session.exec_bind, Session.exec_lift, hdata]
  dsimp only
  cases data.isMapping <;> rfl

namespace ExportRequest

theorem of_load (h : s.Reads file data) (options : ExportOptions) :
    Of (first (documentVerdicts options data)) ((load file options).exec s).1 := by
  rw [load, Session.exec_bind, h.exec_readDocument, documentVerdicts]
  cases data.isMapping with
  | false => exact .refused .topLevel
  | true => exact of_ofValue s.site.directory file options data

/-- A request whose first bad part is of the wrong shape, and one without bad parts, ends in a reason or in
settings, whatever else is in it. Where the first bad part is one that a conversion goes wrong on, loading
fails without a reason; byte strings as paths are left open. -/
theorem load_isReported (h : s.Reads file data) (options : ExportOptions) :
    (first (documentVerdicts options data) ≠ .misread → IsReported ((load file options).exec s).1) ∧
    (first (documentVerdicts options data) = .misread →
      (∀ path ∈ paths options data, ∀ bytes, path ≠ .bytes bytes) →
      IsEscaped ((load file options).exec s).1) :=
  ⟨(of_load h options).isReported, fun hmisread _ => (of_load h options).isEscaped hmisread⟩

/-! ### Durations with a unit -/

/-- A request for one clip, whose length says its unit. -/
def unitRequest (storage : Value) : Value :=
  .record [("clipgraph", .int 1), ("output", .record [("file", "out.mp4")]), ("storage", storage),
    ("timeline", .record [("tracks", .list [.record [("type", "video"),
      ("clips", .list [.record [("url", "u"), ("duration", "5s")]])]])])]

def requestTree : FileTree := ⟨[(["export.yaml"], .file .empty)]⟩

/-- A studio in which a file says a value. -/
def studioWith (data : Value) : Studio Unit where
  site := { directory := "/", readDocument := fun _ => .ok data }
  tree := requestTree
  front := ()

theorem studioWith_reads (data : Value) : (studioWith data).Reads "export.yaml" data := by
  have hlocate : requestTree.locate "/" "export.yaml" =
      .ok ⟨["export.yaml"], some (.file .empty)⟩ := rfl
  have hread : requestTree.readFile "/" "export.yaml" = .ok .empty := by
    rw [FileTree.readFile, hlocate]
    rfl
  exact ⟨.empty, hread, Nat.zero_le _, rfl⟩

/-- The storage is refused before the length of the clip is looked at. -/
theorem unitRequest_isReported :
    (studioWith (unitRequest (.int 5))).Reads "export.yaml" (unitRequest (.int 5)) ∧
    IsReported ((load "export.yaml" {}).exec (studioWith (unitRequest (.int 5)))).1 :=
  ⟨studioWith_reads _, (load_isReported (studioWith_reads _) {}).1 (by decide +kernel)⟩

theorem unitRequest_not_isReported : ¬ ∀ (data : Value) (options : ExportOptions) (s : Studio Unit)
    (file : String), s.Reads file data → IsReported ((load file options).exec s).1 := by
  intro hall
  have hescaped : IsEscaped ((load "export.yaml" {}).exec (studioWith (unitRequest .null))).1 :=
    (of_load (studioWith_reads _) {}).isEscaped (by decide +kernel)
  exact hescaped.not_isReported (hall _ _ _ _ (studioWith_reads _))

end ExportRequest

end Montage
