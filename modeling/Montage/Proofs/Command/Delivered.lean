import Montage.Proofs.Asset.Resolved
import Montage.Proofs.Command.Joined
import Montage.Proofs.Export.Atomic

/-!
# The outputs of a request

Whatever the engine made of the clips of a request is put into the output directory (`writeOutputs_ends`):
each clip that it could cut under its number, with the bytes that its own run left, the subtitles beside
it, and all of them joined when that is asked for and the engine does not fail.
-/

namespace Montage

open Session Studio FileTree Montage.Path

namespace Command

open Cutting

/-! ### Outputs -/

/-- The driver of a command. -/
def rendererOf (a : CutArguments) (r : CutRequest) : Renderer Screen where
  loadEngine := Engine.shared r.engine
  keepTemp := a.keepTemp
  cacheDirectory := a.cacheDirectory

def extractorWith (a : CutArguments) (r : CutRequest) (resolver : Resolver) : Extractor Screen where
  renderer := rendererOf a r
  resolver
  quality := r.quality
  hasAudio := r.hasAudio

/-- The bar moves on with each clip. -/
def moveBar (_ : CutOutput) : Session Screen Unit := Session.present (·.advance 1)

/-- All clips that the engine made joined, when there are any and the joining does not fail. -/
def joined? (s : Studio Screen) (count : Nat) : Option ByteArray :=
  joinedOf (s.product? count) ((List.range count).filterMap s.product?)

/-- What is due in each of the files of a request. -/
def dueContents (r : CutRequest) (cuts : List Cut) (s : Studio Screen) : OutputFile → Option ByteArray :=
  withJoined (clipContents r cuts s.product? cuts.length) (if r.joined then joined? s cuts.length else none)

/-- Whether the engine could do all that a request asks for. -/
def IsAllDone (r : CutRequest) (count : Nat) (s : Studio Screen) : Prop :=
  (∀ place < count, (s.product? place).isSome = true) ∧
    (r.joined = true → (joined? s count).isSome = true)

/-- A tree in which the output directory is there, or can be made, and can take the files of so many
clips; it has an opening for the workspace in which they are joined. -/
structure TakesOutputs (a : CutArguments) (r : CutRequest) (stem : String) (count : Nat)
    (s : Studio Screen) (place spot : List String) (t : FileTree) : Prop where
  made : t.isDirectory s.site.directory r.outputDirectory = true ∨
    (t.makeDirectories s.site.directory r.outputDirectory).2 = none
  located : (t.ensured s.site.directory r.outputDirectory).locate s.site.directory r.outputDirectory =
    .ok ⟨place, some .directory⟩
  canHold : ∀ f, OutputFile.IsAmong count f →
    (t.ensured s.site.directory r.outputDirectory).CanHold (place ++ [f.name stem])
  opening : (t.ensured s.site.directory r.outputDirectory).IsOpening s.site.directory
    (s.pathOf a.cacheDirectory (s.workspaceCount + count + 1)) spot

/-- The outputs of so many clips can be written, whatever workspaces the runs leave behind. -/
structure CanWrite (a : CutArguments) (r : CutRequest) (stem : String) (count : Nat) (s : Studio Screen) :
    Prop where
  room : r.outputDirectory.utf8ByteSize + maxNameSize < maxPathSize
  isFileName : ∀ f, OutputFile.IsAmong count f → IsFileName (f.name stem)
  takes : ∀ t, (rendererOf a r).IsLeft s count t → ∃ place spot, TakesOutputs a r stem count s place spot t

variable {a : CutArguments} {r : CutRequest} {stem : String} {cuts : List Cut} {s s₁ s₂ s' : Studio Screen}
  {outputs : List CutOutput}

theorem rendererOf_isQuiet (a : CutArguments) (r : CutRequest) : (rendererOf a r).IsQuiet r.engine :=
  ⟨rfl, fun _ => IsIdle.pure, fun _ => IsIdle.pure⟩

theorem extractorWith_isScripted (resolver : Resolver)
    (hshort : r.source.extension.length ≤ maxExtensionLength) :
    (extractorWith a r resolver).IsScripted r.engine (some r.source) moveBar where
  isQuiet := rendererOf_isQuiet a r
  compiler_eq := rfl
  short x hx := by
    obtain rfl := Option.mem_some.1 hx
    exact hshort
  told _ := present_isChat _

theorem ensureDirectory_ends {path : String} (h : s.tree.isDirectory s.site.directory path = true ∨
    (s.tree.makeDirectories s.site.directory path).2 = none) :
    Ends (ensureDirectory path) s () { s with tree := s.tree.ensured s.site.directory path } := by
  rw [Ends, ensureDirectory, exec_bind, exec_isDirectory, ensured]
  dsimp only
  by_cases hthere : s.tree.isDirectory s.site.directory path = true
  · rw [hthere]
    rfl
  · have hmake := exec_makeDirectories path s
    rw [h.resolve_left hthere] at hmake
    rw [if_neg hthere, if_pos (by simpa using hthere)]
    exact hmake

theorem map_ok_eq {start : Nat} (h : AreCut s start cuts outputs) :
    outputs.map (·.ok) = (List.range' start cuts.length).map fun k => (s.product? k).isSome := by
  induction cuts generalizing start outputs with
  | nil =>
    cases h
    rfl
  | cons c rest ih =>
    obtain _ | ⟨hfirst, hrest⟩ := h
    rw [List.length_cons, List.range'_succ, List.map_cons, List.map_cons, hfirst.ok, ih hrest]

theorem all_ok_iff (h : AreCut s 0 cuts outputs) :
    outputs.all (·.ok) = true ↔ ∀ place < cuts.length, (s.product? place).isSome = true := by
  have hall : outputs.all (·.ok) = (outputs.map (·.ok)).all id := by rw [List.all_map]; rfl
  rw [hall, map_ok_eq h]
  simp

/-! ### The source -/

/-- Where a request looks for its source. -/
def resolverOf (r : CutRequest) (s : Studio Screen) : Resolver where
  storage := r.storageRoot.map fun root => ⟨s.tree.realPath (join s.site.directory root)⟩
  timeout := r.timeout

def shelfOf (r : CutRequest) (s : Studio Screen) : Shelf := (resolverOf r s).shelfIn s

theorem ofRoot_ends (hroot : ∀ root ∈ r.storageRoot, hasNul root = false) :
    Ends (Resolver.ofRoot r.storageRoot r.timeout) s (resolverOf r s) s := by
  rw [resolverOf]
  cases hstorage : r.storageRoot with
  | none => exact ends_pure.2 ⟨rfl, rfl⟩
  | some root =>
    have hopen : Storage.ofPath s.tree s.site.directory root =
        .ok ⟨s.tree.realPath (join s.site.directory root)⟩ := by
      rw [Storage.ofPath, hroot root hstorage, if_neg Bool.false_ne_true]
    refine ends_bind.2 ⟨_, s, ends_tree.2 ⟨rfl, rfl⟩, ends_bind.2 ⟨_, s, ends_site.2 ⟨rfl, rfl⟩, ?_⟩⟩
    exact ends_bind.2 ⟨_, s, ends_lift.2 ⟨hopen, rfl⟩, ends_pure.2 ⟨rfl, rfl⟩⟩

theorem extractorOf_ends (hroot : ∀ root ∈ r.storageRoot, hasNul root = false) :
    Ends (extractorOf a r) s (extractorWith a r (resolverOf r s)) s :=
  ends_bind.2 ⟨_, s, ofRoot_ends hroot, ends_pure.2 ⟨rfl, rfl⟩⟩

/-! ### What is needed and what is said -/

/-- A studio in which nothing but the engine, or the way to the source, can keep a request from being
done. -/
structure IsReady (a : CutArguments) (r : CutRequest) (stem : String) (count : Nat) (s : Studio Screen) :
    Prop where
  stem_eq : r.stem = .text stem
  few : count ≤ maxClips
  short : r.source.extension.length ≤ maxExtensionLength
  root : ∀ root ∈ r.storageRoot, hasNul root = false
  links : s.tree.HasNullessLinks
  directory : hasNul s.site.directory = false
  understood : (shelfOf r s).Understands r.source
  isSound : s.tree.IsSound
  free : s.pool.holder = none
  legible : s.HasLegibleRuns
  hasRoom : s.HasRoom a.cacheDirectory count
  canWrite : CanWrite a r stem count s

/-- Whether a request is done: there are clips, their source can be fetched and the engine loaded, and
that does all that is asked for. -/
structure IsDone (r : CutRequest) (count : Nat) (s : Studio Screen) : Prop where
  nonempty : count ≠ 0
  fetched : ((shelfOf r s).delivered? r.source).isSome = true
  loaded : (s.engineOutcome r.engine).isOk = true
  cut : IsAllDone r count s

/-- The clips were cut one after the other, each in a run of its own, and what is due was put into the
output directory of the tree that these runs have left. -/
structure Leaves (a : CutArguments) (r : CutRequest) (stem : String) (cuts : List Cut) (data : ByteArray)
    (s s' : Studio Screen) (outputs : List CutOutput) (t : FileTree) (place : List String) : Prop where
  played : ∃ s₁ s₂, s.Chats s₁ ∧
    (extractorWith a r (resolverOf r s)).Cuts r.source data moveBar cuts outputs s₁ s₂
  areCut : AreCut s 0 cuts outputs
  stamped : r.subtitles = true → ∀ place < cuts.length, (subtitlesAt? r cuts place).isSome = true
  isLeft : (rendererOf a r).IsLeft s cuts.length t
  located : (t.ensured s.site.directory r.outputDirectory).locate s.site.directory r.outputDirectory =
    .ok ⟨place, some .directory⟩
  received : (t.ensured s.site.directory r.outputDirectory).Receives place (OutputFile.name stem)
    (dueContents r cuts s) ((rendererOf a r).IsKeptAs s (t.ensured s.site.directory r.outputDirectory)
      (s.workspaceCount + cuts.length + 1)) s'.tree

/-- The status and the files that a command leaves are due. -/
structure Reports (a : CutArguments) (r : CutRequest) (stem : String) (cuts : List Cut)
    (s : Studio Screen) (status : Nat) (s' : Studio Screen) : Prop where
  status_cases : status = 0 ∨ status = 1
  status_iff : status = 0 ↔ if a.dryRun then cuts ≠ [] else IsDone r cuts.length s
  shown : a.dryRun = true ∨ cuts = [] → s' = { s with front := s'.front }
  kept : (shelfOf r s).delivered? r.source = none ∨ (s.engineOutcome r.engine).isOk = false → s.AtRest s'
  left : a.dryRun = false → cuts ≠ [] → (s.engineOutcome r.engine).isOk = true →
    ∀ data ∈ (shelfOf r s).delivered? r.source,
      ∃ outputs t place, Leaves a r stem cuts data s s' outputs t place

/-! ### Writing what was cut -/

theorem any_ok_iff (h : AreCut s 0 cuts outputs) :
    outputs.any (·.ok) = true ↔ ∃ place < cuts.length, (s.product? place).isSome = true := by
  have hany : outputs.any (·.ok) = (outputs.map (·.ok)).any id := by rw [List.any_map]; rfl
  rw [hany, map_ok_eq h]
  simp

theorem usable_eq_range (h : AreCut s 0 cuts outputs) :
    usable outputs = (List.range cuts.length).filterMap s.product? := by
  rw [usable_eq h, List.range_eq_range']

/-- Nothing is joined when no clip was cut. -/
theorem joined?_of_not_any (h : AreCut s 0 cuts outputs) (hany : outputs.any (·.ok) = false) :
    joined? s cuts.length = none := by
  have hnone : usable outputs = [] := by
    rw [List.any_eq_false] at hany
    have hfilter : outputs.filter (·.ok) = [] := List.filter_eq_nil_iff.2 hany
    rw [usable, hfilter]
    rfl
  rw [joined?, ← usable_eq_range h, hnone]
  rfl

/-- The clips are joined if that is asked for and there are any; false when the engine fails. -/
def joinedWhenDue (r : CutRequest) (e : Extractor Screen) (outputs : List CutOutput) :
    Session Screen Bool :=
  if r.joined && outputs.any (·.ok) then writeJoined r e outputs else pure true

theorem writeOutputs_eq (r : CutRequest) (e : Extractor Screen) (outputs : List CutOutput) :
    writeOutputs r e outputs = do
      closeBar
      ensureDirectory r.outputDirectory
      outputs.forM (writeCut r)
      let whole ← joinedWhenDue r e outputs
      return if whole && outputs.all (·.ok) then 0 else 1 := by
  unfold writeOutputs joinedWhenDue
  split <;> rfl

theorem index_eq_of_isNumbered (h : IsNumbered cuts) {k : Nat} {c : Cut} (hc : cuts[k]? = some c) :
    c.index = Int.ofNat (k + 1) := by
  have hindex := congrArg (·[k]?) h
  have hk : k < cuts.length := (List.getElem?_eq_some_iff.1 hc).1
  simp only [List.getElem?_map, hc, positions, List.getElem?_range' hk] at hindex
  simpa [Nat.add_comm] using hindex

/-- When no joining is due, there is nothing to be joined, or it is not asked for. -/
theorem joined?_of_not_due (hare : AreCut s 0 cuts outputs)
    (hdue : (r.joined && outputs.any (·.ok)) = false) :
    (if r.joined then joined? s cuts.length else none) = none := by
  split
  · rename_i hjoined
    rw [hjoined, Bool.true_and] at hdue
    exact joined?_of_not_any hare hdue
  · rfl

section Written

variable (hready : IsReady a r stem cuts.length s) (hload : (s.engineOutcome r.engine).isOk = true)
  (hplayed : (rendererOf a r).HasPlayed s cuts.length s₁)

include hready hload hplayed

/-- The clips that the engine could cut are written joined, unless the engine fails. -/
theorem writeJoined_ends_of_any (resolver : Resolver) {base : FileTree} {place spot : List String}
    {contents : OutputFile → Option ByteArray} (hany : outputs.any (·.ok) = true)
    (hare : AreCut s 0 cuts outputs) (honly : s₁.OnlyWrites s₂)
    (hwriting : IsWriting base r stem place cuts.length contents (fun _ => False) s₂)
    (hext : s₁.tree.Extends base) (hplace : base.entry? place = some .directory) (hbase : base.IsSound)
    (hopening : base.IsOpening s.site.directory
      (s.pathOf a.cacheDirectory (s.workspaceCount + cuts.length + 1)) spot) :
    ∃ s', Ends (writeJoined r (extractorWith a r resolver) outputs) s₂ (joined? s cuts.length).isSome s' ∧
      IsWriting base r stem place cuts.length (withJoined contents (joined? s cuts.length))
        ((rendererOf a r).IsKeptAs s base (s.workspaceCount + cuts.length + 1)) s' := by
  have hlength : cuts.length ≠ 0 := by
    obtain ⟨place, hplace, -⟩ := (any_ok_iff hare).1 hany
    omega
  have hsite : s₂.site = s.site := honly.site.trans hplayed.site
  have hcount : s₂.workspaceCount = s.workspaceCount + cuts.length :=
    honly.workspaceCount.trans hplayed.workspaceCount
  have hlarger : (s.ground a.cacheDirectory).Extends s₂.tree := by
    have hground := hplayed.isExtension
    rw [hplayed.grounded hlength] at hground
    exact (hground.trans hext).trans hwriting.isExtension
  have hproduct : joinedOf (s₂.product? 0) (usable outputs) = joined? s cuts.length := by
    rw [product?_congr (s := s₁) honly.runs honly.runCount, hplayed.product?_add 0, Nat.add_zero,
      usable_eq_range hare, joined?]
  have hlegible : s₂.HasLegibleRuns := by
    have hruns := hplayed.hasLegibleRuns hready.legible
    rw [HasLegibleRuns, ← show s₂.runs = s₁.runs from honly.runs] at hruns
    exact hruns
  have hloaded : (s₂.engineOutcome r.engine).isOk = true := by
    rw [honly.engineOutcome]
    exact hplayed.loaded r.engine hload
  have hfew : outputs.length ≤ maxClips := by
    have hlengths := congrArg List.length (map_ok_eq hare)
    rw [List.length_map, List.length_map, List.length_range'] at hlengths
    exact hlengths ▸ hready.few
  rw [← hsite, ← pathOf_congr hsite, ← hcount] at hopening
  obtain ⟨s', hends, hwriting'⟩ := hwriting.writeJoined_ends (e := extractorWith a r resolver) hbase hplace
    (ground_of_extends hready.hasRoom.grounded hlarger hsite).1 hopening
    (extractorWith_isScripted resolver hready.short) (usable_ne_nil hany) hfew
    (honly.pool ▸ hplayed.free) hloaded hlegible
  rw [hproduct] at hends hwriting'
  refine ⟨s', hends, ?_⟩
  rwa [show (extractorWith a r resolver).renderer = rendererOf a r from rfl,
    (rendererOf a r).isKeptAs_congr hsite, hcount] at hwriting'

/-- The clips that the engine could cut are joined when that is asked for. -/
theorem joinedWhenDue_ends (resolver : Resolver) {base : FileTree} {place spot : List String}
    {contents : OutputFile → Option ByteArray} (hne : cuts ≠ []) (hare : AreCut s 0 cuts outputs)
    (honly : s₁.OnlyWrites s₂)
    (hwriting : IsWriting base r stem place cuts.length contents (fun _ => False) s₂)
    (hext : s₁.tree.Extends base) (hplace : base.entry? place = some .directory) (hbase : base.IsSound)
    (hopening : base.IsOpening s.site.directory
      (s.pathOf a.cacheDirectory (s.workspaceCount + cuts.length + 1)) spot) :
    ∃ whole s', Ends (joinedWhenDue r (extractorWith a r resolver) outputs) s₂ whole s' ∧
      (whole = true ∧ outputs.all (·.ok) = true ↔ IsAllDone r cuts.length s) ∧
      IsWriting base r stem place cuts.length
        (withJoined contents (if r.joined then joined? s cuts.length else none))
        ((rendererOf a r).IsKeptAs s base (s.workspaceCount + cuts.length + 1)) s' := by
  rw [IsAllDone, ← all_ok_iff hare, joinedWhenDue]
  cases hdue : r.joined && outputs.any (·.ok) with
  | true =>
    obtain ⟨hjoined, hany⟩ := Bool.and_eq_true_iff.1 hdue
    obtain ⟨s', hends, hwriting'⟩ := writeJoined_ends_of_any hready hload hplayed resolver hany hare honly
      hwriting hext hplace hbase hopening
    rw [if_pos rfl, if_pos hjoined]
    refine ⟨_, s', hends, ?_, hwriting'⟩
    rw [and_comm]
    exact and_congr_right fun _ => ⟨fun hsome _ => hsome, fun hsome => hsome hjoined⟩
  | false =>
    rw [if_neg Bool.false_ne_true, joined?_of_not_due hare hdue]
    refine ⟨true, s₂, ends_pure.2 ⟨rfl, rfl⟩, ?_, hwriting.weaken _⟩
    rw [eq_self, true_and]
    refine ⟨fun hall => ⟨hall, fun hjoined => ?_⟩, And.left⟩
    have hpos : 0 < cuts.length := List.length_pos_iff.2 hne
    have hany : outputs.any (·.ok) = true :=
      (any_ok_iff hare).2 ⟨0, hpos, (all_ok_iff hare).1 hall 0 hpos⟩
    rw [hjoined, hany] at hdue
    cases hdue

/-- What was cut is written. -/
theorem writeOutputs_ends (resolver : Resolver) (hne : cuts ≠ []) (hnumbered : IsNumbered cuts)
    (hstamps : r.subtitles = true → ∀ c ∈ cuts, c.HasStamps r.transcript) (hare : AreCut s 0 cuts outputs)
    (hplain : ReadsPlain s.site) :
    ∃ place status s', Ends (writeOutputs r (extractorWith a r resolver) outputs) s₁ status s' ∧
      (status = 0 ∨ status = 1) ∧ (status = 0 ↔ IsAllDone r cuts.length s) ∧
      (s₁.tree.ensured s.site.directory r.outputDirectory).locate s.site.directory r.outputDirectory =
        .ok ⟨place, some .directory⟩ ∧
      (s₁.tree.ensured s.site.directory r.outputDirectory).Receives place (OutputFile.name stem)
        (dueContents r cuts s)
        ((rendererOf a r).IsKeptAs s (s₁.tree.ensured s.site.directory r.outputDirectory)
          (s.workspaceCount + cuts.length + 1)) s'.tree := by
  have hlength : cuts.length ≠ 0 := fun hnil => hne (List.length_eq_zero_iff.1 hnil)
  obtain ⟨place, spot, htakes⟩ := hready.canWrite.takes s₁.tree (hplayed.isLeft hlength)
  -- The directory for the clips is made only after all of them are cut.
  obtain ⟨s₂, hclosed, hchat⟩ := present_isChat (·.close) s₁
  have hplayed₂ := hplayed.chats hchat
  have hsite : s₂.site = s.site := hplayed₂.site
  have hensured : Ends (ensureDirectory r.outputDirectory) s₂ ()
      { s₂ with tree := s₁.tree.ensured s.site.directory r.outputDirectory } := by
    have hmade := htakes.made
    rw [← hchat.tree, ← hsite] at hmade ⊢
    exact ensureDirectory_ends hmade
  have hgrows := grows_ensured s₁.tree s.site.directory r.outputDirectory
  have hlocated := htakes.located
  have hcanHold := htakes.canHold
  have hopening := htakes.opening
  generalize s₁.tree.ensured s.site.directory r.outputDirectory = base at *
  have hsound : base.IsSound := hgrows.isSound hplayed.isSound
  have hstart : IsWriting base r stem place cuts.length (fun _ => none) (fun _ => False)
      { s₂ with tree := base } :=
    ⟨⟨hsound, hsite ▸ hlocated, hready.canWrite.room⟩, hready.stem_eq, hready.canWrite.isFileName, hcanHold,
      .refl base, .start base place _ _⟩
  have hcuts : ∀ numbered ∈ cuts.zipIdx, cuts[numbered.2]? = some numbered.1 ∧
      numbered.1.index = Int.ofNat (numbered.2 + 1) := by
    intro numbered hmem
    have hcut := List.mem_zipIdx_iff_getElem?.1 hmem
    exact ⟨hcut, index_eq_of_isNumbered hnumbered hcut⟩
  have houtputs : List.Forall₂ (fun numbered o => CutOutput.IsOf o numbered.1 (s.product? numbered.2))
      cuts.zipIdx outputs := hare
  obtain ⟨s₃, hwrites, honly, hwriting⟩ := hstart.writeCuts_end hcuts (Nat.zero_add cuts.length) hstamps
    houtputs (hsite ▸ hplain) clipContents_zero.symm
  obtain ⟨whole, s', hwhole, hdone, hwriting'⟩ := joinedWhenDue_ends hready hload hplayed₂
    resolver hne hare honly hwriting (hchat.tree ▸ hgrows.isExtension)
    (entry_of_locate hlocated).symm hsound hopening
  refine ⟨place, if whole && outputs.all (·.ok) then 0 else 1, s', ?_, ?_, ?_, hlocated, hwriting'.received⟩
  · rw [writeOutputs_eq]
    exact ends_bind.2 ⟨(), s₂, hclosed, ends_bind.2 ⟨(), _, hensured, ends_bind.2 ⟨(), s₃, hwrites,
      ends_bind.2 ⟨whole, s', hwhole, ends_pure.2 ⟨rfl, rfl⟩⟩⟩⟩⟩
  · split
    · exact .inl rfl
    · exact .inr rfl
  · rw [← hdone, ← Bool.and_eq_true_iff]
    split
    · rename_i hok
      exact iff_of_true rfl hok
    · rename_i hfailed
      exact iff_of_false Nat.one_ne_zero hfailed

end Written

end Command

end Montage
