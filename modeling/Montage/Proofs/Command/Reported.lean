import Montage.Proofs.Command.Delivered

/-!
# A command reports the truth

What a command that cuts clips says by its status is what has happened (`cutFile_reports`): the status is
zero just when there are clips, their source could be fetched, the engine loaded, and none of its runs
failed. Whatever could be cut is in the output directory, and a dry run only shows the clips. A table that
the console cannot read ends the command before that (`exec_cutFile_unread`).
-/

namespace Montage

open Session Studio FileTree Montage.Path

namespace Command

open Cutting

variable {a : CutArguments} {r : CutRequest} {stem : String} {cuts : List Cut} {s s' : Studio Screen}

/-! ### Ways to end -/

theorem fail_ends (problem : String) (s : Studio Screen) : ∃ s', Ends (fail problem) s 1 s' ∧ s.Chats s' := by
  obtain ⟨s₁, hclosed, hchat⟩ := present_isChat (·.close) s
  obtain ⟨s', hshown, hchat'⟩ := showLine_isChat problem problemStyle s₁
  exact ⟨s', ends_bind.2 ⟨(), s₁, hclosed, ends_bind.2 ⟨(), s', hshown, ends_pure.2 ⟨rfl, rfl⟩⟩⟩,
    Chats.trans _ _ _ hchat hchat'⟩

/-- What a command does with its clips, when that is more than to show them. -/
def cutAll (a : CutArguments) (r : CutRequest) (cuts : List Cut) : Run := do
  let e ← extractorOf a r
  match ← attempt (e.extract r.source cuts moveBar) with
  | .error (.assetUnavailable problem) => fail ("source unavailable: " ++ problem)
  | .error (.engineLoad problem) => fail ("engine load failed: " ++ problem)
  | .error fault => throw fault
  | .ok outputs => writeOutputs r e outputs

/-! ### Fetching, cutting and writing -/

theorem IsReady.of_shown {front : Screen} (h : IsReady a r stem cuts.length s) :
    IsReady a r stem cuts.length { s with front } where
  stem_eq := h.stem_eq
  few := h.few
  short := h.short
  root := h.root
  links := h.links
  directory := h.directory
  understood := h.understood
  isSound := h.isSound
  free := h.free
  legible := h.legible
  hasRoom := ⟨h.hasRoom.grounded, h.hasRoom.opening⟩
  canWrite := by
    refine ⟨h.canWrite.room, h.canWrite.isFileName, fun t ht => ?_⟩
    obtain ⟨place, spot, htakes⟩ := h.canWrite.takes t ⟨ht.isSound, ht.isExtension, ht.entry?_cases⟩
    exact ⟨place, spot, htakes.made, htakes.located, htakes.canHold, htakes.opening⟩

theorem IsReady.exists_fetch (h : IsReady a r stem cuts.length s) : ∃ outcome s',
    ((resolverOf r s).fetch (some r.source)).exec s = (outcome, s') ∧ s.Chats s' ∧
      Shelf.Delivers ((shelfOf r s).delivered? r.source) outcome := by
  have hnulless : (shelfOf r s).IsNulless :=
    Resolver.isNulless_ofRoot (ofRoot_ends h.root) h.links h.directory
  exact ⟨_, _, rfl, Chats.fetch (resolverOf r s) (some r.source) s,
    Shelf.fetch_delivers hnulless h.understood⟩

theorem IsReady.fetch_ends (h : IsReady a r stem cuts.length s) {data : ByteArray}
    (hdata : (shelfOf r s).delivered? r.source = some data) :
    ∃ s', Ends ((resolverOf r s).fetch (some r.source)) s data s' := by
  obtain ⟨outcome, s', hfetch, -, hdelivers⟩ := h.exists_fetch
  rw [hdata] at hdelivers
  cases hdelivers with
  | bytes data => exact ⟨s', hfetch⟩

theorem cutAll_unfetched (hready : IsReady a r stem cuts.length s) (hne : cuts ≠ [])
    (hnone : (shelfOf r s).delivered? r.source = none) :
    ∃ s', Ends (cutAll a r cuts) s 1 s' ∧ s.AtRest s' := by
  obtain ⟨outcome, s₁, hfetch, hchat, hdelivers⟩ := hready.exists_fetch
  rw [hnone] at hdelivers
  cases hdelivers with
  | unavailable why =>
    have hextract : ((extractorWith a r (resolverOf r s)).extract r.source cuts moveBar).exec s =
        (.error (.assetUnavailable why), s₁) := Extractor.extract_unfetched hne hfetch
    obtain ⟨s', hfailed, hchat'⟩ := fail_ends ("source unavailable: " ++ why) s₁
    refine ⟨s', ?_, (Chats.trans _ _ _ hchat hchat').toAtRest⟩
    exact ends_bind.2 ⟨_, s, extractorOf_ends hready.root,
      ends_bind.2 ⟨_, s₁, ends_attempt.2 hextract, hfailed⟩⟩

theorem cutAll_unloaded (hready : IsReady a r stem cuts.length s) (hne : cuts ≠ [])
    (hclocks : ∀ c ∈ cuts, c.HasClock) {data : ByteArray}
    (hdata : (shelfOf r s).delivered? r.source = some data) {fault : Fault}
    (hload : s.engineOutcome r.engine = .error fault) :
    ∃ s', Ends (cutAll a r cuts) s 1 s' ∧ s.AtRest s' := by
  obtain ⟨s₁, hfetched⟩ := hready.fetch_ends hdata
  obtain ⟨problem, s₂, rfl, hextract, hrest⟩ := Extractor.extract_unloaded
    (extractorWith_isScripted (a := a) (resolverOf r s) hready.short) hne hclocks hready.free hfetched hload
  obtain ⟨s', hfailed, hchat⟩ := fail_ends ("engine load failed: " ++ problem) s₂
  refine ⟨s', ?_, AtRest.trans _ _ _ hrest hchat.toAtRest⟩
  exact ends_bind.2 ⟨_, s, extractorOf_ends hready.root,
    ends_bind.2 ⟨_, s₂, ends_attempt.2 hextract, hfailed⟩⟩

/-- Otherwise every clip is cut, and what is due is written. -/
theorem cutAll_leaves (hready : IsReady a r stem cuts.length s) (hne : cuts ≠ [])
    (hnumbered : IsNumbered cuts) (hclocks : ∀ c ∈ cuts, c.HasClock)
    (hstamps : r.subtitles = true → ∀ c ∈ cuts, c.HasStamps r.transcript) {data : ByteArray}
    (hdata : (shelfOf r s).delivered? r.source = some data) (hplain : ReadsPlain s.site)
    (hload : (s.engineOutcome r.engine).isOk = true) : ∃ status s' outputs t place,
      Ends (cutAll a r cuts) s status s' ∧ (status = 0 ∨ status = 1) ∧
      (status = 0 ↔ IsAllDone r cuts.length s) ∧ Leaves a r stem cuts data s s' outputs t place := by
  have hlength : cuts.length ≠ 0 := fun hnil => hne (List.length_eq_zero_iff.1 hnil)
  obtain ⟨s₁, hfetched⟩ := hready.fetch_ends hdata
  obtain ⟨outputs, s₂, s₃, hextract, hloaded, hcuts, hare, hplayed⟩ := Extractor.extract_plays
    (extractorWith_isScripted (a := a) (resolverOf r s) hready.short) hne hclocks hready.isSound hready.free
    hfetched hload hready.hasRoom hready.legible
  have hchat := Chats.trans _ _ _ ((Chats.fetch (resolverOf r s) (some r.source)).ends hfetched)
    ((Chats.say _).ends hloaded)
  obtain ⟨place, status, s', hwritten, hcases, hdone, hlocated, hreceived⟩ :=
    writeOutputs_ends hready hload hplayed (resolverOf r s) hne hnumbered hstamps hare hplain
  refine ⟨status, s', outputs, s₃.tree, place, ?_, hcases, hdone,
    ⟨⟨s₂, s₃, hchat, hcuts⟩, hare, fun hsubtitles _ => isSome_subtitlesAt? (hstamps hsubtitles),
      hplayed.isLeft hlength, hlocated, hreceived⟩⟩
  exact ends_bind.2 ⟨_, s, extractorOf_ends hready.root,
    ends_bind.2 ⟨_, s₃, ends_attempt.2 hextract, hwritten⟩⟩

theorem not_isDone (hnot : (shelfOf r s).delivered? r.source = none ∨ (s.engineOutcome r.engine).isOk = false)
    (count : Nat) : ¬ IsDone r count s := by
  intro hdone
  have hfetched := hdone.fetched
  have hloaded := hdone.loaded
  rcases hnot with hnone | hfailed
  · rw [hnone] at hfetched
    cases hfetched
  · rw [hfailed] at hloaded
    cases hloaded

theorem reports_of_atRest (hdry : a.dryRun = false) (hne : cuts ≠ []) (hrest : s.AtRest s')
    (hnot : (shelfOf r s).delivered? r.source = none ∨ (s.engineOutcome r.engine).isOk = false) :
    Reports a r stem cuts s 1 s' where
  status_cases := .inr rfl
  status_iff := by
    rw [hdry, if_neg Bool.false_ne_true]
    exact iff_of_false Nat.one_ne_zero (not_isDone hnot cuts.length)
  shown hshown := by simp [hdry, hne] at hshown
  kept _ := hrest
  left _ _ hloaded data hdata := by simp [Option.mem_def.1 hdata, hloaded] at hnot

theorem cutAll_reports (hdry : a.dryRun = false) (hready : IsReady a r stem cuts.length s) (hne : cuts ≠ [])
    (hnumbered : IsNumbered cuts) (hclocks : ∀ c ∈ cuts, c.HasClock)
    (hstamps : r.subtitles = true → ∀ c ∈ cuts, c.HasStamps r.transcript) (hplain : ReadsPlain s.site) :
    ∃ status s', Ends (cutAll a r cuts) s status s' ∧ Reports a r stem cuts s status s' := by
  cases hdata : (shelfOf r s).delivered? r.source with
  | none =>
    obtain ⟨s', hends, hrest⟩ := cutAll_unfetched hready hne hdata
    exact ⟨1, s', hends, reports_of_atRest hdry hne hrest (.inl hdata)⟩
  | some data =>
    cases hload : s.engineOutcome r.engine with
    | error fault =>
      obtain ⟨s', hends, hrest⟩ := cutAll_unloaded hready hne hclocks hdata hload
      have hfailed : (s.engineOutcome r.engine).isOk = false := by
        rw [hload]
        rfl
      exact ⟨1, s', hends, reports_of_atRest hdry hne hrest (.inr hfailed)⟩
    | ok engine =>
      have hok : (s.engineOutcome r.engine).isOk = true := by
        rw [hload]
        rfl
      obtain ⟨status, s', outputs, t, place, hends, hcases, hdone, hleaves⟩ :=
        cutAll_leaves hready hne hnumbered hclocks hstamps hdata hplain hok
      refine ⟨status, s', hends, hcases, ?_, ?_, ?_, ?_⟩
      · rw [hdry, if_neg Bool.false_ne_true, hdone]
        constructor
        · intro hall
          exact ⟨fun hnil => hne (List.length_eq_zero_iff.1 hnil), by rw [hdata]; rfl, hok, hall⟩
        · intro hall
          exact hall.cut
      · intro hshown
        simp [hdry, hne] at hshown
      · intro hnot
        simp [hdata, hok] at hnot
      · intro _ _ _ data' hdata'
        obtain rfl : data = data' := Option.some.inj (hdata.symm.trans hdata')
        exact ⟨outputs, t, place, hleaves⟩

/-! ### The whole command -/

theorem eq_of_readDocument {path : String} {v : Value} (h : Ends (readDocument path) s v s') : s' = s := by
  obtain ⟨data, s₁, hread, h⟩ := ends_bind.1 h
  obtain rfl : s = s₁ := congrArg Prod.snd ((exec_readFile path s).symm.trans hread)
  obtain ⟨site, s₁, hsite, h⟩ := ends_bind.1 h
  obtain ⟨-, rfl⟩ := ends_site.1 hsite
  split at h
  · obtain ⟨_, _, hthrow, _⟩ := ends_bind.1 h
    exact (ends_throw hthrow).elim
  · obtain ⟨v', s₁, hlift, h⟩ := ends_bind.1 h
    obtain ⟨-, rfl⟩ := ends_lift.1 hlift
    split at h
    · exact (ends_pure.1 h).2.symm
    · exact (ends_throw h).elim

theorem load_ends {file : String} {output : Option String} (h : Ends (CutRequest.load file output) s r s') :
    s' = s ∧ ∃ data, CutRequest.ofValue s.site.directory file output data = .ok r := by
  obtain ⟨data, s₁, hread, h⟩ := ends_bind.1 h
  obtain ⟨site, s₂, hsite, h⟩ := ends_bind.1 h
  obtain ⟨rfl, rfl⟩ := ends_site.1 hsite
  obtain ⟨hof, rfl⟩ := ends_lift.1 h
  obtain rfl := eq_of_readDocument hread
  exact ⟨rfl, data, hof⟩

theorem cutFile_eq {file : String} (hfile : a.file = some file) : cutFile a = (do
    let r := a.amend (← CutRequest.load file a.outputDirectory)
    let cuts ← lift (cutsOf r)
    if cuts.isEmpty then
      showMarkup (.line "no matching segments, nothing to cut" problemStyle)
      return 1
    showMarkup (← lift (cutTable cuts))
    if a.dryRun then return 0
    cutAll a r cuts) := by
  rw [cutFile, hfile]
  rfl

section Loaded

variable {file : String} {loaded : CutRequest} (hfile : a.file = some file)
  (hload : Ends (CutRequest.load file a.outputDirectory) s loaded s)
  (hcuts : cutsOf (a.amend loaded) = .ok cuts)

include hfile hload hcuts

theorem cutFile_ends_nil (hplain : ReadsPlain s.site) (hnil : cuts = []) :
    ∃ s', Ends (cutFile a) s 1 s' ∧ s' = { s with front := s'.front } := by
  have hshown : ∃ front, Ends (showMarkup (.line "no matching segments, nothing to cut" problemStyle)) s ()
      { s with front } := ⟨_, showMarkup_line_ends hplain (by decide) _⟩
  obtain ⟨front, hshown⟩ := hshown
  refine ⟨{ s with front }, ?_, rfl⟩
  rw [cutFile_eq hfile]
  refine ends_bind.2 ⟨loaded, s, hload, ends_bind.2 ⟨cuts, s, ends_lift.2 ⟨hcuts, rfl⟩, ?_⟩⟩
  rw [if_pos (by simpa using hnil)]
  exact ends_bind.2 ⟨(), _, hshown, ends_pure.2 ⟨rfl, rfl⟩⟩

theorem cutFile_ends_shown {table : ConsoleEntry} {status : Nat} (hne : cuts ≠ [])
    (htable : cutTable cuts = .ok table)
    (hshown : Ends (showMarkup table) s () { s with front := s.front.print table })
    (hrest : Ends (if a.dryRun then pure 0 else cutAll a (a.amend loaded) cuts : Run)
      { s with front := s.front.print table } status s') : Ends (cutFile a) s status s' := by
  rw [cutFile_eq hfile]
  refine ends_bind.2 ⟨loaded, s, hload, ends_bind.2 ⟨cuts, s, ends_lift.2 ⟨hcuts, rfl⟩, ?_⟩⟩
  rw [if_neg (by simpa using hne)]
  exact ends_bind.2 ⟨table, s, ends_lift.2 ⟨htable, rfl⟩, ends_bind.2 ⟨(), _, hshown, hrest⟩⟩

/-- A command whose table has markup that the console cannot read ends in that fault, and does nothing. -/
theorem exec_cutFile_unread {table : ConsoleEntry} {e : Fault} (hne : cuts ≠ [])
    (htable : cutTable cuts = .ok table) (hread : table.texts.forM s.site.readMarkup = .error e) :
    (cutFile a).exec s = (.error e, s) := by
  rw [cutFile_eq hfile, exec_bind, show (CutRequest.load file a.outputDirectory).exec s = _ from hload]
  dsimp only
  rw [exec_bind, exec_lift, hcuts]
  dsimp only
  rw [if_neg (by simpa using hne), exec_bind, exec_lift, htable]
  dsimp only
  rw [exec_bind, exec_showMarkup, hread]

end Loaded

theorem Leaves.of_shown {front : Screen} {data : ByteArray} {t : FileTree} {place : List String}
    (h : Leaves a r stem cuts data { s with front } s' outputs t place) :
    Leaves a r stem cuts data s s' outputs t place := by
  obtain ⟨s₁, s₂, hchat, hcuts⟩ := h.played
  refine ⟨⟨s₁, s₂, ?_, hcuts⟩, h.areCut, h.stamped, ?_, h.located, h.received⟩
  · exact ⟨⟨⟨hchat.tree, hchat.site, hchat.runs, hchat.runCount, hchat.workspaceCount⟩, hchat.engine,
      hchat.versions⟩, hchat.pool⟩
  · exact ⟨h.isLeft.isSound, h.isLeft.isExtension, h.isLeft.entry?_cases⟩

theorem Reports.of_shown {front : Screen} {status : Nat}
    (h : Reports a r stem cuts { s with front } status s') : Reports a r stem cuts s status s' where
  status_cases := h.status_cases
  status_iff := by
    rw [h.status_iff]
    split
    · exact Iff.rfl
    · exact ⟨fun hdone => ⟨hdone.nonempty, hdone.fetched, hdone.loaded, hdone.cut⟩,
        fun hdone => ⟨hdone.nonempty, hdone.fetched, hdone.loaded, hdone.cut⟩⟩
  shown := h.shown
  kept hnot := by
    have hrest := h.kept hnot
    exact ⟨hrest.tree, hrest.site, hrest.runs, hrest.runCount, hrest.workspaceCount⟩
  left hdry hne hok data hdata := by
    obtain ⟨outputs, t, place, hleaves⟩ := h.left hdry hne hok data hdata
    exact ⟨outputs, t, place, hleaves.of_shown⟩

/-- Without clips there is nothing to do, and in a dry run nothing else is done than to show them. -/
theorem reports_of_shown {status : Nat} (hshown : a.dryRun = true ∨ cuts = [])
    (hstatus : status = if cuts = [] then 1 else 0) (hsame : s' = { s with front := s'.front }) :
    Reports a r stem cuts s status s' where
  status_cases := by
    rw [hstatus]
    split
    · exact .inr rfl
    · exact .inl rfl
  status_iff := by
    rcases hshown with hdry | rfl
    · rw [hdry, if_pos rfl, hstatus]
      simp
    · have hnone : ¬ IsDone r 0 s := fun hdone => hdone.nonempty rfl
      simp [hstatus, hnone]
  shown _ := hsame
  kept _ := by
    rw [hsame]
    exact ⟨rfl, rfl, rfl, rfl, rfl⟩
  left hdry hne := by
    rcases hshown with hdry' | hnil
    · rw [hdry] at hdry'
      cases hdry'
    · exact absurd hnil hne

/-- A request that was loaded is reported as it went: every clip that can be cut is written, the status is
zero just when all is done, and a dry run does nothing but show the clips. The console is given what it can
read: a plain text at least, and the transcripts of the clips. -/
theorem cutFile_reports {file : String} {loaded : CutRequest} {s₁ : Studio Screen}
    (hfile : a.file = some file) (hload : Ends (CutRequest.load file a.outputDirectory) s loaded s₁)
    (hplain : ReadsPlain s.site)
    (hmarkup : ∀ c ∈ loaded.rule.merge loaded.segments, ReadsTranscript s.site c)
    (horder : ∀ order ∈ loaded.order, order.Perm (positions (loaded.rule.merge loaded.segments).length))
    (hclocks : ∀ c ∈ loaded.rule.merge loaded.segments, c.HasClock)
    (hstamps : a.dryRun = false → (a.amend loaded).subtitles = true →
      ∀ c ∈ loaded.rule.merge loaded.segments, c.HasStamps loaded.transcript)
    (hready : a.dryRun = false →
      IsReady a (a.amend loaded) stem (loaded.rule.merge loaded.segments).length s) :
    ∃ cuts status s', cutsOf (a.amend loaded) = .ok cuts ∧ Ends (cutFile a) s status s' ∧
      Reports a (a.amend loaded) stem cuts s status s' := by
  obtain ⟨rfl, data, hof⟩ := load_ends hload
  obtain ⟨cuts, hcuts, hnumbered, hlength, hsame⟩ := exists_cutsOf (r := a.amend loaded) horder
  -- An order picks among the clips and numbers them; what holds of all of them holds of those it picks.
  have hpicked : ∀ P : Cut → Prop, (∀ d index, P d → P { d with index }) →
      (∀ d ∈ loaded.rule.merge loaded.segments, P d) → ∀ c ∈ cuts, P c := by
    intro P hnumber hall c hc
    obtain ⟨d, hd, heq⟩ := hsame c hc
    rw [heq]
    exact hnumber d c.index (hall d hd)
  have hclocks' : ∀ c ∈ cuts, c.HasClock := hpicked _ (fun _ _ hclock => hclock) hclocks
  have hmarkup' : ∀ c ∈ cuts, ReadsTranscript s₁.site c :=
    hpicked _ (fun _ _ hreads => hreads) hmarkup
  have hstamps' : a.dryRun = false → (a.amend loaded).subtitles = true →
      ∀ c ∈ cuts, c.HasStamps loaded.transcript :=
    fun hdry hsubtitles => hpicked _ (fun _ _ hstamp => hstamp) (hstamps hdry hsubtitles)
  have htexts : ∀ c ∈ cuts, ∀ segment ∈ c.segments, segment.HasText :=
    hpicked (fun c => ∀ segment ∈ c.segments, segment.HasText) (fun _ _ htext => htext)
      fun d hd segment hmem =>
        CutRequest.hasText_of_ofValue hof segment (MergeRule.mem_of_mem_merge hd hmem)
  obtain ⟨table, htable⟩ := Outcome.isOk_iff.1 (isOk_cutTable hclocks' htexts)
  by_cases hnil : cuts = []
  · obtain ⟨s', hends, hshown⟩ := cutFile_ends_nil hfile hload hcuts hplain hnil
    exact ⟨cuts, 1, s', hcuts, hends, reports_of_shown (.inr hnil) (if_pos hnil).symm hshown⟩
  have htabled := showMarkup_cutTable_ends hplain hmarkup' htable
  by_cases hdry : a.dryRun = true
  · have hends : Ends (cutFile a) s₁ 0 { s₁ with front := s₁.front.print table } := by
      refine cutFile_ends_shown hfile hload hcuts hnil htable htabled ?_
      rw [if_pos hdry]
      exact ends_pure.2 ⟨rfl, rfl⟩
    exact ⟨cuts, 0, _, hcuts, hends, reports_of_shown (.inl hdry) (if_neg hnil).symm rfl⟩
  · rw [Bool.not_eq_true] at hdry
    have hready' : IsReady a (a.amend loaded) stem cuts.length s₁ := by
      rw [hlength]
      exact hready hdry
    obtain ⟨status, s', hall, hreports⟩ := cutAll_reports (s := { s₁ with front := s₁.front.print table })
      hdry hready'.of_shown hnil hnumbered hclocks' (hstamps' hdry) hplain
    refine ⟨cuts, status, s', hcuts, ?_, hreports.of_shown⟩
    refine cutFile_ends_shown hfile hload hcuts hnil htable htabled ?_
    rw [hdry, if_neg Bool.false_ne_true]
    exact hall

/-! ### A lecture, whose second part may be endless -/

def lecturePassage (start finish : Binary64) (text : String) : Value :=
  .record [("start", start), ("end", finish), ("text", text)]

/-- A request for both parts of a lecture, joined and with subtitles. -/
def lecture (finish : Binary64) : Value :=
  .record [("clipgraph", .int 1), ("source", .record [("storage_path", "lecture.mp4")]),
    ("storage", .record [("root", "media")]),
    ("segments", .list [lecturePassage .zero (.ofInt 2) "Welcome",
      lecturePassage (.ofInt 10) finish "Thanks"]),
    ("indices", .list [.int 0, .int 1]), ("merge", true), ("output", .record [("subtitles", true)])]

def lectureTree : FileTree :=
  ⟨[(["proj"], .directory), (["proj", "lecture.yaml"], .file .empty), (["proj", "clips"], .directory),
    (["proj", "media"], .directory), (["proj", "media", "lecture.mp4"], .file "lecture".toUTF8),
    (["tmp"], .directory)]⟩

def lectureStudio (finish : Binary64) (runs : List EngineRun) : Studio Screen where
  site := { directory := "/proj", readDocument := fun _ => .ok (lecture finish) }
  tree := lectureTree
  runs
  front := {}

def lectureArguments : CutArguments := { file := some "lecture.yaml" }

/-- A request that takes its source from the media of the lecture, and gives it out as two clips. -/
structure IsLecture (r : CutRequest) : Prop where
  stem_eq : r.stem = .text "clip"
  isPath : Shelf.IsPath r.source.storagePath
  isAddress : Shelf.IsAddress r.source.url
  extension_eq : r.source.extension = "mp4"
  root_eq : r.storageRoot = some "/proj/media"
  directory_eq : r.outputDirectory = "/proj/clips"
  unordered : r.order = none
  length_eq : (r.rule.merge r.segments).length = 2

def checkLecture (r : CutRequest) : Bool :=
  match r.stem, r.source.storagePath, r.source.url with
  | .text stem, .text path, .null => stem = "clip" && !hasNul path && r.source.extension = "mp4" &&
    r.storageRoot = some "/proj/media" && r.outputDirectory = "/proj/clips" && r.order.isNone &&
    (r.rule.merge r.segments).length = 2
  | _, _, _ => false

theorem isLecture_of_check (h : checkLecture r = true) : IsLecture r := by
  unfold checkLecture at h
  split at h
  · rename_i stem path hstem hpath hurl
    simp only [Bool.and_eq_true, decide_eq_true_eq, Bool.not_eq_true', Option.isNone_iff_eq_none] at h
    obtain ⟨⟨⟨⟨⟨⟨rfl, hnul⟩, hextension⟩, hroot⟩, hdirectory⟩, horder⟩, hlength⟩ := h
    exact ⟨hstem, .inr ⟨path, hpath, hnul⟩, .inl (by rw [hurl]; rfl), hextension, hroot, hdirectory, horder,
      hlength⟩
  · cases h

theorem exists_load {file : String} {output : Option String} {p : CutRequest → Bool}
    (h : ((CutRequest.load file output).exec s).1.toOption.any p = true) :
    ∃ r, Ends (CutRequest.load file output) s r s ∧ p r = true := by
  obtain ⟨r, hr, hp⟩ := Outcome.exists_ok_of_any h
  rcases hexec : (CutRequest.load file output).exec s with ⟨outcome, s'⟩
  rw [hexec] at hr
  have hends : Ends (CutRequest.load file output) s r s' := hexec.trans (congrArg (·, s') hr)
  obtain rfl := (load_ends hends).1
  exact ⟨r, hends, hp⟩

theorem lectureTree_isSound : lectureTree.IsSound := by
  refine isSound_of_entries ?_
  simp only [lectureTree, List.forall_mem_cons]
  exact ⟨rfl, rfl, rfl, rfl, rfl, rfl, List.forall_mem_nil _⟩

theorem lectureTree_hasNullessLinks : lectureTree.HasNullessLinks := hasNullessLinks_of_all (by decide)

theorem lectureTree_opening {number : Nat} (hlow : 0 < number) (hhigh : number ≤ 3) :
    lectureTree.IsOpening "/proj" (join "/tmp" (Engine.workspaceName number))
      ["tmp", Engine.workspaceName number] := by
  have hcases : number = 1 ∨ number = 2 ∨ number = 3 := by omega
  rcases hcases with rfl | rfl | rfl
  all_goals exact ⟨rfl, by decide +kernel, by decide +kernel⟩

theorem forall_isAmong_two {P : OutputFile → Prop} (hclip : P (.clip 0) ∧ P (.clip 1))
    (hsubtitles : P (.subtitles 0) ∧ P (.subtitles 1)) (hjoined : P .joined) :
    ∀ f, OutputFile.IsAmong 2 f → P f := by
  intro f hf
  cases f with
  | joined => exact hjoined
  | clip place =>
    obtain rfl | rfl := Nat.le_one_iff_eq_zero_or_eq_one.1 (Nat.le_of_lt_succ hf)
    · exact hclip.1
    · exact hclip.2
  | subtitles place =>
    obtain rfl | rfl := Nat.le_one_iff_eq_zero_or_eq_one.1 (Nat.le_of_lt_succ hf)
    · exact hsubtitles.1
    · exact hsubtitles.2

section Lecture

variable {finish : Binary64} {runs : List EngineRun} (hr : IsLecture r)

include hr

theorem lectureStudio_canWrite : CanWrite lectureArguments r "clip" 2 (lectureStudio finish runs) := by
  refine ⟨?_, forall_isAmong_two ⟨?_, ?_⟩ ⟨?_, ?_⟩ ?_, fun t ht => ?_⟩
  · rw [hr.directory_eq]
    decide +kernel
  any_goals exact isFileName_of_chars rfl rfl (by decide) (by decide)
  have hentry (place : List String) : t.entry? place = lectureTree.entry? place := by
    refine (ht.entry?_cases place).resolve_right ?_
    rintro ⟨-, -, -, hkeep, -⟩
    cases hkeep
  have hext : lectureTree.Extends t := ht.isExtension
  have hlocate : lectureTree.locate "/proj" "/proj/clips" = .ok ⟨["proj", "clips"], some .directory⟩ := rfl
  have hlocate' : t.locate "/proj" "/proj/clips" = .ok ⟨["proj", "clips"], some .directory⟩ := by
    rw [hext.locate hlocate, hentry]
    rfl
  have hthere : t.isDirectory "/proj" "/proj/clips" = true := by
    rw [FileTree.isDirectory, entryAt?, hlocate']
  have hsame : t.ensured "/proj" "/proj/clips" = t := if_pos hthere
  have hopening : lectureTree.IsOpening "/proj" (join "/tmp" (Engine.workspaceName 3))
      ["tmp", Engine.workspaceName 3] := lectureTree_opening (by decide) le_rfl
  refine ⟨["proj", "clips"], ["tmp", Engine.workspaceName 3], ?_⟩
  constructor
  all_goals rw [hr.directory_eq]
  · exact .inl hthere
  · exact hsame.symm ▸ hlocate'
  · rw [show (lectureStudio finish runs).site.directory = "/proj" from rfl, hsame]
    refine forall_isAmong_two ⟨?_, ?_⟩ ⟨?_, ?_⟩ ?_
    all_goals exact .inl (hentry _)
  · rw [show (lectureStudio finish runs).site.directory = "/proj" from rfl, hsame]
    exact ⟨hext.spot hopening.spot_eq, (hentry _).trans hopening.free, hopening.room⟩

theorem lectureStudio_isReady (hruns : ∀ run ∈ runs, Engine.IsLegible run) :
    IsReady lectureArguments r "clip" 2 (lectureStudio finish runs) where
  stem_eq := hr.stem_eq
  few := Nat.le_of_lt (by decide +kernel)
  short := by
    rw [hr.extension_eq]
    decide
  root root hroot := by
    rw [hr.root_eq, Option.mem_some_iff] at hroot
    rw [← hroot]
    decide
  links := lectureTree_hasNullessLinks
  directory := show hasNul "/proj" = false by decide
  understood := ⟨fun _ => hr.isPath, fun _ => hr.isAddress, fun _ _ _ _ _ => nofun⟩
  isSound := lectureTree_isSound
  free := rfl
  legible := hruns
  hasRoom := ⟨nofun, fun number hlow hhigh => ⟨_, lectureTree_opening hlow (hhigh.trans (Nat.le_succ 2))⟩⟩
  canWrite := lectureStudio_canWrite hr

end Lecture

/-- A studio in which the engine cuts the first part of the lecture, and fails at the second one. -/
def halfStudio : Studio Screen := lectureStudio (.ofInt 12) [{}, { status := 1 }]

theorem halfStudio_reports : ∃ r cuts s', cutsOf r = .ok cuts ∧
    Ends (cutFile lectureArguments) halfStudio 1 s' ∧
    Reports lectureArguments r "clip" cuts halfStudio 1 s' ∧
    (List.range 2).map halfStudio.product? = [some "rendered 1".toUTF8, none] := by
  have hcheck : ((CutRequest.load "lecture.yaml" none).exec halfStudio).1.toOption.any (fun r =>
      checkLecture r && decide (∀ c ∈ r.rule.merge r.segments, c.HasClock) &&
        decide (∀ c ∈ r.rule.merge r.segments, c.HasStamps r.transcript)) = true := by
    decide +kernel
  obtain ⟨r, hload, hp⟩ := exists_load hcheck
  simp only [Bool.and_eq_true, decide_eq_true_eq] at hp
  obtain ⟨⟨hlecture, hclocks⟩, hstamps⟩ := hp
  have hr := isLecture_of_check hlecture
  have hruns : halfStudio.HasLegibleRuns :=
    List.forall_mem_cons.2 ⟨nofun, List.forall_mem_cons.2 ⟨nofun, List.forall_mem_nil _⟩⟩
  have horder : ∀ order ∈ r.order, order.Perm (positions (r.rule.merge r.segments).length) := by
    rw [hr.unordered]
    exact nofun
  have hready : IsReady lectureArguments r "clip" (r.rule.merge r.segments).length halfStudio := by
    rw [hr.length_eq]
    exact lectureStudio_isReady hr hruns
  obtain ⟨cuts, status, s', hcuts, hends, hreports⟩ :=
    cutFile_reports (a := lectureArguments) rfl hload (fun _ _ => rfl) (fun _ _ _ _ => rfl) horder hclocks
      (fun _ _ => hstamps) fun _ => hready
  have hlength : cuts.length = 2 := by
    unfold cutsOf at hcuts
    rw [show (lectureArguments.amend r).order = none from hr.unordered] at hcuts
    rw [← Except.ok.inj hcuts]
    exact hr.length_eq
  have hfailed : ¬ IsDone (lectureArguments.amend r) cuts.length halfStudio := by
    intro hdone
    have hsecond := hdone.cut.1 1 (by omega)
    cases hsecond
  obtain rfl : status = 1 :=
    hreports.status_cases.resolve_left fun hzero => hfailed (hreports.status_iff.1 hzero)
  exact ⟨_, cuts, s', hcuts, hends, hreports, by decide +kernel⟩

/-- The times of a request are finite. -/
structure HasFiniteTimes (r : CutRequest) : Prop where
  segments : ∀ s ∈ r.segments, s.start.isFinite = true ∧ s.finish.isFinite = true
  transcript : ∀ p ∈ r.transcript, p.start.isFinite = true ∧ p.finish.isFinite = true
  rule : r.rule.padding.isFinite = true ∧ r.rule.gap.isFinite = true

/-- A studio whose lecture ends at a time in seconds that has no time in milliseconds. -/
def endlessStudio : Studio Screen := lectureStudio (.ofInt (10 ^ 306)) []

theorem endlessStudio_not_reports : ¬ ∀ (a : CutArguments) (file stem : String) (r : CutRequest)
    (s : Studio Screen), a.file = some file → Ends (CutRequest.load file a.outputDirectory) s r s →
      (∀ text, s.site.readMarkup text = .ok ()) →
      (∀ order ∈ r.order, order.Perm (positions (r.rule.merge r.segments).length)) → HasFiniteTimes r →
      IsReady a (a.amend r) stem (r.rule.merge r.segments).length s →
      ∃ status s', Ends (cutFile a) s status s' := by
  intro hall
  have hcheck : ((CutRequest.load "lecture.yaml" none).exec endlessStudio).1.toOption.any (fun r =>
      checkLecture r && decide (∀ s ∈ r.segments, s.start.isFinite = true ∧ s.finish.isFinite = true) &&
        decide (∀ p ∈ r.transcript, p.start.isFinite = true ∧ p.finish.isFinite = true) &&
        decide (r.rule.padding.isFinite = true ∧ r.rule.gap.isFinite = true)) = true := by
    decide +kernel
  obtain ⟨r, hload, hp⟩ := exists_load hcheck
  simp only [Bool.and_eq_true, decide_eq_true_eq] at hp
  obtain ⟨⟨⟨hlecture, hsegments⟩, htranscript⟩, hrule⟩ := hp
  have hr := isLecture_of_check hlecture
  have horder : ∀ order ∈ r.order, order.Perm (positions (r.rule.merge r.segments).length) := by
    rw [hr.unordered]
    exact nofun
  have hready : IsReady lectureArguments r "clip" (r.rule.merge r.segments).length endlessStudio := by
    rw [hr.length_eq]
    exact lectureStudio_isReady hr (List.forall_mem_nil _)
  obtain ⟨status, s', hends⟩ := hall lectureArguments "lecture.yaml" "clip" r endlessStudio rfl hload
    (fun _ => rfl) horder
    ⟨hsegments, htranscript, hrule⟩ hready
  have hfault : ((cutFile lectureArguments).exec endlessStudio).1.isOk = false := by decide +kernel
  rw [show (cutFile lectureArguments).exec endlessStudio = (.ok status, s') from hends] at hfault
  cases hfault

end Command

end Montage
