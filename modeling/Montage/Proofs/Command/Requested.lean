import Montage.Command.Cut
import Montage.Proofs.Cutting.Edited
import Montage.Proofs.Cutting.Extracted
import Montage.Proofs.Cutting.Subtitled

/-!
# Clips of a request

The clips of a request that was loaded can all be shown in a table, and have all their subtitles written,
as far as their times can be told and the console can read their transcripts (`isOk_cutTable`,
`showMarkup_cutTable_ends`, `isOk_subtitles`): their texts are texts, and an order that names each position
once is accepted (`exists_cutsOf`).
-/

namespace Montage

open Outcome

namespace Cutting

/-! ### Segments with texts -/

def Segment.HasText (s : Segment) : Prop := ∃ t, s.text = .text t

namespace Segment

variable {v record : Value} {s : Segment} {segments : List Segment} {position : Nat}

theorem hasText_of_ofRecord (h : ofRecord position record = .ok s) : s.HasText := by
  unfold ofRecord at h
  split at h
  · cases h
  dsimp only at h
  split at h
  · cases h
  obtain ⟨index, -, h⟩ := bind_eq_ok.1 h
  obtain ⟨start, -, h⟩ := bind_eq_ok.1 h
  obtain ⟨finish, -, h⟩ := bind_eq_ok.1 h
  obtain ⟨text, -, h⟩ := bind_eq_ok.1 h
  split at h
  all_goals
    obtain ⟨relevance, -, h⟩ := bind_eq_ok.1 h
    rw [← pure_eq_ok.1 h]
    exact ⟨text, rfl⟩

theorem hasText_of_mapM {α : Type} {f : α → Except Fault Segment} {as : List α}
    (hf : ∀ a s, f a = .ok s → s.HasText) (h : as.mapM f = .ok segments) : ∀ s ∈ segments, s.HasText := by
  intro s hs
  obtain ⟨a, -, ha⟩ := exists_left_of_forall₂ (mapM_eq_ok.1 h) hs
  exact hf a s ha

theorem hasText_of_ofRecords (h : ofRecords v = .ok segments) : ∀ s ∈ segments, s.HasText := by
  unfold ofRecords at h
  split at h
  · exact hasText_of_mapM (fun _ _ => hasText_of_ofRecord) h
  · cases h

theorem hasText_of_ofResponse {answer : String} (h : ofResponse answer = .ok segments) :
    ∀ s ∈ segments, s.HasText := by
  unfold ofResponse at h
  dsimp only at h
  split at h
  · rw [← pure_eq_ok.1 h]
    exact List.forall_mem_nil _
  · unfold ofDocument at h
    split at h
    · exact hasText_of_ofRecords h
    all_goals cases h

theorem hasText_of_ofPassage {transcript : List Passage} {index : Int}
    (h : ofPassage transcript index = .ok s) : s.HasText := by
  have hrefuse (x : Except Fault String) (f : String → Fault) : ¬ (x >>= fun t => throw (f t)) = .ok s := by
    intro hok
    obtain ⟨_, -, hthrow⟩ := bind_eq_ok.1 hok
    cases hthrow
  unfold ofPassage at h
  dsimp only at h
  split at h
  · exact absurd h (hrefuse _ _)
  · split at h
    · exact absurd h (hrefuse _ _)
    · rw [← pure_eq_ok.1 h]
      exact ⟨_, rfl⟩

theorem hasText_of_relevantSegments {data : Value} {transcript : List Passage}
    (h : relevantSegments data transcript = .ok segments) : ∀ s ∈ segments, s.HasText := by
  unfold relevantSegments at h
  split at h
  · cases h
  · obtain ⟨_, -, h⟩ := bind_eq_ok.1 h
    obtain ⟨indices, -, h⟩ := bind_eq_ok.1 h
    exact hasText_of_mapM (fun _ _ => hasText_of_ofPassage) h
  · obtain ⟨answer, -, h⟩ := bind_eq_ok.1 h
    exact hasText_of_ofResponse h
  · exact hasText_of_ofRecords h

end Segment

theorem CutRequest.hasText_of_ofValue {directory file : String} {outputDirectory : Option String}
    {data : Value} {r : CutRequest} (h : ofValue directory file outputDirectory data = .ok r) :
    ∀ s ∈ r.segments, s.HasText := by
  unfold ofValue at h
  obtain ⟨-, -, h⟩ := bind_eq_ok.1 h
  obtain ⟨source, -, h⟩ := bind_eq_ok.1 h
  obtain ⟨transcript, -, h⟩ := bind_eq_ok.1 h
  obtain ⟨segments, hsegments, h⟩ := bind_eq_ok.1 h
  obtain ⟨padding, -, h⟩ := bind_eq_ok.1 h
  obtain ⟨gap, -, h⟩ := bind_eq_ok.1 h
  obtain ⟨order, -, h⟩ := bind_eq_ok.1 h
  dsimp only at h
  split at h
  · cases h
  obtain ⟨outputDirectory', -, h⟩ := bind_eq_ok.1 h
  obtain ⟨storage, -, h⟩ := bind_eq_ok.1 h
  rw [← pure_eq_ok.1 h]
  exact Segment.hasText_of_relevantSegments hsegments

/-! ### Their clips -/

namespace MergeRule

variable {rule : MergeRule} {current c : Cut} {segments : List Segment} {s : Segment}

theorem mem_of_mem_mergeFrom (hc : c ∈ rule.mergeFrom current segments) (hs : s ∈ c.segments) :
    s ∈ current.segments ∨ s ∈ segments := by
  induction segments generalizing current with
  | nil =>
    rw [mergeFrom, List.mem_singleton] at hc
    exact .inl (hc ▸ hs)
  | cons first rest ih =>
    unfold mergeFrom at hc
    split at hc
    · rcases ih hc with hmem | hmem
      · rcases List.mem_append.1 hmem with hcurrent | hfirst
        · exact .inl hcurrent
        · exact .inr (List.mem_singleton.1 hfirst ▸ .head rest)
      · exact .inr (.tail _ hmem)
    · rcases List.mem_cons.1 hc with rfl | hc
      · exact .inl hs
      · rcases ih hc with hmem | hmem
        · exact .inr (List.mem_singleton.1 hmem ▸ .head rest)
        · exact .inr (.tail _ hmem)

/-- The segments of a clip are among those that were merged. -/
theorem mem_of_mem_merge (hc : c ∈ rule.merge segments) (hs : s ∈ c.segments) : s ∈ segments := by
  refine (Sorting.sortBy_perm (fun s t => pure (s.startsBefore t)) segments).mem_iff.1 ?_
  change s ∈ sortByStart segments
  unfold merge at hc
  split at hc
  · cases hc
  · rename_i first rest hsort
    obtain ⟨d, hd, i, rfl⟩ := exists_of_mem_renumber hc
    rw [hsort]
    rcases mem_of_mem_mergeFrom hd hs with hmem | hmem
    · exact List.mem_singleton.1 hmem ▸ .head rest
    · exact .tail _ hmem

end MergeRule

theorem Cut.isOk_transcript {c : Cut} (h : ∀ s ∈ c.segments, s.HasText) : c.transcript.isOk = true := by
  rw [transcript, isOk_bind_of_forall fun _ => rfl, isOk_mapM]
  intro s hs
  obtain ⟨t, ht⟩ := h s hs
  rw [ht]
  rfl

/-- Whether the times of all subtitles of a clip can be told. -/
def Cut.HasStamps (c : Cut) (transcript : List Passage) : Prop :=
  ∀ cue ∈ c.cues transcript, (Binary64.max .zero cue.start * .ofInt 1000).isFinite = true ∧
    (Binary64.max .zero cue.finish * .ofInt 1000).isFinite = true

instance (c : Cut) (transcript : List Passage) : Decidable (c.HasStamps transcript) :=
  inferInstanceAs (Decidable (∀ cue ∈ c.cues transcript, _ ∧ _))

theorem Cue.isOk_block (number : Nat) (cue : Cue) : (cue.block number).isOk = true ↔
    (Binary64.max .zero cue.start * .ofInt 1000).isFinite = true ∧
      (Binary64.max .zero cue.finish * .ofInt 1000).isFinite = true := by
  rw [← Timecode.isOk_subtitleText, ← Timecode.isOk_subtitleText, block, isOk_bind,
    isOk_iff (x := Timecode.subtitleText cue.start)]
  constructor
  · rintro ⟨start, hstart, hrest⟩
    exact ⟨⟨start, hstart⟩, (isOk_bind_of_forall fun _ => rfl).1 hrest⟩
  · rintro ⟨⟨start, hstart⟩, hfinish⟩
    exact ⟨start, hstart, (isOk_bind_of_forall fun _ => rfl).2 hfinish⟩

theorem isOk_subtitles {c : Cut} {transcript : List Passage} :
    (subtitles (c.cues transcript)).isOk = true ↔ c.HasStamps transcript := by
  rw [subtitles, isOk_bind_of_forall fun _ => rfl, isOk_mapM, Cut.HasStamps]
  constructor
  · intro h cue hcue
    rw [← List.zipIdx_map_fst 1 (c.cues transcript)] at hcue
    obtain ⟨numbered, hnumbered, rfl⟩ := List.mem_map.1 hcue
    exact (Cue.isOk_block numbered.2 numbered.1).1 (h numbered hnumbered)
  · intro h numbered hnumbered
    exact (Cue.isOk_block _ _).2 (h _ (List.fst_mem_of_mem_zipIdx hnumbered))

end Cutting

namespace Command

open Cutting

variable {r : CutRequest} {cuts : List Cut}

/-- An order that is not there, or that names each position once, is accepted. -/
theorem exists_cutsOf (horder : ∀ order ∈ r.order, order.Perm (positions (r.rule.merge r.segments).length)) :
    ∃ cuts, cutsOf r = .ok cuts ∧ IsNumbered cuts ∧ cuts.length = (r.rule.merge r.segments).length ∧
      ∀ c ∈ cuts, ∃ d ∈ r.rule.merge r.segments, c = { d with index := c.index } := by
  unfold cutsOf
  cases hr : r.order with
  | none => exact ⟨_, rfl, isNumbered_merge r.rule r.segments, rfl, fun c hc => ⟨c, hc, rfl⟩⟩
  | some order =>
    have hperm := horder order hr
    have hok : reorder (r.rule.merge r.segments) order = .ok _ :=
      reorder_eq_ok_iff.2 ⟨isArrangement_iff.2 hperm, rfl⟩
    have hlength := (reorder_eq_ok hok).2.length_eq
    rw [hperm.length_eq, positions, List.length_map, List.length_range'] at hlength
    refine ⟨_, hok, isNumbered_renumber _, hlength.symm, fun c hc => ?_⟩
    obtain ⟨position, -, d, hd, hsame⟩ := exists_left_of_forall₂ (reorder_eq_ok hok).2 hc
    exact ⟨d, mem_of_atPosition? hd, hsame⟩

theorem isOk_cutTable (hclocks : ∀ c ∈ cuts, c.HasClock) (htexts : ∀ c ∈ cuts, ∀ s ∈ c.segments, s.HasText) :
    (cutTable cuts).isOk = true := by
  rw [cutTable, isOk_bind_of_forall fun _ => rfl, isOk_mapM]
  intro c hc
  obtain ⟨hstart, hfinish⟩ := hclocks c hc
  obtain ⟨start, hstart⟩ := isOk_iff.1 ((Timecode.isOk_clockText _).2 hstart)
  obtain ⟨finish, hfinish⟩ := isOk_iff.1 ((Timecode.isOk_clockText _).2 hfinish)
  obtain ⟨transcript, htranscript⟩ := isOk_iff.1 (Cut.isOk_transcript (htexts c hc))
  rw [cutRow, hstart, hfinish, htranscript]
  rfl

/-! ### Texts that the console can read -/

/-- No markup begins in a text. -/
def IsPlain (text : String) : Prop := '[' ∉ text.toList

instance (text : String) : Decidable (IsPlain text) := inferInstanceAs (Decidable ('[' ∉ text.toList))

/-- A console that takes a text without an opening bracket as it is, as `rich` documents its markup. -/
def ReadsPlain (site : Site) : Prop := ∀ text, IsPlain text → site.readMarkup text = .ok ()

/-- The console can read the transcript of a clip, as the table shows it. -/
def ReadsTranscript (site : Site) (c : Cut) : Prop :=
  ∀ transcript, c.transcript = .ok transcript → site.readMarkup (shortened transcript) = .ok ()

namespace IsPlain

theorem append {s t : String} (hs : IsPlain s) (ht : IsPlain t) : IsPlain (s ++ t) := by
  rw [IsPlain, String.toList_append]
  exact List.not_mem_append hs ht

theorem ofList {cs : List Char} (h : '[' ∉ cs) : IsPlain (.ofList cs) := by
  rwa [IsPlain, String.toList_ofList]

theorem natural (n : Nat) : IsPlain (toString n) := by
  rw [Nat.toString_eq_ofList_toDigits]
  exact ofList fun hmem => nomatch Graph.Label.isDigit_of_mem_toDigits hmem

theorem integer (n : Int) : IsPlain (toString n) := by
  cases n with
  | ofNat n => exact natural n
  | negSucc n => exact append (s := "-") (by decide) (natural (n + 1))

theorem padded (width n : Nat) : '[' ∉ Text.decimalPadded width n :=
  Timecode.not_mem_of_isDigits rfl (Timecode.isDigit_decimalPadded width n)

theorem clockText {x : Binary64} {text : String} (h : Timecode.clockText x = .ok text) : IsPlain text := by
  obtain ⟨total, -, h⟩ := bind_eq_ok.1 h
  have hcolon : IsPlain ":" := by decide
  have hpair (n : Nat) : IsPlain (Timecode.twoDigits n) := ofList (padded 2 n)
  dsimp only at h
  split at h
  · obtain rfl := Except.ok.inj h
    exact ((((natural _).append hcolon).append (hpair _)).append hcolon).append (hpair _)
  · obtain rfl := Except.ok.inj h
    exact ((natural _).append hcolon).append (hpair _)

theorem fixed (places : Nat) (x : Binary64) : IsPlain (x.fixed places) := by
  have hsign (negative : Bool) : '[' ∉ Binary64.signText negative := by cases negative <;> decide
  unfold Binary64.fixed
  refine ofList ?_
  split
  · decide
  · exact List.not_mem_append (hsign _) (by decide)
  · rename_i s units _
    have hdigits := padded (places + 1) (Rounding.halfEven (units * Nat.pow 10 places) Binary64.one)
    refine List.not_mem_append (List.not_mem_append (hsign s) ?_) ?_
    · exact fun hmem => hdigits (List.mem_of_mem_take hmem)
    · split
      · exact List.not_mem_nil
      · rw [List.mem_cons, not_or]
        exact ⟨by decide, fun hmem => hdigits (List.mem_of_mem_drop hmem)⟩

end IsPlain

section Shown

variable {s : Studio Screen} {entry : ConsoleEntry}

theorem exec_showMarkup (entry : ConsoleEntry) (s : Studio Screen) :
    (showMarkup entry).exec s = match entry.texts.forM s.site.readMarkup with
      | .ok () => (.ok (), { s with front := s.front.print entry })
      | .error e => (.error e, s) := by
  rw [showMarkup, Session.exec_bind, show Session.site.exec s = (.ok s.site, s) from rfl]
  dsimp only
  rw [Session.exec_bind, Session.exec_lift]
  cases entry.texts.forM s.site.readMarkup <;> rfl

theorem showMarkup_ends (h : ∀ text ∈ entry.texts, s.site.readMarkup text = .ok ()) :
    Session.Ends (showMarkup entry) s () { s with front := s.front.print entry } := by
  have hread : entry.texts.forM s.site.readMarkup = .ok () := by
    generalize entry.texts = texts at h
    induction texts with
    | nil => rfl
    | cons text rest ih =>
      obtain ⟨hfirst, hrest⟩ := List.forall_mem_cons.1 h
      change (s.site.readMarkup text >>= fun _ => rest.forM s.site.readMarkup) = .ok ()
      rw [hfirst]
      exact ih hrest
  rw [Session.Ends, exec_showMarkup, hread]

variable (hplain : ReadsPlain s.site)

include hplain

theorem showMarkup_line_ends {text : String} (h : IsPlain text) (style : Option String) :
    Session.Ends (showMarkup (.line text style)) s () { s with front := s.front.print (.line text style) } :=
  showMarkup_ends (List.forall_mem_singleton.2 (hplain text h))

theorem readMarkup_of_mem_cutRow {c : Cut} {row : List String} (hc : ReadsTranscript s.site c)
    (h : cutRow c = .ok row) : ∀ text ∈ row, s.site.readMarkup text = .ok () := by
  obtain ⟨start, hstart, h⟩ := bind_eq_ok.1 h
  obtain ⟨finish, hfinish, h⟩ := bind_eq_ok.1 h
  obtain ⟨transcript, htranscript, h⟩ := bind_eq_ok.1 h
  obtain rfl := Except.ok.inj h
  simp only [List.forall_mem_cons]
  refine ⟨hplain _ (.integer _), hplain _ (.clockText hstart), hplain _ (.clockText hfinish),
    hplain _ (.append (.fixed 1 _) (by decide)), hplain _ (.natural _), hc transcript htranscript,
    List.forall_mem_nil _⟩

theorem showMarkup_cutTable_ends (hcuts : ∀ c ∈ cuts, ReadsTranscript s.site c)
    (h : cutTable cuts = .ok entry) :
    Session.Ends (showMarkup entry) s () { s with front := s.front.print entry } := by
  obtain ⟨rows, hrows, h⟩ := bind_eq_ok.1 h
  obtain rfl := Except.ok.inj h
  refine showMarkup_ends fun text htext => ?_
  have hcell : ∀ row ∈ rows, ∀ text ∈ row, s.site.readMarkup text = .ok () := by
    intro row hrow
    obtain ⟨c, hc, hrow⟩ := exists_left_of_forall₂ (mapM_eq_ok.1 hrows) hrow
    exact readMarkup_of_mem_cutRow hplain (hcuts c hc) hrow
  rcases List.mem_append.1 htext with hcolumn | htitle
  · obtain ⟨⟨name, i⟩, hname, htext⟩ := List.mem_flatMap.1 hcolumn
    rcases List.mem_cons.1 htext with rfl | hmem
    · refine hplain _ ?_
      have hnames : ∀ name ∈ ["#", "start", "end", "length", "segments", "transcript"], IsPlain name := by
        decide
      exact hnames _ (List.fst_mem_of_mem_zipIdx hname)
    · obtain ⟨row, hrow, hget⟩ := List.mem_filterMap.1 hmem
      exact hcell row hrow text (List.mem_of_getElem? hget)
  · obtain rfl := List.mem_singleton.1 htitle
    exact hplain _ (.append (.natural _) (by decide))

end Shown

end Command

end Montage
