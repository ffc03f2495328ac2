import Mathlib.Data.List.DropRight
import Montage.Cutting.Subtitle
import Montage.Proofs.Cutting.SubRip

/-!
# Subtitles that read back

The cues of a clip are written as numbered entries with their times in milliseconds (`subtitles_eq_ok`).
A reader finds these entries in the file, unless a text has an empty line within it: that ends a block,
and what comes after it is taken for another one (`readsBack_iff`). Passages that are in order make cues
that are, and so are their milliseconds (`Cut.isProper_of_mem_cues`, `IsWritten.isEntry`). A passage that
is handed on as a value makes the same cue (`Cut.cueOf_value`).
-/

namespace Montage

open Outcome Binary64

/-- A stripped text does not end with the end of a line. -/
theorem Text.endsInLine_strip {s : String} (h : (strip s).isEmpty = false) :
    SubRip.EndsInLine (strip s) := by
  have htext : (strip s).toList =
      ((s.toList.dropWhile isBlank).reverse.dropWhile isBlank).reverse := String.toList_ofList
  cases hkept : (s.toList.dropWhile isBlank).reverse.dropWhile isBlank with
  | nil =>
    rw [hkept] at htext
    rw [String.toList_eq_nil_iff.1 htext] at h
    cases h
  | cons last rest =>
    have hlast : isBlank last = false := by
      have hhead := List.head_dropWhile_not isBlank (l := (s.toList.dropWhile isBlank).reverse)
        (by simp [hkept])
      simpa [hkept] using hhead
    refine ⟨rest.reverse, last, by rw [htext, hkept, List.reverse_cons], ?_⟩
    rintro rfl
    cases hlast

theorem Text.trimBlank_trimBlank (cs : List Char) : trimBlank (trimBlank cs) = trimBlank cs := by
  have htrim (l : List Char) : trimBlank l = (l.dropWhile isBlank).rdropWhile isBlank := rfl
  have hleft : (trimBlank cs).dropWhile isBlank = trimBlank cs := by
    rw [List.dropWhile_eq_self_iff, htrim]
    intro hl
    rw [(List.rdropWhile_prefix isBlank (cs.dropWhile isBlank)).getElem hl]
    exact List.dropWhile_get_zero_not isBlank cs _
  rw [htrim (trimBlank cs), hleft, htrim, List.rdropWhile_idempotent]

theorem Text.strip_strip (s : String) : strip (strip s) = strip s := by
  rw [strip, strip, String.toList_ofList, trimBlank_trimBlank]

theorem Value.Number.isAtMost_float (x y : Binary64) :
    (Number.float x).isAtMost (.float y) = x.le y := by
  simp only [isAtMost, order, Binary64.le]
  split
  · simp [*]
  · split
    · simp [*]
    · split <;> simp [*]

namespace Cutting

open SubRip Timecode

/-! ### The cue of a passage -/

/-- A passage as it is handed on: with its times as numbers. -/
def Passage.value (p : Passage) : Value :=
  .record [("start", .float p.start), ("end", .float p.finish), ("text", .text p.text)]

/-- The value of a passage gives the cue of the passage. -/
theorem Cut.cueOf_value (c : Cut) (p : Passage) : c.cueOf p.value = .ok (c.cue? p) := by
  have hfinish : fieldOf p.value "end" = .ok (.float p.finish) := rfl
  have hstart : fieldOf p.value "start" = .ok (.float p.start) := rfl
  have htext : (p.value.getD "text" "").toText = .ok p.text := rfl
  have hnumbers : (Value.float p.finish).number? = some (.float p.finish) ∧
      (Value.float p.start).number? = some (.float p.start) := ⟨rfl, rfl⟩
  simp only [cueOf, hfinish, hstart, htext, hnumbers, bind, Except.bind, Value.Number.isAtMost_float,
    Value.Number.toBinary64, cue?, Text.strip_strip]
  cases hbefore : p.finish.le c.start
  · cases hafter : c.finish.le p.start
    · cases hempty : (Text.strip p.text).isEmpty <;> rfl
    · rfl
  · rfl

/-- A cue with its times in order and with a text that ends in a line. -/
structure Cue.IsProper (cue : Cue) : Prop where
  start : cue.start.isUnsigned = true
  finish : cue.finish.isUnsigned = true
  le : cue.start.le cue.finish = true
  endsInLine : EndsInLine cue.text

/-- Passages in order make cues in order. -/
theorem Cut.isProper_of_cue? {c : Cut} {p : Passage} {cue : Cue} (hstart : zero.le c.start = true)
    (hspan : c.start.lt c.finish = true) (hp : p.start.le p.finish = true)
    (h : c.cue? p = some cue) : cue.IsProper := by
  have hfinite := isFinite_of_lt hstart hspan
  obtain ⟨hpstart, hpfinish⟩ := isNaN_of_le hp
  obtain ⟨hcstart, hcfinish⟩ := isNaN_of_le (le_of_lt hspan)
  unfold Cut.cue? at h
  dsimp only at h
  split at h
  · cases h
  · rename_i hinside
    simp only [Bool.or_eq_true, not_or, Bool.not_eq_true] at hinside
    obtain ⟨⟨hbefore, hafter⟩, htext⟩ := hinside
    obtain rfl := Option.some.inj h
    rw [le_eq_not_lt hcstart hpfinish, Bool.not_eq_false'] at hbefore
    rw [le_eq_not_lt hpstart hcfinish, Bool.not_eq_false'] at hafter
    have hduration : zero.lt c.duration = true := zero_lt_sub hstart hspan
    have hrest : zero.lt (p.finish - c.start) = true := zero_lt_sub hstart hbefore
    refine ⟨isUnsigned_max_zero _, isUnsigned_min (isUnsigned_of_zero_lt hduration)
      (isUnsigned_of_zero_lt hrest), ?_, Text.endsInLine_strip htext⟩
    refine max_le (le_min (le_of_lt hduration) (le_of_lt hrest)) (le_min ?_ ?_)
    · exact sub_le_sub hfinite (le_of_lt hafter)
    · exact sub_le_sub hfinite hp

theorem Cut.isProper_of_mem_cues {c : Cut} {transcript : List Passage}
    (hstart : zero.le c.start = true) (hspan : c.start.lt c.finish = true)
    (hordered : ∀ p ∈ transcript, p.start.le p.finish = true) :
    ∀ cue ∈ c.cues transcript, cue.IsProper := by
  intro cue hcue
  obtain ⟨p, hp, hcue⟩ := List.mem_filterMap.1 hcue
  exact Cut.isProper_of_cue? hstart hspan (hordered p hp) hcue

/-! ### What is written -/

/-- The entry that is written for a numbered cue. -/
structure IsWritten (numbered : Cue × Nat) (e : Entry) : Prop where
  number_eq : e.number = numbered.2
  text_eq : e.text = numbered.1.text
  start : milliseconds numbered.1.start = .ok e.start
  finish : milliseconds numbered.1.finish = .ok e.finish

variable {cue : Cue} {cues : List Cue} {number : Nat} {s : String}

theorem subtitleText_eq_ok {x : Binary64} (hx : x.isUnsigned = true) :
    subtitleText x = .ok s ↔ ∃ n : Nat, milliseconds x = .ok n ∧ s = stamp n := by
  rw [subtitleText_eq, max_zero_of_isUnsigned hx]
  constructor
  · intro h
    cases hcount : milliseconds x with
    | error f =>
      rw [hcount] at h
      cases h
    | ok d =>
      rw [hcount] at h
      obtain ⟨n, hn, -⟩ := exists_milliseconds hx (isFinite_of_milliseconds hcount)
      obtain rfl := Except.ok.inj (hcount.symm.trans hn)
      exact ⟨n, rfl, (Except.ok.inj h).symm⟩
  · rintro ⟨n, hn, rfl⟩
    rw [hn]
    rfl

theorem block_eq_ok (h : cue.IsProper) :
    cue.block number = .ok s ↔ ∃ e, IsWritten (cue, number) e ∧ s = e.block := by
  simp only [Cue.block, bind_eq_ok, pure_eq_ok, subtitleText_eq_ok h.start,
    subtitleText_eq_ok h.finish]
  constructor
  · rintro ⟨_, ⟨m, hm, rfl⟩, _, ⟨n, hn, rfl⟩, rfl⟩
    exact ⟨⟨number, m, n, cue.text⟩, ⟨rfl, rfl, hm, hn⟩, rfl⟩
  · rintro ⟨⟨k, m, n, text⟩, ⟨hk, htext, hm, hn⟩, rfl⟩
    obtain ⟨rfl, rfl⟩ : k = number ∧ text = cue.text := ⟨hk, htext⟩
    exact ⟨_, ⟨m, hm, rfl⟩, _, ⟨n, hn, rfl⟩, rfl⟩

theorem blocks_eq_ok {k : Nat} {blocks : List String} (h : ∀ cue ∈ cues, cue.IsProper) :
    List.Forall₂ (fun numbered block => numbered.1.block numbered.2 = .ok block) (cues.zipIdx k)
        blocks ↔
      ∃ entries, List.Forall₂ IsWritten (cues.zipIdx k) entries ∧ blocks = entries.map Entry.block := by
  induction cues generalizing k blocks with
  | nil => simp
  | cons cue cues ih =>
    obtain ⟨hcue, hcues⟩ := List.forall_mem_cons.1 h
    simp only [List.zipIdx_cons, List.forall₂_cons_left_iff, block_eq_ok hcue, ih hcues]
    constructor
    · rintro ⟨_, _, ⟨e, he, rfl⟩, ⟨entries, hentries, rfl⟩, rfl⟩
      exact ⟨e :: entries, ⟨e, entries, he, hentries, rfl⟩, rfl⟩
    · rintro ⟨_, ⟨e, entries, he, hentries, rfl⟩, rfl⟩
      exact ⟨_, _, ⟨e, he, rfl⟩, ⟨entries, hentries, rfl⟩, rfl⟩

/-- The file of some cues is that of their entries. -/
theorem subtitles_eq_ok (h : ∀ cue ∈ cues, cue.IsProper) :
    subtitles cues = .ok s ↔
      ∃ entries, List.Forall₂ IsWritten (cues.zipIdx 1) entries ∧ s = file entries := by
  simp only [subtitles, bind_eq_ok, pure_eq_ok, mapM_eq_ok, blocks_eq_ok h]
  constructor
  · rintro ⟨_, ⟨entries, hentries, rfl⟩, rfl⟩
    exact ⟨entries, hentries, rfl⟩
  · rintro ⟨entries, hentries, rfl⟩
    exact ⟨_, ⟨entries, hentries, rfl⟩, rfl⟩

/-! ### What is read -/

/-- A numbered cue as it is read: with its times in milliseconds, which are in order. -/
structure IsEntry (numbered : Cue × Nat) (e : Entry) : Prop where
  number_eq : e.number = numbered.2
  text_eq : e.text = numbered.1.text
  start : IsMilliseconds numbered.1.start e.start
  finish : IsMilliseconds numbered.1.finish e.finish
  le : e.start ≤ e.finish

/-- Whether a cue ends at a finite number of milliseconds and has no empty line in its text. -/
def Cue.isLegible (cue : Cue) : Bool :=
  (cue.finish * .ofInt 1000).isFinite && isUnbroken cue.text

theorem exists_isWritten (h : cue.IsProper) (hfinite : (cue.finish * .ofInt 1000).isFinite = true)
    (number : Nat) : ∃ e, IsWritten (cue, number) e := by
  obtain ⟨m, n, hm, hn, -⟩ := milliseconds_mono h.start h.finish h.le hfinite
  exact ⟨⟨number, m, n, cue.text⟩, rfl, rfl, hm, hn⟩

theorem IsWritten.isEntry {numbered : Cue × Nat} {e : Entry} (h : IsWritten numbered e)
    (hproper : numbered.1.IsProper) : IsEntry numbered e := by
  have hfinish := isFinite_of_milliseconds h.finish
  obtain ⟨m, n, hm, hn, hmn⟩ := milliseconds_mono hproper.start hproper.finish hproper.le hfinish
  obtain ⟨m', hm', hstart⟩ := exists_milliseconds hproper.start (isFinite_of_milliseconds h.start)
  obtain ⟨n', hn', hfinish⟩ := exists_milliseconds hproper.finish hfinish
  have hmeq : e.start = m ∧ e.start = m' := by
    have h₁ := Except.ok.inj (h.start.symm.trans hm)
    have h₂ := Except.ok.inj (h.start.symm.trans hm')
    omega
  have hneq : e.finish = n ∧ e.finish = n' := by
    have h₁ := Except.ok.inj (h.finish.symm.trans hn)
    have h₂ := Except.ok.inj (h.finish.symm.trans hn')
    omega
  exact ⟨h.number_eq, h.text_eq, hmeq.2 ▸ hstart, hneq.2 ▸ hfinish, by omega⟩

/-- The file of some cues is read as one entry for each of them, in order and numbered from one. -/
def ReadsBack (cues : List Cue) : Prop :=
  ∃ srt entries, subtitles cues = .ok srt ∧ read? srt = some entries ∧
    List.Forall₂ IsEntry (cues.zipIdx 1) entries

theorem exists_written {k : Nat} (h : ∀ cue ∈ cues, cue.IsProper)
    (hlegible : ∀ cue ∈ cues, cue.isLegible = true) :
    ∃ entries, List.Forall₂ IsWritten (cues.zipIdx k) entries ∧
      List.Forall₂ IsEntry (cues.zipIdx k) entries ∧ ∀ e ∈ entries, isUnbroken e.text = true := by
  induction cues generalizing k with
  | nil => exact ⟨[], .nil, .nil, nofun⟩
  | cons cue cues ih =>
    obtain ⟨hcue, hcues⟩ := List.forall_mem_cons.1 h
    obtain ⟨hfirst, hrest⟩ := List.forall_mem_cons.1 hlegible
    obtain ⟨hfinite, hunbroken⟩ := Bool.and_eq_true_iff.1 hfirst
    obtain ⟨e, he⟩ := exists_isWritten hcue hfinite k
    obtain ⟨entries, hwritten, hentries, hall⟩ := ih (k := k + 1) hcues hrest
    exact ⟨e :: entries, .cons he hwritten, .cons (he.isEntry hcue) hentries,
      List.forall_mem_cons.2 ⟨he.text_eq ▸ hunbroken, hall⟩⟩

/-- What is known of cues from the entries that are written for them. -/
theorem isLegible_of_written {k : Nat} {entries : List Entry} (h : ∀ cue ∈ cues, cue.IsProper)
    (hwritten : List.Forall₂ IsWritten (cues.zipIdx k) entries) :
    (∀ e ∈ entries, EndsInLine e.text) ∧
      ((∀ e ∈ entries, isUnbroken e.text = true) → ∀ cue ∈ cues, cue.isLegible = true) := by
  induction cues generalizing k entries with
  | nil =>
    cases hwritten
    exact ⟨nofun, fun _ cue hcue => absurd hcue List.not_mem_nil⟩
  | cons cue cues ih =>
    obtain ⟨hcue, hcues⟩ := List.forall_mem_cons.1 h
    rw [List.zipIdx_cons, List.forall₂_cons_left_iff] at hwritten
    obtain ⟨e, entries, he, hrest, rfl⟩ := hwritten
    obtain ⟨hends, hlegible⟩ := ih hcues hrest
    refine ⟨List.forall_mem_cons.2 ⟨he.text_eq ▸ hcue.endsInLine, hends⟩, fun hunbroken => ?_⟩
    obtain ⟨hfirst, hunbroken⟩ := List.forall_mem_cons.1 hunbroken
    refine List.forall_mem_cons.2 ⟨Bool.and_eq_true_iff.2 ⟨?_, ?_⟩, hlegible hunbroken⟩
    · exact isFinite_of_milliseconds he.finish
    · rw [← he.text_eq]
      exact hfirst

/-- Proper cues are read back just when all of them are legible. -/
theorem readsBack_iff (h : ∀ cue ∈ cues, cue.IsProper) :
    ReadsBack cues ↔ ∀ cue ∈ cues, cue.isLegible = true := by
  constructor
  · rintro ⟨srt, entries, hsrt, hread, hentries⟩
    obtain ⟨written, hwritten, rfl⟩ := (subtitles_eq_ok h).1 hsrt
    obtain ⟨hends, hlegible⟩ := isLegible_of_written h hwritten
    have hlength : entries.length = written.length :=
      hentries.length_eq.symm.trans hwritten.length_eq
    exact hlegible (isUnbroken_of_read?_file hread hlength hends)
  · intro hlegible
    obtain ⟨written, hwritten, hentries, hunbroken⟩ := exists_written h hlegible
    exact ⟨file written, written, (subtitles_eq_ok h).2 ⟨written, hwritten, rfl⟩,
      read?_file hunbroken, hentries⟩

/-- The subtitles of a clip read back just when every cue is legible. -/
theorem Cut.cues_readBack {c : Cut} {transcript : List Passage} (hstart : zero.le c.start = true)
    (hspan : c.start.lt c.finish = true)
    (hordered : ∀ p ∈ transcript, p.start.le p.finish = true) :
    ReadsBack (c.cues transcript) ↔ ∀ cue ∈ c.cues transcript, cue.isLegible = true :=
  readsBack_iff (Cut.isProper_of_mem_cues hstart hspan hordered)

/-! ### Two transcripts -/

def talkTranscript : List Passage := [
  ⟨0, 2, "Hello and\nwelcome"⟩, ⟨3, .ofRatio 11 2, "00:00:01,000 --> 00:00:02,000"⟩, ⟨20, 22, "Thanks"⟩]

theorem talkTranscript_readsBack :
    ReadsBack ((⟨.ofRatio 3 2, 7, [], 0⟩ : Cut).cues talkTranscript) := by
  refine (Cut.cues_readBack ?_ ?_ ?_).2 ?_
  · decide +kernel
  · decide +kernel
  · decide +kernel
  · decide +kernel

/-- A transcript with an empty line in a text, as it is loaded. -/
def verseValue : Value := .list [.record [("start", .int 0), ("end", .int 1), ("text", "one\n\ntwo")]]

theorem verse_not_readsBack : ∃ transcript, transcriptOf verseValue = .ok transcript ∧
    (∀ p ∈ transcript, p.start.le p.finish = true) ∧
    ¬ ReadsBack ((⟨0, 10, [], 0⟩ : Cut).cues transcript) := by
  obtain ⟨transcript, htranscript, hcheck⟩ : ∃ transcript, transcriptOf verseValue = .ok transcript ∧
      ((transcript.all fun p => p.start.le p.finish) &&
        !((⟨0, 10, [], 0⟩ : Cut).cues transcript).all (·.isLegible)) = true :=
    exists_ok_of_any (by decide +kernel)
  rw [Bool.and_eq_true_iff, List.all_eq_true, Bool.not_eq_true', List.all_eq_false] at hcheck
  obtain ⟨hordered, cue, hcue, hlegible⟩ := hcheck
  have hproper := Cut.isProper_of_mem_cues (c := ⟨0, 10, [], 0⟩) (by decide +kernel)
    (by decide +kernel) hordered
  exact ⟨transcript, htranscript, hordered,
    fun hreads => hlegible ((readsBack_iff hproper).1 hreads cue hcue)⟩

end Cutting

end Montage
