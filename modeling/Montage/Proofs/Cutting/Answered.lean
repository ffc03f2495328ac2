import Montage.Cutting.Response
import Montage.Proofs.Json.Reading

/-!
# Answers with fences around them

The array of an answer may stand between two lines of backquotes. Whatever it holds, it is read as if
these lines were not there (`ofResponse_wrapped`), since no fence reaches over a bracket. But fences are
dropped inside of the array too, so that the records are those of the array as long as nowhere in it
three backquotes follow one another.
-/

namespace Montage.Cutting

variable {answer document text cs rest : List Char}

def fence : List Char := ['\x60', '\x60', '\x60']

/-- A document as it is, or between two lines with backquotes. -/
inductive IsWrapped (document : List Char) : List Char → Prop where
  | plain : IsWrapped document document
  | fenced (tag : String) (blanks : List Char) (htag : tag = "" ∨ tag = "json")
      (hblanks : ∀ c ∈ blanks, Text.isBlank c = true) :
      IsWrapped document
        (fence ++ tag.toList ++ '\n' :: document ++ '\n' :: fence ++ blanks)

/-! ### Fences -/

theorem dropFences_fence (cs : List Char) :
    dropFences (fence ++ cs) = dropFences (dropFenceTail cs) := by
  rw [fence, List.cons_append, List.cons_append, List.cons_append, List.nil_append, dropFences]

theorem dropFences_cons {c : Char} (h : ¬ fence <+: c :: cs) :
    dropFences (c :: cs) = c :: dropFences cs := by
  rw [dropFences]
  rintro rest hc hcs
  exact h ⟨rest, by rw [hc, hcs]; rfl⟩

theorem dropFences_eq (h : ¬ fence <:+: cs) : dropFences cs = cs := by
  induction cs with
  | nil => rw [dropFences]
  | cons c cs ih =>
    rw [dropFences_cons fun hfront => h hfront.isInfix,
      ih fun hinside => h (hinside.trans (List.suffix_cons c cs).isInfix)]

/-- A word does not reach over a character that it has not. -/
theorem prefix_append_cons {word : List Char} {c : Char} (hc : c ∉ word) :
    word <+: cs ++ c :: rest ↔ word <+: cs := by
  constructor
  · intro h
    by_cases hlength : word.length ≤ cs.length
    · exact List.prefix_of_prefix_length_le h (List.prefix_append cs _) hlength
    · have hfront : cs ++ [c] <+: cs ++ c :: rest := ⟨rest, by simp⟩
      have hinside : cs ++ [c] <+: word := by
        apply List.prefix_of_prefix_length_le hfront h
        rw [List.length_append, List.length_singleton]
        omega
      exact absurd (hinside.subset (by simp)) hc
  · exact fun h => h.trans (List.prefix_append cs _)

theorem dropWhile_append_cons {p : Char → Bool} {c : Char} (hc : p c = false) :
    (cs ++ c :: rest).dropWhile p = cs.dropWhile p ++ c :: rest := by
  rw [List.dropWhile_append, List.dropWhile_cons_of_neg (by simp [hc])]
  split
  · rename_i hempty
    rw [List.isEmpty_iff.1 hempty, List.nil_append]
  · rfl

/-- No fence reaches over a bracket. -/
theorem dropFenceTail_append {c : Char} (hc : c = '[' ∨ c = ']') :
    dropFenceTail (cs ++ c :: rest) = dropFenceTail cs ++ c :: rest := by
  have hword : c ∉ "json".toList := by
    obtain rfl | rfl := hc <;> decide
  have hblank : Text.isBlank c = false := by
    obtain rfl | rfl := hc <;> decide
  unfold dropFenceTail
  by_cases hfront : "json".toList <+: cs
  · have hlength : 4 ≤ cs.length := hfront.length_le
    rw [if_pos (List.isPrefixOf_iff_prefix.2 ((prefix_append_cons hword).2 hfront)),
      if_pos (List.isPrefixOf_iff_prefix.2 hfront), List.drop_append_of_le_length hlength]
    exact dropWhile_append_cons hblank
  · rw [if_neg fun h => hfront ((prefix_append_cons hword).1 (List.isPrefixOf_iff_prefix.1 h)),
      if_neg fun h => hfront (List.isPrefixOf_iff_prefix.1 h)]
    exact dropWhile_append_cons hblank

theorem dropFences_append {c : Char} (hc : c = '[' ∨ c = ']') (cs rest : List Char) :
    dropFences (cs ++ c :: rest) = dropFences cs ++ c :: dropFences rest := by
  have hfence : c ∉ fence := by
    obtain rfl | rfl := hc <;> decide
  fun_induction dropFences cs with
  | case1 cs ih =>
    calc dropFences (fence ++ cs ++ c :: rest)
        = dropFences (dropFenceTail (cs ++ c :: rest)) := by
          rw [List.append_assoc, dropFences_fence]
      _ = dropFences (dropFenceTail cs) ++ c :: dropFences rest := by
          rw [dropFenceTail_append hc, ih]
  | case2 d cs hother ih =>
    have hfront : ¬ fence <+: d :: (cs ++ c :: rest) := by
      intro h
      obtain ⟨tail, htail⟩ := (@prefix_append_cons (d :: cs) rest fence c hfence).1 h
      obtain ⟨hd, hcs⟩ := List.cons.inj htail
      exact hother tail hd.symm hcs.symm
    rw [List.cons_append, dropFences_cons hfront, ih, List.cons_append]
  | case3 =>
    refine dropFences_cons fun h => ?_
    obtain ⟨tail, htail⟩ := (@prefix_append_cons [] rest fence c hfence).1 h
    cases htail

/-- A fence takes the blanks behind it with it. -/
theorem dropFenceTail_blanks {tag : String} {blanks : List Char} (htag : tag = "" ∨ tag = "json")
    (hblanks : ∀ c ∈ blanks, Text.isBlank c = true) : dropFenceTail (tag.toList ++ blanks) = [] := by
  obtain rfl | rfl := htag
  · have hfront : ¬ "json".toList.isPrefixOf blanks = true := by
      intro h
      have hletter := hblanks 'j' ((List.isPrefixOf_iff_prefix.1 h).subset List.mem_cons_self)
      exact absurd hletter (by decide)
    calc dropFenceTail blanks = blanks.dropWhile Text.isBlank :=
          congrArg (List.dropWhile Text.isBlank) (if_neg hfront)
      _ = [] := List.dropWhile_eq_nil_iff.2 hblanks
  · exact List.dropWhile_eq_nil_iff.2 hblanks

/-- What has no backquote in it stays, whatever follows. -/
theorem dropFences_front {front : List Char} (h : '\x60' ∉ front) (rest : List Char) :
    dropFences (front ++ rest) = front ++ dropFences rest := by
  induction front with
  | nil => rfl
  | cons c front ih =>
    obtain ⟨hc, hfront⟩ := not_or.1 fun hor => h (List.mem_cons.2 hor)
    have hfence : ¬ fence <+: c :: (front ++ rest) := by
      rintro ⟨tail, htail⟩
      exact hc (List.cons.inj htail).1
    rw [List.cons_append, dropFences_cons hfence, ih hfront, List.cons_append]

theorem not_mem_blanks {blanks : List Char} (h : ∀ c ∈ blanks, Text.isBlank c = true) :
    '\x60' ∉ blanks :=
  fun hc => absurd (h _ hc) (by decide)

/-! ### Answers -/

theorem isBlank_of_isSpace {c : Char} (h : Json.isSpace c = true) : Text.isBlank c = true := by
  simp only [Json.isSpace, Bool.or_eq_true, decide_eq_true_eq] at h
  obtain ((rfl | rfl) | rfl) | rfl := h
  all_goals rfl

theorem trimBlank_brackets {before after : List Char} (hbefore : ∀ c ∈ before, Text.isBlank c = true)
    (hafter : ∀ c ∈ after, Text.isBlank c = true) :
    Text.trimBlank (before ++ '[' :: (text ++ ']' :: after)) = '[' :: (text ++ [']']) := by
  have hreverse : ('[' :: (text ++ ']' :: after)).reverse =
      after.reverse ++ ']' :: (text.reverse ++ ['[']) := by simp
  rw [Text.trimBlank, Text.trim, List.dropWhile_append_of_pos hbefore,
    List.dropWhile_cons_of_neg (by decide), Text.dropWhileRight, hreverse,
    List.dropWhile_append_of_pos (by simpa using hafter), List.dropWhile_cons_of_neg (by decide)]
  simp

/-- Whatever stands around the array, no more than the array is read. -/
theorem trimBlank_dropFences {before after : List Char} (hbefore : ∀ c ∈ before, Json.isSpace c = true)
    (hafter : ∀ c ∈ after, Json.isSpace c = true)
    (h : IsWrapped (before ++ '[' :: (text ++ ']' :: after)) answer) :
    Text.trimBlank (dropFences answer) = '[' :: (dropFences text ++ [']']) := by
  have hbefore' (c : Char) (hc : c ∈ before) := isBlank_of_isSpace (hbefore c hc)
  have hafter' (c : Char) (hc : c ∈ after) := isBlank_of_isSpace (hafter c hc)
  have hkept := dropFences_front (not_mem_blanks hafter')
  obtain _ | ⟨tag, blanks, htag, hblanks⟩ := h
  · rw [dropFences_front (not_mem_blanks hbefore'), dropFences_cons (by simp [fence]),
      dropFences_append (.inr rfl)]
    have hend : dropFences after = after := by
      have hend := hkept []
      rwa [dropFences, List.append_nil] at hend
    rw [hend]
    exact trimBlank_brackets hbefore' hafter'
  · have hfront : dropFenceTail (tag.toList ++ '\n' :: before) = [] :=
      dropFenceTail_blanks htag (List.forall_mem_cons.2 ⟨rfl, hbefore'⟩)
    have hend : dropFences (after ++ '\n' :: (fence ++ blanks)) = after ++ ['\n'] := by
      have htail : dropFenceTail blanks = [] := dropFenceTail_blanks (.inl rfl) hblanks
      rw [hkept, dropFences_cons (by simp [fence]), dropFences_fence, htail,
        dropFences]
    calc Text.trimBlank (dropFences (fence ++ tag.toList ++
          '\n' :: (before ++ '[' :: (text ++ ']' :: after)) ++ '\n' :: fence ++ blanks))
        = Text.trimBlank (dropFences (fence ++ (tag.toList ++ '\n' :: before ++
            '[' :: (text ++ ']' :: (after ++ '\n' :: (fence ++ blanks)))))) := by simp
      _ = Text.trimBlank ('[' :: (dropFences text ++ ']' :: (after ++ ['\n']))) := by
          rw [dropFences_fence, dropFenceTail_append (.inl rfl), hfront, List.nil_append,
            dropFences_cons (by simp [fence]), dropFences_append (.inr rfl), hend]
      _ = '[' :: (dropFences text ++ [']']) := by
          apply @trimBlank_brackets _ [] _ (List.forall_mem_nil _)
          simpa [or_imp, forall_and] using ⟨hafter', rfl⟩

/-- An array is read as if there were no lines of backquotes around it. -/
theorem ofResponse_wrapped {records : List Value}
    (h : Json.readDocument document = .ok (.list records)) (hanswer : IsWrapped document answer) :
    Segment.ofResponse (.ofList answer) = Segment.ofResponse (.ofList document) := by
  obtain ⟨before, text, after, rfl, hbefore, hafter, -⟩ := Json.exists_brackets h
  unfold Segment.ofResponse
  rw [String.toList_ofList, String.toList_ofList, trimBlank_dropFences hbefore hafter hanswer,
    trimBlank_dropFences hbefore hafter .plain]

theorem ofResponse_eq {records : List Value} (h : Json.readDocument document = .ok (.list records))
    (hplain : ¬ fence <:+: document) (hanswer : IsWrapped document answer) :
    Segment.ofResponse (.ofList answer) = Segment.ofRecords (.list records) := by
  obtain ⟨before, text, after, rfl, hbefore, hafter, hread⟩ := Json.exists_brackets h
  have htext : dropFences text = text :=
    dropFences_eq fun hinside => hplain (hinside.trans ⟨before ++ ['['], ']' :: after, by simp⟩)
  unfold Segment.ofResponse
  rw [String.toList_ofList, trimBlank_dropFences hbefore hafter hanswer, htext,
    if_neg (by simp), Segment.ofDocument, hread]

/-! ### Records -/

/-- What a record says: when, what, and why. -/
structure Report where
  start : Binary64
  finish : Binary64
  text : String
  relevance : String

/-- A record whose times are numbers, and whose text and reason are texts or are not there. -/
structure IsRecordOf (e : Report) (record : Value) : Prop where
  isMapping : record.isMapping = true
  index : ∀ position : Nat, ((record.getD "index" (.int position)).toInt).isOk = true
  start : (record.get "start").toBinary64 = .ok e.start
  finish : (record.get "end").toBinary64 = .ok e.finish
  text : record.getD "text" "" = .text e.text
  relevance : record.getD "relevance" "" = .text e.relevance

structure Segment.Says (s : Segment) (e : Report) : Prop where
  start : s.start = e.start
  finish : s.finish = e.finish
  text : s.text = .text e.text
  relevance : s.relevance = .text e.relevance

theorem not_isNull_of_toBinary64 {v : Value} {x : Binary64} (h : v.toBinary64 = .ok x) :
    v.isNull = false := by
  cases v with
  | null => cases h
  | _ => rfl

theorem exists_ofRecord {e : Report} {record : Value} (h : IsRecordOf e record) (position : Nat) :
    ∃ s, Segment.ofRecord position record = .ok s ∧ s.Says e := by
  obtain ⟨index, hindex⟩ := Outcome.isOk_iff.1 (h.index position)
  have htext (t : String) : (Value.text t).toText = .ok t := rfl
  refine ⟨⟨.int index, e.start, e.finish, .text e.text, .text e.relevance⟩, ?_, ⟨rfl, rfl, rfl, rfl⟩⟩
  unfold Segment.ofRecord
  simp only [h.isMapping, not_isNull_of_toBinary64 h.start, not_isNull_of_toBinary64 h.finish,
    hindex, h.start, h.finish, h.text, h.relevance, htext, Bool.not_true, Bool.or_self,
    Bool.false_eq_true, if_false]
  split
  · rfl
  · rename_i hempty
    have hnone : e.relevance = "" := by simpa [Value.truthy] using hempty
    rw [hnone]
    rfl

theorem exists_ofRecords {entries : List Report} {records : List Value}
    (h : List.Forall₂ IsRecordOf entries records) :
    ∃ segments, Segment.ofRecords (.list records) = .ok segments ∧
      List.Forall₂ Segment.Says segments entries := by
  have hnumbered (start : Nat) : ∃ segments,
      (records.zipIdx start).mapM (fun record => Segment.ofRecord record.2 record.1) =
        .ok segments ∧ List.Forall₂ Segment.Says segments entries := by
    induction h generalizing start with
    | nil => exact ⟨[], rfl, .nil⟩
    | @cons e record entries records hrecord _ ih =>
      obtain ⟨s, hs, hsays⟩ := exists_ofRecord hrecord start
      obtain ⟨segments, hsegments, hrest⟩ := ih (start + 1)
      refine ⟨s :: segments, ?_, .cons hsays hrest⟩
      rw [List.zipIdx_cons, List.mapM_cons]
      exact Outcome.bind_eq_ok.2 ⟨s, hs, Outcome.bind_eq_ok.2 ⟨segments, hsegments, rfl⟩⟩
  exact hnumbered 0

/-- Fences are tolerated, and an array without three backquotes in a row in it is read as it is. -/
theorem Segment.ofResponse_of_isWrapped {records : List Value}
    (h : Json.readDocument document = .ok (.list records)) (hanswer : IsWrapped document answer) :
    Segment.ofResponse (.ofList answer) = Segment.ofResponse (.ofList document) ∧
    (¬ fence <:+: document →
      Segment.ofResponse (.ofList answer) = Segment.ofRecords (.list records) ∧
      ∀ entries, List.Forall₂ IsRecordOf entries records → ∃ segments,
        Segment.ofResponse (.ofList answer) = .ok segments ∧
          List.Forall₂ Segment.Says segments entries) := by
  refine ⟨ofResponse_wrapped h hanswer, fun hplain => ?_⟩
  have heq := ofResponse_eq h hplain hanswer
  refine ⟨heq, fun entries hentries => ?_⟩
  rw [heq]
  exact exists_ofRecords hentries

/-! ### Two documents -/

/-- Whether a value is one record that says so much. -/
def Report.isOnly (e : Report) : Value → Bool
  | .list [record] =>
    record.isMapping && (record.get? "index").isNone &&
      (record.get "start").toBinary64.toOption == some e.start &&
      (record.get "end").toBinary64.toOption == some e.finish &&
      (record.getD "text" "").asText.toOption == some e.text &&
      (record.getD "relevance" "").asText.toOption == some e.relevance
  | _ => false

theorem eq_ok_of_toOption {ε α : Type} [BEq α] [LawfulBEq α] {x : Except ε α} {a : α}
    (h : (x.toOption == some a) = true) : x = .ok a := by
  cases x with
  | error e => cases h
  | ok b => rw [Option.some.inj (eq_of_beq h)]

theorem eq_text_of_asText {v : Value} {t : String} (h : v.asText = .ok t) : v = .text t := by
  cases v with
  | text s =>
    cases h
    rfl
  | _ => cases h

theorem exists_record {e : Report} (h : (Json.readDocument document).toOption.any e.isOnly = true) :
    ∃ records, Json.readDocument document = .ok (.list records) ∧ List.Forall₂ IsRecordOf [e] records := by
  obtain ⟨v, hread, honly⟩ := Outcome.exists_ok_of_any h
  unfold Report.isOnly at honly
  split at honly
  · rename_i record
    simp only [Bool.and_eq_true, Option.isNone_iff_eq_none] at honly
    obtain ⟨⟨⟨⟨⟨hmapping, hindex⟩, hstart⟩, hfinish⟩, htext⟩, hrelevance⟩ := honly
    refine ⟨[record], hread, .cons ⟨hmapping, fun position => ?_, eq_ok_of_toOption hstart,
      eq_ok_of_toOption hfinish, eq_text_of_asText (eq_ok_of_toOption htext),
      eq_text_of_asText (eq_ok_of_toOption hrelevance)⟩ .nil⟩
    rw [Value.getD, hindex]
    rfl
  · cases honly

/-- A record found for the word `fenced`. -/
def plainDocument : List Char := "[\x7b\"start\": 0, \"end\": 1, \"text\": \"fenced\"\x7d]".toList

def plainAnswer : List Char := "\x60\x60\x60json\n".toList ++ plainDocument ++ "\n\x60\x60\x60\n".toList

theorem plainAnswer_says : ∃ records segments, Json.readDocument plainDocument = .ok (.list records) ∧
    IsWrapped plainDocument plainAnswer ∧ ¬ fence <:+: plainDocument ∧
    Segment.ofResponse (.ofList plainAnswer) = .ok segments ∧
    List.Forall₂ Segment.Says segments [⟨0, 1, "fenced", ""⟩] := by
  have hwrapped : IsWrapped plainDocument plainAnswer :=
    .fenced "json" ['\n'] (.inr rfl) (List.forall_mem_singleton.2 (by decide))
  obtain ⟨records, hread, hrecords⟩ : ∃ records, Json.readDocument plainDocument = .ok (.list records) ∧
      List.Forall₂ IsRecordOf [⟨0, 1, "fenced", ""⟩] records := exists_record (by decide +kernel)
  have hplain : ¬ fence <:+: plainDocument := by decide +kernel
  obtain ⟨segments, hsegments, hsays⟩ :=
    ((Segment.ofResponse_of_isWrapped hread hwrapped).2 hplain).2 _ hrecords
  exact ⟨records, segments, hread, hwrapped, hplain, hsegments, hsays⟩

/-- A record with three backquotes in its text. -/
def quotingDocument : List Char := "[\x7b\"start\":0,\"end\":1,\"text\":\"a\x60\x60\x60b\"\x7d]".toList

theorem quotingDocument_lost : ∃ records segments,
    Json.readDocument quotingDocument = .ok (.list records) ∧
    List.Forall₂ IsRecordOf [⟨0, 1, "a\x60\x60\x60b", ""⟩] records ∧
    Segment.ofResponse (.ofList quotingDocument) = .ok segments ∧
    segments.map (·.text) = [.text "ab"] ∧
    Segment.ofResponse (.ofList quotingDocument) ≠ Segment.ofRecords (.list records) := by
  obtain ⟨records, hread, hrecords⟩ : ∃ records,
      Json.readDocument quotingDocument = .ok (.list records) ∧
      List.Forall₂ IsRecordOf [⟨0, 1, "a\x60\x60\x60b", ""⟩] records := exists_record (by decide +kernel)
  obtain ⟨segments, hsegments, htexts⟩ : ∃ segments,
      Segment.ofResponse (.ofList quotingDocument) = .ok segments ∧
      (segments.map (·.text.asText.toOption) == [some "ab"]) = true :=
    Outcome.exists_ok_of_any (by decide +kernel)
  obtain ⟨kept, hkept, hsays⟩ := exists_ofRecords hrecords
  obtain ⟨s, rfl, hs⟩ := List.map_eq_singleton_iff.1 (eq_of_beq htexts)
  have htext : s.text = .text "ab" := eq_text_of_asText (eq_ok_of_toOption (beq_iff_eq.2 hs))
  refine ⟨records, [s], hread, hrecords, hsegments, by rw [List.map_singleton, htext], ?_⟩
  intro hsame
  rw [hsegments, hkept] at hsame
  rw [← Except.ok.inj hsame] at hsays
  have hfirst := (List.forall₂_cons.1 hsays).1.text
  rw [htext] at hfirst
  exact absurd (Value.text.inj hfirst) (by decide)

end Montage.Cutting
