import Montage.Proofs.Cutting.Scripted

/-!
# Clips joined in order

Clips are joined through a list of files that the engine reads line by line (`listedFiles?`). Of the outputs
that are given, only those of clips that were cut count: the list names a file for each of them, in their
order (`Extractor.concatenate_inOrder`).
-/

namespace Montage.Cutting

open Montage.Graph Session

/-- The file that a line of a list names; a name stands in quotes, and has none in it. -/
def listedFile? : List Char → Option String
  | 'f' :: 'i' :: 'l' :: 'e' :: ' ' :: '\'' :: rest =>
    if rest.dropWhile (· ≠ '\'') = ['\''] then some (.ofList (rest.takeWhile (· ≠ '\''))) else none
  | _ => none

/-- The files that a list names, one in a line. -/
def listedFiles? (data : ByteArray) : Option (List String) := do
  let text ← String.fromUTF8? data
  (Text.splitOn '\n' text.toList).mapM listedFile?

/-- A name that can stand in quotes in a line of its own. -/
def IsListable (name : String) : Prop := '\'' ∉ name.toList ∧ '\n' ∉ name.toList

/-- A program that joins the clips of some outputs from files with given names. -/
structure IsJoin (p : Program Binary64) (payloads : Payloads) (names : List String)
    (outputs : List CutOutput) : Prop where
  bare : p.statements = []
  words : p.arguments =
    .ok ["-f", "concat", "-safe", "0", "-i", concatListName, "-c", "copy", concatOutputName]
  listed : ∃ list, p.sideFiles = [⟨concatListName, list⟩] ∧ listedFiles? list = some names
  nodup : names.Nodup
  plain : ∀ name ∈ names, IsPlainName name ∧ name ≠ concatListName ∧ name ≠ concatOutputName
  inOrder : List.Forall₂
    (fun name o => ∃ data, o.data = some data ∧ payloads.lookup name = some data) names outputs
  payloadNames : p.payloadNames = names
  supplied : payloads.map Prod.fst = names
  complete : Renderer.missing p payloads = []

/-! ### The list -/

theorem listedFile?_line {name : String} (h : '\'' ∉ name.toList) :
    listedFile? ("file '" ++ name ++ "'").toList = some name := by
  have hline : ("file '" ++ name ++ "'").toList =
      'f' :: 'i' :: 'l' :: 'e' :: ' ' :: '\'' :: (name.toList ++ ['\'']) := by
    rw [String.toList_append, String.toList_append]
    rfl
  have hquoteless : ∀ c ∈ name.toList, (c ≠ '\'' : Bool) = true := by
    intro c hc
    refine decide_eq_true ?_
    rintro rfl
    exact h hc
  have hdrop : (name.toList ++ ['\'']).dropWhile (· ≠ '\'') = ['\''] := by
    rw [List.dropWhile_append_of_pos hquoteless]
    rfl
  have htake : (name.toList ++ ['\'']).takeWhile (· ≠ '\'') = name.toList := by
    rw [List.takeWhile_append_of_pos hquoteless]
    exact List.append_nil _
  rw [hline, listedFile?, if_pos hdrop, htake, String.ofList_toList]

theorem fromUTF8?_toUTF8 (s : String) : String.fromUTF8? s.toUTF8 = some s := by
  rw [String.fromUTF8?, String.toUTF8_eq_toByteArray, dif_pos s.isValidUTF8]
  rfl

/-- Names are read back from the list that is written for them. -/
theorem listedFiles?_lines {names : List String} (hne : names ≠ [])
    (h : ∀ name ∈ names, IsListable name) :
    listedFiles? ("\n".intercalate (names.map fun name => "file '" ++ name ++ "'")).toUTF8 =
      some names := by
  have hlines : ∀ line ∈ (names.map fun name => "file '" ++ name ++ "'").map String.toList,
      '\n' ∉ line := by
    intro line hline hbreak
    simp only [List.map_map, List.mem_map, Function.comp_def] at hline
    obtain ⟨name, hname, rfl⟩ := hline
    rw [String.toList_append, String.toList_append, List.mem_append, List.mem_append] at hbreak
    rcases hbreak with (hfront | hinside) | hback
    · revert hfront
      decide
    · exact (h name hname).2 hinside
    · revert hback
      decide
  have hbreak : "\n".toList = ['\n'] := rfl
  rw [listedFiles?, fromUTF8?_toUTF8, Option.bind_eq_bind, Option.bind_some, String.toList_intercalate,
    Text.splitOn_eq, hbreak, List.splitOn_intercalate '\n' hlines (by simpa using hne), List.map_map]
  refine Outcome.mapM_eq_some.2 (List.forall₂_map_left_iff.2 (List.forall₂_same.2 fun name hname => ?_))
  exact listedFile?_line (h name hname).1

/-! ### Names and data -/

namespace Extractor

theorem mergeName_injective : Function.Injective mergeName := by
  intro i j h
  have hpoint : '.'.isDigit = false := rfl
  have hlist := congrArg String.toList h
  rw [toList_mergeName, toList_mergeName] at hlist
  have hdigits := congrArg (List.takeWhile Char.isDigit) (List.append_cancel_left hlist)
  have htail : ".mp4".toList = '.' :: ['m', 'p', '4'] := rfl
  rw [htail, (Label.span_toDigits i hpoint _).1, (Label.span_toDigits j hpoint _).1] at hdigits
  rw [← Label.readNumber_toDigits i, hdigits, Label.readNumber_toDigits]

theorem not_mem_mergeName {c : Char} (hc : c ∉ "merge_clip_".toList ++ ".mp4".toList)
    (hdigit : c.isDigit = false) (index : Nat) : c ∉ (mergeName index).toList := by
  rw [toList_mergeName, List.mem_append, List.mem_append]
  rw [List.mem_append] at hc
  rintro (hfront | hnumber | hback)
  · exact hc (.inl hfront)
  · rw [Label.isDigit_of_mem_toDigits hnumber] at hdigit
    cases hdigit
  · exact hc (.inr hback)

theorem isListable_mergeName (index : Nat) : IsListable (mergeName index) :=
  ⟨not_mem_mergeName (by decide) rfl index, not_mem_mergeName (by decide) rfl index⟩

theorem initials_mergeName (index : Nat) : initials (mergeName index) = ['m', 'e'] := by
  rw [initials, toList_mergeName]
  rfl

theorem mergeName_plain (index : Nat) : IsPlainName (mergeName index) ∧
    mergeName index ≠ concatListName ∧ mergeName index ≠ concatOutputName := by
  -- All three begin alike; what follows the first letters tells them apart.
  have hne {name : String} (h : name.toList.take 11 ≠ "merge_clip_".toList) : mergeName index ≠ name := by
    rintro rfl
    rw [toList_mergeName] at h
    exact h (List.take_left' rfl)
  refine ⟨isPlainName_of_initials (not_mem_mergeName (by decide) rfl index) ?_, hne (by decide),
    hne (by decide)⟩
  rw [initials_mergeName]
  rfl

/-- The payloads for joining some clips, numbered from `start` on. -/
def mergePayloads (start : Nat) (datas : List ByteArray) : Payloads :=
  (datas.zipIdx start).map fun numbered => (mergeName numbered.2, numbered.1)

def mergeNames (start count : Nat) : List String := (List.range' start count).map mergeName

theorem map_fst_mergePayloads (start : Nat) (datas : List ByteArray) :
    (mergePayloads start datas).map Prod.fst = mergeNames start datas.length := by
  rw [mergePayloads, mergeNames, ← List.zipIdx_map_snd start datas, List.map_map, List.map_map]
  rfl

theorem nodup_mergeNames (start count : Nat) : (mergeNames start count).Nodup :=
  (List.nodup_range').map mergeName_injective

theorem lookup_mergePayloads {start index : Nat} {datas : List ByteArray} :
    (mergePayloads start datas).lookup (mergeName (start + index)) = datas[index]? := by
  induction datas generalizing start index with
  | nil => rfl
  | cons data datas ih =>
    have hcons : mergePayloads start (data :: datas) =
        (mergeName start, data) :: mergePayloads (start + 1) datas := rfl
    cases index with
    | zero => simp [hcons]
    | succ index =>
      have hne : (mergeName (start + (index + 1)) == mergeName start) = false :=
        beq_false_of_ne fun h => absurd (mergeName_injective h) (by omega)
      have hindex : start + (index + 1) = start + 1 + index := by omega
      rw [hcons, List.lookup_cons, hne, List.getElem?_cons_succ, hindex]
      exact ih

theorem forall₂_mergeNames {payloads : Payloads} {start : Nat} {outputs : List CutOutput}
    {datas : List ByteArray} (houtputs : List.Forall₂ (fun o data => o.data = some data) outputs datas)
    (hlookup : ∀ index, payloads.lookup (mergeName (start + index)) = datas[index]?) :
    List.Forall₂ (fun name o => ∃ data, o.data = some data ∧ payloads.lookup name = some data)
      (mergeNames start datas.length) outputs := by
  induction houtputs generalizing start with
  | nil => exact .nil
  | cons hdata _ ih =>
    refine .cons ⟨_, hdata, hlookup 0⟩ (ih fun index => ?_)
    rw [Nat.add_right_comm]
    exact hlookup (index + 1)

/-! ### Outputs -/

theorem exists_data_of_ok {o : CutOutput} (h : o.ok = true) : ∃ data, o.data = some data :=
  Option.isSome_iff_exists.1 (Bool.and_eq_true_iff.1 h).1

theorem forall₂_usable (outputs : List CutOutput) :
    List.Forall₂ (fun o data => o.data = some data) (outputs.filter (·.ok)) (usable outputs) := by
  unfold usable
  induction outputs with
  | nil => exact .nil
  | cons o outputs ih =>
    by_cases hok : o.ok = true
    · obtain ⟨data, hdata⟩ := exists_data_of_ok hok
      rw [List.filter_cons_of_pos hok, List.filterMap_cons_some hdata]
      exact .cons hdata ih
    · rwa [List.filter_cons_of_neg hok]

theorem isJoin_mergePayloads {outputs : List CutOutput} (hsome : usable outputs ≠ []) :
    ∃ p, concat (mergeNames 0 (usable outputs).length) = .ok p ∧
      IsJoin p (mergePayloads 0 (usable outputs)) (mergeNames 0 (usable outputs).length)
        (outputs.filter (·.ok)) := by
  have hne : mergeNames 0 (usable outputs).length ≠ [] := by
    simpa [mergeNames] using hsome
  have hmerged : ∀ name ∈ mergeNames 0 (usable outputs).length, ∃ index, mergeName index = name :=
    fun name hname => (List.mem_map.1 hname).imp fun _ => And.right
  have hkeys := map_fst_mergePayloads 0 (usable outputs)
  have hlookup := fun index => @lookup_mergePayloads 0 index (usable outputs)
  refine ⟨_, if_neg (by simpa using hne), rfl, rfl, ⟨_, rfl, ?_⟩, nodup_mergeNames _ _, ?_, ?_, rfl, hkeys,
    Renderer.missing_eq_nil hkeys⟩
  · refine listedFiles?_lines hne fun name hname => ?_
    obtain ⟨index, rfl⟩ := hmerged name hname
    exact isListable_mergeName index
  · intro name hname
    obtain ⟨index, rfl⟩ := hmerged name hname
    exact mergeName_plain index
  · exact forall₂_mergeNames (forall₂_usable outputs) hlookup

variable {σ : Type} {e : Extractor σ} {outputs : List CutOutput}

/-- Several clips are handed to the engine. -/
theorem concatenate_many {datas : List ByteArray} {p : Program Binary64} (hdatas : usable outputs = datas)
    (hmany : 2 ≤ datas.length) (hp : concat (mergeNames 0 datas.length) = .ok p) (s : Studio σ) :
    (e.concatenate outputs).exec s = Session.exec (do
      say s!"merging {datas.length} clips"
      return (← e.renderer.run p (mergePayloads 0 datas)).output) s := by
  have hmatch : (outputs.filter (·.ok)).filterMap (·.data) = datas := hdatas
  have hconcat : concat ((mergePayloads 0 datas).map Prod.fst) = .ok p := by
    rwa [map_fst_mergePayloads]
  rw [concatenate, hmatch]
  obtain ⟨first, second, rest, rfl⟩ : ∃ first second rest, datas = first :: second :: rest := by
    rcases datas with _ | ⟨first, _ | ⟨second, rest⟩⟩
    · exact absurd hmany (by decide)
    · exact absurd hmany (Nat.not_succ_le_self 1)
    · exact ⟨first, second, rest, rfl⟩
  change Session.exec (lift (concat ((mergePayloads 0 (first :: second :: rest)).map Prod.fst)) >>=
    fun p => _) s = _
  rw [exec_bind, exec_lift, hconcat]
  rfl

/-- What joining outputs does, by how many of them are those of clips that were cut. -/
structure Concatenates (e : Extractor σ) (outputs : List CutOutput) : Prop where
  successful : e.concatenate outputs = e.concatenate (outputs.filter (·.ok))
  none : outputs.filter (·.ok) = [] →
    ∀ s, (e.concatenate outputs).exec s = (.error (.rejected (.noClips "merge")), s)
  one : ∀ o, outputs.filter (·.ok) = [o] →
    ∃ data, o.data = some data ∧ ∀ s, (e.concatenate outputs).exec s = (.ok data, s)
  many : 2 ≤ (outputs.filter (·.ok)).length → ∃ p payloads names,
    IsJoin p payloads names (outputs.filter (·.ok)) ∧
    ∀ s, (e.concatenate outputs).exec s = Session.exec (do
      say s!"merging {names.length} clips"
      return (← e.renderer.run p payloads).output) s

/-- The clips that were cut are joined in order, by a run of the engine only if there are several. -/
theorem concatenate_inOrder (e : Extractor σ) (outputs : List CutOutput) : e.Concatenates outputs := by
  have hmatch : (outputs.filter (·.ok)).filterMap (·.data) = usable outputs := rfl
  have hall := forall₂_usable outputs
  refine ⟨?_, fun hnone s => ?_, fun o hone => ?_, fun hmany => ?_⟩
  · rw [concatenate, concatenate, hmatch, List.filter_filter]
    simp only [Bool.and_self, hmatch]
  · rw [hnone, List.forall₂_nil_left_iff] at hall
    rw [concatenate, hmatch, hall]
    rfl
  · rw [hone] at hall
    obtain ⟨data, rest, hdata, hrest, hdatas⟩ := List.forall₂_cons_left_iff.1 hall
    rw [List.forall₂_nil_left_iff] at hrest
    refine ⟨data, hdata, fun s => ?_⟩
    rw [concatenate, hmatch, hdatas, hrest]
    rfl
  · rw [hall.length_eq] at hmany
    have hsome : usable outputs ≠ [] := List.length_pos_iff.1 (Nat.lt_of_lt_of_le Nat.two_pos hmany)
    obtain ⟨p, hp, hjoin⟩ := isJoin_mergePayloads hsome
    have hcount : (mergeNames 0 (usable outputs).length).length = (usable outputs).length := by
      simp [mergeNames]
    refine ⟨p, _, _, hjoin, fun s => ?_⟩
    rw [hcount]
    exact concatenate_many rfl hmany hp s

end Extractor

end Montage.Cutting
