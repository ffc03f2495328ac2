import Montage.Proofs.Timeline.Verdict

/-!
# What a timeline has from its snapshot

Each entry of a snapshot gives one track, clip or overlay, in the order of the entries, with the times that
the entry says and with the names that it gives or that its position does. A snapshot with an entry that
cannot be used gives nothing (`Timeline.ofValue_isComplete`).
-/

namespace Montage

open Outcome

/-! ### Parts of an entry -/

/-- A time is the binary number nearest to what a value says exactly. -/
def Timecode.IsTime (v : Value) (x : Binary64) : Prop :=
  ∃ d, Timecode.read v = .ok d ∧ d.toBinary64? = some x

namespace Timecode

variable {entry v default : Value} {key : String} {x : Binary64}

theorem isTime_of_seconds (h : seconds v = .ok x) : IsTime v x := by
  obtain ⟨d, hread, h⟩ := bind_eq_ok.1 h
  refine ⟨d, hread, ?_⟩
  cases hd : d.toBinary64? with
  | none =>
    rw [hd] at h
    cases h
  | some y =>
    rw [hd] at h
    exact congrArg some (Except.ok.inj h)

theorem isTime_of_ofField (h : ofField entry key default = .ok x) : IsTime (entry.getD key default) x := by
  unfold ofField at h
  split at h
  · cases h
  · exact isTime_of_seconds h

theorem IsTime.ne_null (h : IsTime v x) : v ≠ .null := by
  rintro rfl
  obtain ⟨d, hread, -⟩ := h
  cases hread

end Timecode

open Timecode

/-- The identifier that an entry gives as a value with a text, or else the default. -/
def IsIdOf (entry : Value) (default id : String) : Prop :=
  match entry.get? "id" with
  | none => id = default
  | some given => given.hasText = true ∧ id = given.display

theorem Value.toText_eq_ok {v : Value} {s : String} (h : v.toText = .ok s) :
    v.hasText = true ∧ s = v.display := by
  unfold toText at h
  split at h
  · rename_i htext
    exact ⟨htext, (Except.ok.inj h).symm⟩
  · cases h

theorem isIdOf_of_toText {entry : Value} {default id : String}
    (h : (entry.getD "id" (.text default)).toText = .ok id) : IsIdOf entry default id := by
  unfold Value.getD at h
  unfold IsIdOf
  cases hget : entry.get? "id" with
  | none =>
    rw [hget] at h
    exact (Value.toText_eq_ok h).2
  | some given =>
    rw [hget] at h
    exact Value.toText_eq_ok h

theorem eq_ok_of_guard {α : Type} {b : Bool} {x : Except Fault α} {e : Fault} {a : α}
    (h : (if (!b) = true then .error e else x) = .ok a) : b = true ∧ x = .ok a := by
  cases b with
  | false => cases h
  | true => exact ⟨rfl, h⟩

theorem Value.eq_null_of_isNull {v : Value} (h : v.isNull = true) : v = .null := by
  cases v with
  | null => rfl
  | _ => cases h

theorem TrackKind.eq_text_of_ofValue? {v : Value} {kind : TrackKind} (h : ofValue? v = some kind) :
    v = .text kind.name := by
  cases v with
  | text s =>
    have hfind : all.find? (·.name == s) = some kind := h
    have hname : (kind.name == s) = true := by simpa using List.find?_some hfind
    rw [eq_of_beq hname]
  | _ => cases h

/-! ### One result for each entry -/

/-- The results are one for each entry, in the same order, and fit the entry and its position. -/
def OneForEach {α : Type} (R : Value → Nat → α → Prop) (entries : List Value) (results : List α) : Prop :=
  List.Forall₂ (fun numbered a => R numbered.1 numbered.2 a) (entries.zipIdx 1) results

theorem OneForEach.of_readEntries {α : Type} {R : Value → Nat → α → Prop}
    {read : Value → Nat → Except Fault α} {entries : List Value} {results : List α}
    (h : readEntries read entries = .ok results)
    (hread : ∀ entry position a, read entry position = .ok a → R entry position a) :
    OneForEach R entries results := by
  unfold readEntries at h
  refine List.Forall₂.imp ?_ (mapM_eq_ok.1 h)
  rintro ⟨entry, position⟩ a
  exact hread entry position a

theorem OneForEach.exists_of_mem {α : Type} {R : Value → Nat → α → Prop} {entries : List Value}
    {results : List α} (h : OneForEach R entries results) {entry : Value} (hentry : entry ∈ entries) :
    ∃ position a, R entry position a := by
  rw [← List.zipIdx_map_fst 1 entries] at hentry
  obtain ⟨numbered, hnumbered, rfl⟩ := List.mem_map.1 hentry
  obtain ⟨a, -, ha⟩ := exists_right_of_forall₂ h hnumbered
  exact ⟨numbered.2, a, ha⟩

/-! ### Clips -/

namespace Clip

/-- The address of a clip: what is under `file_url` if there is that key. -/
def addressOf (entry : Value) : Value := entry.getD "file_url" (entry.get "url")

/-- The type of the content that an entry gives, or else the usual one for the kind of track. -/
def contentTypeOf (kind : TrackKind) (entry : Value) : Value :=
  (entry.getD "file_type" (entry.get "content_type")).orNone.getD (.text kind.defaultContentType)

/-- A clip is what an entry says, at its position on a track of a kind. -/
structure IsOf (kind : TrackKind) (track : String) (entry : Value) (position : Nat) (c : Clip) : Prop where
  isMapping : entry.isMapping = true
  isId : IsIdOf entry s!"{track}-{position}" c.id
  start : IsTime (entry.getD "start_time" (.int 0)) c.start
  duration : IsTime (entry.get "duration") c.duration
  trimStart : IsTime (entry.getD "trim_start" (.int 0)) c.trimStart
  trimEnd : IsTime (entry.getD "trim_end" (.int 0)) c.trimEnd
  isSome_source_iff : c.source.isSome = true ↔
    kind ≠ .text ∧ (addressOf entry ≠ .null ∨ entry.get "storage_path" ≠ .null)
  source_eq : ∀ source, c.source = some source →
    source = ⟨addressOf entry, entry.get "storage_path", contentTypeOf kind entry⟩
  hasAudio_eq : c.hasAudio = (entry.getD "audio" kind.audible).truthy
  name_eq : c.name = (entry.getD "name" (entry.get "file_name")).orNone.getD (.text c.id)

/-- An entry that is no clip: it is no mapping, or it has no duration. -/
inductive IsMalformed (entry : Value) : Prop
  | shape (h : entry.isMapping = false)
  | duration (h : entry.get "duration" = .null)

variable {kind : TrackKind} {track : String} {entry : Value} {position : Nat} {c : Clip}

theorem isSome_source_iff (kind : TrackKind) (entry : Value) : (Source.ofClip? entry kind).isSome = true ↔
    kind ≠ .text ∧ (addressOf entry ≠ .null ∨ entry.get "storage_path" ≠ .null) := by
  have hnull (v : Value) : v.isNull = true ↔ v = .null := ⟨Value.eq_null_of_isNull, fun h => h ▸ rfl⟩
  unfold Source.ofClip?
  dsimp only
  rw [← not_and_or, ← hnull, ← hnull, addressOf, apply_ite Option.isSome]
  cases (entry.getD "file_url" (entry.get "url")).isNull <;> simp

theorem isOf_of_ofValue (h : ofValue kind track entry position = .ok c) :
    c.IsOf kind track entry position := by
  obtain ⟨hmapping, h⟩ := eq_ok_of_guard h
  obtain ⟨id, hid, h⟩ := bind_eq_ok.1 h
  obtain ⟨start, hstart, h⟩ := bind_eq_ok.1 h
  obtain ⟨duration, hduration, h⟩ := bind_eq_ok.1 h
  obtain ⟨trimStart, htrimStart, h⟩ := bind_eq_ok.1 h
  obtain ⟨trimEnd, htrimEnd, h⟩ := bind_eq_ok.1 h
  obtain rfl := pure_eq_ok.1 h
  exact {
    isMapping := hmapping
    isId := isIdOf_of_toText hid
    start := isTime_of_ofField hstart
    duration := isTime_of_ofField hduration
    trimStart := isTime_of_ofField htrimStart
    trimEnd := isTime_of_ofField htrimEnd
    isSome_source_iff := isSome_source_iff kind entry
    source_eq := by
      intro source hsource
      dsimp only [Source.ofClip?] at hsource
      split at hsource
      · cases hsource
      · exact (Option.some.inj hsource).symm
    hasAudio_eq := rfl
    name_eq := rfl }

theorem IsOf.not_isMalformed (h : c.IsOf kind track entry position) : ¬ IsMalformed entry := by
  rintro (hshape | hduration)
  · exact Bool.false_ne_true (hshape.symm.trans h.isMapping)
  · exact h.duration.ne_null hduration

end Clip

/-! ### Tracks -/

namespace Track

/-- A track is what an entry says, with a clip for each entry of its clips. -/
structure IsOf (entry : Value) (position : Nat) (t : Track) : Prop where
  isMapping : entry.isMapping = true
  kind_eq : entry.getD "type" (entry.get "kind") = .text t.kind.name
  isId : IsIdOf entry s!"{t.kind.name}-{position}" t.id
  clips : ∃ clips, (entry.getD "clips" (.list [])).list? = some clips ∧
    OneForEach (fun clip position c => c.IsOf t.kind t.id clip position) clips t.clips
  locked_eq : t.locked = (entry.getD "locked" false).truthy
  visible_eq : t.visible = (entry.getD "visible" true).truthy
  name_eq : t.name = (entry.get "name").orNone.getD (.text t.id)

/-- An entry that is no track: it is no mapping, it has no kind or no list of clips, or one of them is no
clip. -/
inductive IsMalformed (entry : Value) : Prop
  | shape (h : entry.isMapping = false)
  | kind (h : ∀ kind : TrackKind, entry.getD "type" (entry.get "kind") ≠ .text kind.name)
  | clips (h : (entry.getD "clips" (.list [])).list? = none)
  | clip (clip : Value) (hclip : clip ∈ entry.entriesOf "clips") (h : Clip.IsMalformed clip)

variable {entry : Value} {position : Nat} {t : Track}

theorem isOf_of_ofValue (h : ofValue entry position = .ok t) : t.IsOf entry position := by
  obtain ⟨hmapping, h⟩ := eq_ok_of_guard h
  cases hkind : TrackKind.ofValue? (entry.getD "type" (entry.get "kind")) with
  | none =>
    rw [hkind] at h
    cases h
  | some kind =>
    rw [hkind] at h
    obtain ⟨id, hid, h⟩ := bind_eq_ok.1 h
    obtain ⟨entries, hentries, h⟩ := bind_eq_ok.1 h
    obtain ⟨clips, hclips, h⟩ := bind_eq_ok.1 h
    obtain rfl := pure_eq_ok.1 h
    exact {
      isMapping := hmapping
      kind_eq := TrackKind.eq_text_of_ofValue? hkind
      isId := isIdOf_of_toText hid
      clips := ⟨entries, Value.list?_of_listField hentries,
        .of_readEntries hclips fun _ _ _ => Clip.isOf_of_ofValue⟩
      locked_eq := rfl
      visible_eq := rfl
      name_eq := rfl }

theorem IsOf.not_isMalformed (h : t.IsOf entry position) : ¬ IsMalformed entry := by
  obtain ⟨clips, hclips, hnumbered⟩ := h.clips
  rintro (hshape | hkind | hnone | ⟨clip, hclip, hmalformed⟩)
  · exact Bool.false_ne_true (hshape.symm.trans h.isMapping)
  · exact hkind t.kind h.kind_eq
  · cases hnone.symm.trans hclips
  · rw [Value.entriesOf, hclips] at hclip
    obtain ⟨_, _, hof⟩ := hnumbered.exists_of_mem hclip
    exact hof.not_isMalformed hmalformed

end Track

/-! ### Overlays -/

namespace TextOverlay

/-- An overlay is what an entry says. -/
structure IsOf (entry : Value) (position : Nat) (o : TextOverlay) : Prop where
  isMapping : entry.isMapping = true
  text_ne_null : entry.get "text" ≠ .null
  isId : IsIdOf entry s!"text-{position}" o.id
  text_eq : o.text = .text (entry.get "text").display
  start : IsTime (entry.getD "start_time" (.int 0)) o.start
  duration : IsTime (entry.get "duration") o.duration
  x_eq : (entry.getD "x" (.int 50)).toBinary64 = .ok o.x
  y_eq : (entry.getD "y" (.int 50)).toBinary64 = .ok o.y
  fontSize_eq : o.fontSize = entry.getD "font_size" (.int 48)
  color_eq : o.color = entry.getD "color" (.text "white")
  font_eq : o.font = entry.get "font"

/-- An entry that is no overlay: it is no mapping, or it has no text or no duration. -/
inductive IsMalformed (entry : Value) : Prop
  | shape (h : entry.isMapping = false)
  | text (h : entry.get "text" = .null)
  | duration (h : entry.get "duration" = .null)

variable {entry : Value} {position : Nat} {o : TextOverlay}

theorem isOf_of_ofValue (h : ofValue entry position = .ok o) : o.IsOf entry position := by
  obtain ⟨hmapping, h⟩ := eq_ok_of_guard h
  cases htext : (entry.get "text").orNone with
  | none =>
    rw [htext] at h
    cases h
  | some given =>
    rw [htext] at h
    obtain ⟨id, hid, h⟩ := bind_eq_ok.1 h
    obtain ⟨text, hwritten, h⟩ := bind_eq_ok.1 h
    obtain ⟨start, hstart, h⟩ := bind_eq_ok.1 h
    obtain ⟨duration, hduration, h⟩ := bind_eq_ok.1 h
    obtain ⟨x, hx, h⟩ := bind_eq_ok.1 h
    obtain ⟨y, hy, h⟩ := bind_eq_ok.1 h
    obtain rfl := pure_eq_ok.1 h
    have hgiven : entry.get "text" ≠ .null ∧ entry.get "text" = given := by
      cases hget : entry.get "text" with
      | null =>
        rw [hget] at htext
        cases htext
      | _ =>
        rw [hget] at htext
        exact ⟨nofun, Option.some.inj htext⟩
    exact {
      isMapping := hmapping
      text_ne_null := hgiven.1
      isId := isIdOf_of_toText hid
      text_eq := by rw [hgiven.2, (Value.toText_eq_ok hwritten).2]
      start := isTime_of_ofField hstart
      duration := isTime_of_ofField hduration
      x_eq := hx
      y_eq := hy
      fontSize_eq := rfl
      color_eq := rfl
      font_eq := rfl }

theorem IsOf.not_isMalformed (h : o.IsOf entry position) : ¬ IsMalformed entry := by
  rintro (hshape | htext | hduration)
  · exact Bool.false_ne_true (hshape.symm.trans h.isMapping)
  · exact h.text_ne_null htext
  · exact h.duration.ne_null hduration

end TextOverlay

/-! ### Timelines -/

namespace Timeline

/-- A timeline is what a snapshot says: one track for each entry of its tracks, and one overlay for each
entry of its texts. -/
structure IsOf (snapshot minimum : Value) (t : Timeline) : Prop where
  isMapping : snapshot.isMapping = true
  tracks : ∃ tracks, (snapshot.getD "tracks" (.list [])).list? = some tracks ∧
    OneForEach (fun entry position track => track.IsOf entry position) tracks t.tracks
  overlays : ∃ overlays, (snapshot.getD "text_overlays" (.list [])).list? = some overlays ∧
    OneForEach (fun entry position overlay => overlay.IsOf entry position) overlays t.overlays
  minimumDuration : IsTime (minimumOf snapshot minimum) t.minimumDuration

/-- A snapshot with an entry that is no track or no overlay. -/
inductive IsMalformed (snapshot : Value) : Prop
  | track (entry : Value) (hentry : entry ∈ snapshot.entriesOf "tracks") (h : Track.IsMalformed entry)
  | overlay (entry : Value) (hentry : entry ∈ snapshot.entriesOf "text_overlays")
    (h : TextOverlay.IsMalformed entry)

variable {v snapshot minimum : Value} {t : Timeline}

theorem isOf_of_ofValue (h : ofValue v minimum = .ok t) : t.IsOf (snapshotOf v) minimum := by
  obtain ⟨hmapping, h⟩ := eq_ok_of_guard h
  obtain ⟨tracks, htracks, h⟩ := bind_eq_ok.1 h
  obtain ⟨overlays, hoverlays, h⟩ := bind_eq_ok.1 h
  obtain ⟨readTracks, hreadTracks, h⟩ := bind_eq_ok.1 h
  obtain ⟨readOverlays, hreadOverlays, h⟩ := bind_eq_ok.1 h
  obtain ⟨time, htime, h⟩ := bind_eq_ok.1 h
  obtain rfl := pure_eq_ok.1 h
  exact {
    isMapping := hmapping
    tracks := ⟨tracks, Value.list?_of_listField htracks,
      .of_readEntries hreadTracks fun _ _ _ => Track.isOf_of_ofValue⟩
    overlays := ⟨overlays, Value.list?_of_listField hoverlays,
      .of_readEntries hreadOverlays fun _ _ _ => TextOverlay.isOf_of_ofValue⟩
    minimumDuration := isTime_of_seconds htime }

theorem IsOf.not_isMalformed (h : t.IsOf snapshot minimum) : ¬ IsMalformed snapshot := by
  rintro (⟨entry, hentry, hmalformed⟩ | ⟨entry, hentry, hmalformed⟩)
  · obtain ⟨tracks, htracks, hnumbered⟩ := h.tracks
    rw [Value.entriesOf, htracks] at hentry
    obtain ⟨_, _, hof⟩ := hnumbered.exists_of_mem hentry
    exact hof.not_isMalformed hmalformed
  · obtain ⟨overlays, hoverlays, hnumbered⟩ := h.overlays
    rw [Value.entriesOf, hoverlays] at hentry
    obtain ⟨_, _, hof⟩ := hnumbered.exists_of_mem hentry
    exact hof.not_isMalformed hmalformed

/-- Nothing of a snapshot is lost: the timeline that is read from it has all of its entries, and a single
entry that cannot be used, wherever it is, refuses the whole. -/
theorem ofValue_isComplete (v minimum : Value) :
    (∀ t, ofValue v minimum = .ok t → t.IsOf (snapshotOf v) minimum) ∧
    (IsMalformed (snapshotOf v) → ∃ e, ofValue v minimum = .error e) := by
  refine ⟨fun t => isOf_of_ofValue, fun hmalformed => ?_⟩
  -- Had the snapshot been read, each of its entries would have a result that it fits.
  cases hread : ofValue v minimum with
  | error e => exact ⟨e, rfl⟩
  | ok t => exact ((isOf_of_ofValue hread).not_isMalformed hmalformed).elim

/-- A film of two clips with a text over them. -/
def filmSnapshot (second : Value) : Value :=
  .record [
    ("tracks", .list [.record [("type", "video"), ("clips", .list [
      .record [("file_url", "https://media.example/a.mp4"), ("duration", "1:30")], second])]]),
    ("text_overlays", .list [.record [("text", "The end"), ("start_time", .int 2), ("duration", .int 1)]])]

def storedClip : Value := .record [("storage_path", "b.mp4"), ("duration", .int 2)]

/-- With a second clip from the storage it is read; with one that has no duration it is not. -/
theorem filmSnapshot_isComplete :
    (∃ t, ofValue (filmSnapshot storedClip) .null = .ok t ∧ t.IsOf (filmSnapshot storedClip) .null) ∧
    ∃ e, ofValue (filmSnapshot (.record [("storage_path", "b.mp4")])) .null = .error e := by
  constructor
  · have hread : (ofValue (filmSnapshot storedClip) .null).isOk = true := by decide +kernel
    obtain ⟨t, ht⟩ := isOk_iff.1 hread
    exact ⟨t, ht, (ofValue_isComplete _ _).1 t ht⟩
  · exact (ofValue_isComplete _ _).2 (.track _ (.head _) (.clip _ (.tail _ (.head _)) (.duration rfl)))

end Timeline

end Montage
