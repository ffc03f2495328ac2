import Montage.Proofs.Asset.Contained
import Montage.Proofs.Asset.Results
import Montage.Proofs.Files.Nulless
import Montage.Timeline.Snapshot

/-!
# What cannot be fetched is a result

The source of a clip is what the snapshot gives. As long as the values of it that are made use of are texts
for paths and addresses, and requests fail in the way that is documented of them, fetching ends in the bytes
from the storage, in those from the address, or in a problem (`Shelf.resolve_of_understands`), and no clip
keeps the next one from its result. Anything else is a fault, and with it all results are lost
(`Resolver.resolveAll_answers`).
-/

namespace Montage

open Outcome FileTree

/-! ### The storage -/

namespace Storage

variable {storage : Storage} {t : FileTree} {directory path : String}

theorem hasNul_root (h : ofPath t directory path = .ok storage) (hlinks : t.HasNullessLinks)
    (hdirectory : hasNul directory = false) : hasNul storage.root = false := by
  unfold ofPath at h
  split at h
  · cases h
  · rename_i hpath
    have hroot : storage.root = t.realPath (Path.join directory path) := by rw [← Except.ok.inj h]
    rw [hroot]
    exact hasNul_realPath hlinks (hasNul_join hdirectory (Bool.eq_false_iff.2 hpath))

/-- Why reading in the storage fails: for what is there, or because the path leads out. -/
def IsProblem (e : Fault) : Prop := (∃ cause, e = .io cause) ∨ ∃ why, e = .assetUnavailable why

theorem read_failsOnly_problem (hlinks : t.HasNullessLinks) (hroot : hasNul storage.root = false)
    (hpath : hasNul path = false) : FailsOnly IsProblem (storage.read t path) := by
  have hinner : hasNul (inner path) = false := by
    rw [hasNul, List.contains_eq_mem, decide_eq_false_iff_not] at hpath ⊢
    rw [inner, String.toList_ofList]
    exact fun hmem => hpath ((List.dropWhile_sublist _).subset hmem)
  have hfull : hasNul (t.realPath (storage.fullPath path)) = false :=
    hasNul_realPath hlinks (hasNul_join hroot hinner)
  have hresolve : FailsOnly IsProblem (storage.resolve t path) := by
    rw [resolve, hpath, if_neg Bool.false_ne_true]
    dsimp only
    split
    · exact .ok _
    · exact .error (.inr ⟨_, rfl⟩)
  refine .bind hresolve fun full hok e he => .inl ?_
  have hnul : hasNul full = false := (resolve_eq_ok hok).1 ▸ hfull
  exact readFile_failsOnly_io hnul e he

end Storage

/-- What goes wrong with a request to an address is one of the errors of the library for requests, as the
library documents it of the errors that it raises. -/
def Web.FailsAsDocumented (web : Web) (url : String) : Prop := ∀ what, web.request url ≠ .misused what

namespace Shelf

variable {s : Shelf} {clip : Clip} {clips : List Clip} {source : Source} {path url : Value}
  {data? : Option ByteArray} {outcome : Except Fault ByteArray}

/-- There is a NUL neither in the path of the storage nor in a link, as no file system has one. -/
structure IsNulless (s : Shelf) : Prop where
  root : ∀ storage, s.storage = some storage → hasNul storage.root = false
  links : s.tree.HasNullessLinks

/-- The bytes in the storage under a path that is not empty. -/
def stored? (s : Shelf) : Value → Option ByteArray
  | .text path =>
    if path = "" then none else s.storage.bind fun storage => (storage.read s.tree path).toOption
  | _ => none

/-- The bytes that the web gives at an address with the status for success. -/
def downloaded? (s : Shelf) : Value → Option ByteArray
  | .text url =>
    if isWebAddress url then
      match s.web.request url with
      | .answer status body => if status = 200 then some body else none
      | _ => none
    else none
  | _ => none

/-- A value that stands for a path: nothing, or a text without a NUL. -/
def IsPath (v : Value) : Prop := v.truthy = false ∨ ∃ path, v = .text path ∧ hasNul path = false

/-- A value that stands for an address: nothing, or a text. -/
def IsAddress (v : Value) : Prop := v.truthy = false ∨ ∃ url, v = .text url

/-- A request for what a value stands for, if there is one, fails in no unknown way. -/
def FailsAsDocumented (s : Shelf) (v : Value) : Prop :=
  ∀ url, v = .text url → isWebAddress url = true → s.web.FailsAsDocumented url

/-- The values of a source that are made use of are a path in the storage, if there is one, and an
address, if nothing is stored under the path; then nothing but an error of a request keeps its bytes away. -/
structure Understands (s : Shelf) (source : Source) : Prop where
  path : s.storage ≠ none → IsPath source.storagePath
  address : s.stored? source.storagePath = none → IsAddress source.url
  request : s.stored? source.storagePath = none → s.FailsAsDocumented source.url

/-- The bytes of a source, those in the storage first. -/
def delivered? (s : Shelf) (source : Source) : Option ByteArray :=
  (s.stored? source.storagePath).or (s.downloaded? source.url)

/-- A result with the bytes of a source, or else with a problem. -/
structure Answers (s : Shelf) (source : Option Source) (r : AssetResult) : Prop where
  data_eq : r.data = source.bind s.delivered?
  ok_eq : r.ok = r.data.isSome
  problem_eq : r.problem.isSome = r.data.isNone

/-- The outcome of a fetch, by the bytes that there are. -/
inductive Delivers : Option ByteArray → Except Fault ByteArray → Prop where
  | bytes (data : ByteArray) : Delivers (some data) (.ok data)
  | unavailable (why : String) : Delivers none (.error (.assetUnavailable why))

theorem text_empty_of_not_truthy {path : String} (h : (Value.text path).truthy = false) : path = "" := by
  simpa [Value.truthy] using h

theorem stored?_of_not_truthy (h : path.truthy = false) : s.stored? path = none := by
  cases path with
  | text path => rw [stored?, if_pos (text_empty_of_not_truthy h)]
  | _ => rfl

theorem downloaded?_of_not_truthy (h : url.truthy = false) : s.downloaded? url = none := by
  cases url with
  | text url =>
    have haddress : isWebAddress "" = false := by decide
    rw [text_empty_of_not_truthy h, downloaded?, haddress, if_neg Bool.false_ne_true]
  | _ => rfl

/-! ### One place after the other -/

theorem download_cases {url : String} (h : s.FailsAsDocumented (.text url)) :
    (∃ data, s.downloaded? (.text url) = some data ∧ s.download url = .ok (.ok data)) ∨
      ∃ problem, s.downloaded? (.text url) = none ∧ s.download url = .ok (.error problem) := by
  rw [downloaded?, download]
  split
  · rename_i hweb
    cases hreply : s.web.request url with
    | failure problem => exact .inr ⟨_, rfl, rfl⟩
    | misused what => exact absurd hreply (h url rfl hweb what)
    | answer status body =>
      dsimp only
      split
      · exact .inl ⟨body, rfl, rfl⟩
      · exact .inr ⟨_, rfl, rfl⟩
  · exact .inr ⟨_, rfl, rfl⟩

theorem download_of_not {url : String} (h : ¬ s.FailsAsDocumented (.text url)) :
    ∃ what, s.download url = .error (.misuse what) := by
  unfold FailsAsDocumented Web.FailsAsDocumented at h
  simp only [not_forall, not_not] at h
  obtain ⟨_, ⟨⟩, hweb, what, hreply⟩ := h
  refine ⟨what, ?_⟩
  rw [download, if_pos hweb, hreply]

theorem fetchAddress_delivers (h : IsAddress url) (hfails : s.FailsAsDocumented url)
    (problems : List String) : Delivers (s.downloaded? url) (s.fetchAddress url problems).outcome := by
  unfold fetchAddress
  dsimp only
  by_cases htruthy : url.truthy = true
  · obtain ⟨url, rfl⟩ := h.resolve_left (Bool.not_eq_false _ ▸ htruthy)
    rw [htruthy, if_neg (by decide)]
    dsimp only [fromAddress]
    rcases download_cases hfails with ⟨data, hdata, hdownload⟩ | ⟨problem, hnone, hdownload⟩
    · rw [hdata, hdownload]
      exact .bytes data
    · rw [hnone, hdownload]
      exact .unavailable _
  · rw [Bool.not_eq_true] at htruthy
    rw [htruthy, downloaded?_of_not_truthy htruthy, if_pos (by decide)]
    exact .unavailable _

/-- What cannot be made an address of is a fault, and so is an unknown error of the request. -/
theorem fetchAddress_of_not (h : ¬ (IsAddress url ∧ s.FailsAsDocumented url)) (problems : List String) :
    ∃ what, (s.fetchAddress url problems).outcome = .error (.misuse what) := by
  have htruthy : url.truthy = true := by
    rw [← Bool.not_eq_false]
    refine fun hnone => h ⟨.inl hnone, fun text htext hweb => ?_⟩
    subst htext
    rw [text_empty_of_not_truthy hnone] at hweb
    cases hweb
  unfold fetchAddress
  dsimp only
  rw [htruthy, if_neg (by decide)]
  cases url with
  | text url =>
    obtain ⟨what, hwhat⟩ := download_of_not fun hfails => h ⟨.inr ⟨url, rfl⟩, hfails⟩
    refine ⟨what, ?_⟩
    dsimp only [fromAddress]
    rw [hwhat]
  | _ =>
    obtain ⟨what, hwhat⟩ := notText_isMisuse _
    exact ⟨what, congrArg Except.error hwhat⟩

/-- A path is read in the storage, or gives a problem with which the address is tried. -/
theorem fromStorage_cases (hs : s.IsNulless) (h : s.storage ≠ none → IsPath path)
    (htruthy : path.truthy = true) :
    (∃ data, s.stored? path = some data ∧ s.fromStorage path = .ok (.ok data)) ∨
      ∃ problem, s.stored? path = none ∧ s.fromStorage path = .ok (.error problem) := by
  unfold fromStorage
  cases hstorage : s.storage with
  | none =>
    refine .inr ⟨_, ?_, rfl⟩
    cases path with
    | text path => simp [stored?, hstorage]
    | _ => rfl
  | some storage =>
    have hpath : IsPath path := h (by rw [hstorage]; exact Option.some_ne_none storage)
    obtain ⟨path, rfl, hnul⟩ := hpath.resolve_left (Bool.not_eq_false _ ▸ htruthy)
    have hne : path ≠ "" := by
      rintro rfl
      cases htruthy
    have hread := Storage.read_failsOnly_problem hs.links (hs.root storage hstorage) hnul
    rw [stored?, if_neg hne, hstorage, Option.bind_some]
    dsimp only
    cases hcase : storage.read s.tree path with
    | ok data => exact .inl ⟨data, rfl, rfl⟩
    | error e =>
      rcases hread e hcase with ⟨cause, rfl⟩ | ⟨why, rfl⟩
      · exact .inr ⟨_, rfl, rfl⟩
      · exact .inr ⟨_, rfl, rfl⟩

theorem fromStorage_of_not (hstorage : s.storage ≠ none) (h : ¬ IsPath path) :
    ∃ what, s.fromStorage path = .error (.misuse what) := by
  obtain ⟨htruthy, hnot⟩ := not_or.1 h
  obtain ⟨storage, hsome⟩ := Option.ne_none_iff_exists'.1 hstorage
  unfold fromStorage
  rw [hsome]
  dsimp only
  cases path with
  | text path =>
    have hnul : hasNul path = true := by
      rw [← Bool.not_eq_false]
      exact fun hnone => hnot ⟨path, rfl, hnone⟩
    have hread : storage.read s.tree path = .error (.misuse .value) := by
      rw [Storage.read, Storage.resolve, if_pos hnul]
      rfl
    refine ⟨.value, ?_⟩
    dsimp only
    rw [hread]
  | bytes data => exact ⟨_, rfl⟩
  | _ => exact ⟨_, rfl⟩

theorem fetch_delivers (hs : s.IsNulless) (h : s.Understands source) :
    Delivers (s.delivered? source) (s.fetch source).outcome := by
  unfold fetch delivered?
  by_cases htruthy : source.storagePath.truthy = true
  · rw [htruthy, if_neg (by decide)]
    rcases fromStorage_cases hs h.path htruthy with ⟨data, hdata, hfrom⟩ | ⟨problem, hnone, hfrom⟩
    · rw [hdata, hfrom]
      exact .bytes data
    · rw [hnone, hfrom]
      exact fetchAddress_delivers (h.address hnone) (h.request hnone) [problem]
  · rw [Bool.not_eq_true] at htruthy
    have hnone : s.stored? source.storagePath = none := stored?_of_not_truthy htruthy
    rw [htruthy, hnone, if_pos (by decide)]
    exact fetchAddress_delivers (h.address hnone) (h.request hnone) []

theorem fetch_of_not (hs : s.IsNulless) (h : ¬ s.Understands source) :
    ∃ what, (s.fetch source).outcome = .error (.misuse what) := by
  unfold fetch
  by_cases hpath : s.storage ≠ none → IsPath source.storagePath
  · have haddress : s.stored? source.storagePath = none ∧
        ¬ (IsAddress source.url ∧ s.FailsAsDocumented source.url) := by
      by_contra hnot
      have hneeded := fun hnone => Classical.not_not.1 fun hurl => hnot ⟨hnone, hurl⟩
      exact h ⟨hpath, fun hnone => (hneeded hnone).1, fun hnone => (hneeded hnone).2⟩
    by_cases htruthy : source.storagePath.truthy = true
    · rw [htruthy, if_neg (by decide)]
      rcases fromStorage_cases hs hpath htruthy with ⟨data, hdata, -⟩ | ⟨problem, -, hfrom⟩
      · rw [haddress.1] at hdata
        cases hdata
      · rw [hfrom]
        exact fetchAddress_of_not haddress.2 [problem]
    · rw [Bool.not_eq_true] at htruthy
      rw [htruthy, if_pos (by decide)]
      exact fetchAddress_of_not haddress.2 []
  · obtain ⟨hstorage, hnot⟩ := Classical.not_imp.1 hpath
    obtain ⟨what, hwhat⟩ := fromStorage_of_not hstorage hnot
    have htruthy : source.storagePath.truthy = true := Bool.not_eq_false _ ▸ (not_or.1 hnot).1
    rw [htruthy, if_neg (by decide), hwhat]
    exact ⟨what, rfl⟩

/-! ### Results -/

theorem resolve_of_understands (hs : s.IsNulless)
    (h : ∀ source, clip.source = some source → s.Understands source) :
    ∃ r, s.resolve clip = .ok r ∧ s.Answers clip.source r := by
  have hdelivers : Delivers (clip.source.bind s.delivered?) (s.fetch? clip.source).outcome := by
    cases hsource : clip.source with
    | none => exact .unavailable _
    | some source => exact fetch_delivers hs (h source hsource)
  unfold resolve
  generalize (s.fetch? clip.source).outcome = outcome at hdelivers
  generalize hdata : clip.source.bind s.delivered? = data? at hdelivers
  cases hdelivers with
  | bytes data => exact ⟨_, rfl, hdata.symm, rfl, rfl⟩
  | unavailable why => exact ⟨_, rfl, hdata.symm, rfl, rfl⟩

theorem resolve_of_not (hs : s.IsNulless) (hsource : clip.source = some source)
    (h : ¬ s.Understands source) : ∃ what, s.resolve clip = .error (.misuse what) := by
  obtain ⟨what, hwhat⟩ := fetch_of_not hs h
  refine ⟨what, ?_⟩
  rw [resolve, hsource, fetch?, hwhat]

theorem isOk_resolve_iff (hs : s.IsNulless) :
    (s.resolve clip).isOk = true ↔ ∀ source, clip.source = some source → s.Understands source := by
  constructor
  · intro hok source hsource
    by_contra hnot
    obtain ⟨what, hwhat⟩ := resolve_of_not hs hsource hnot
    rw [hwhat] at hok
    cases hok
  · intro h
    obtain ⟨r, hr, -⟩ := resolve_of_understands hs h
    rw [hr]
    rfl

end Shelf

namespace Resolver

variable {σ : Type} {r : Resolver} {st st' : Studio σ} {clips : List Clip}

theorem isNulless_ofRoot {root : Option String} {timeout : Value} {fontDirectories : List String}
    (h : (ofRoot root timeout fontDirectories).Ends st r st') (hlinks : st.tree.HasNullessLinks)
    (hdirectory : hasNul st.site.directory = false) : (r.shelfIn st).IsNulless := by
  refine ⟨fun storage hstorage => ?_, hlinks⟩
  cases root with
  | none =>
    obtain ⟨rfl, -⟩ := Session.ends_pure.1 h
    cases hstorage
  | some root =>
    obtain ⟨tree, s₁, htree, h⟩ := Session.ends_bind.1 h
    obtain ⟨rfl, rfl⟩ := Session.ends_tree.1 htree
    obtain ⟨site, s₂, hsite, h⟩ := Session.ends_bind.1 h
    obtain ⟨rfl, rfl⟩ := Session.ends_site.1 hsite
    obtain ⟨storage', s₃, hlift, h⟩ := Session.ends_bind.1 h
    obtain ⟨hopen, rfl⟩ := Session.ends_lift.1 hlift
    obtain ⟨rfl, -⟩ := Session.ends_pure.1 h
    cases hstorage
    exact Storage.hasNul_root hopen hlinks hdirectory

/-- A clip has a result exactly when the values of its source that are made use of are a path and an
address, and a request for it fails as documented if it fails: the bytes if there are any, and otherwise
a problem. All clips together have theirs exactly when
each has one, and a name that can be written. -/
theorem resolveAll_answers (hs : (r.shelfIn st).IsNulless) :
    (∀ clip, (∀ source, clip.source = some source → (r.shelfIn st).Understands source) →
      ∃ result, (r.shelfIn st).resolve clip = .ok result ∧ (r.shelfIn st).Answers clip.source result) ∧
    (∀ clip source, clip.source = some source → ¬ (r.shelfIn st).Understands source →
      ∃ what, (r.shelfIn st).resolve clip = .error (.misuse what)) ∧
    ∀ clips, (∃ assets st', (r.resolveAll clips).Ends st assets st' ∧
        List.Forall₂ (r.shelfIn st).IsResult clips assets) ↔
      ∀ clip ∈ clips, clip.name.hasText = true ∧
        ∀ source, clip.source = some source → (r.shelfIn st).Understands source := by
  refine ⟨fun clip => Shelf.resolve_of_understands hs,
    fun clip source hsource => Shelf.resolve_of_not hs hsource, fun clips => ?_⟩
  have hfault : ((r.shelfIn st).resolveAll clips).fault = none ↔
      ∀ clip ∈ clips, clip.name.hasText = true ∧
        ∀ source, clip.source = some source → (r.shelfIn st).Understands source := by
    rw [Shelf.fault_resolveAll_iff]
    refine forall₂_congr fun clip _ => ?_
    rw [Shelf.isOk_resolve_iff hs, and_comm]
  rw [← hfault, ← exists_resolved]
  constructor
  · rintro ⟨assets, st', hends, -⟩
    exact ⟨assets, st', hends⟩
  · rintro ⟨assets, st', hends⟩
    exact ⟨assets, st', hends, ends_resolveAll hends⟩

end Resolver

/-! ### Clips whose media are missing, and one whose path is a number -/

def brokenStudio : Studio Unit where
  tree := ⟨[(["media"], .directory), (["media", "a.mp4"], .file "a".toUTF8),
    (["media", "out.mp4"], .link "../secret.mp4")]⟩
  front := ()

def brokenResolver : Resolver := { storage := some ⟨"/media"⟩ }

def storedClip (path : Value) (url : Value) : Clip :=
  { id := "clip", start := .zero, duration := .ofInt 1, source := some ⟨url, path, "video/mp4"⟩ }

/-- Three sources that give no bytes, and one with an address that is not asked for. -/
def brokenClips : List Clip := [storedClip "out.mp4" .null, storedClip "b.mp4" "ftp://b.mp4",
  storedClip .null "https://c.mp4", storedClip "a.mp4" (.int 5)]

theorem brokenStudio_isNulless : (brokenResolver.shelfIn brokenStudio).IsNulless := by
  refine ⟨?_, hasNullessLinks_of_all (by decide)⟩
  intro storage hstorage
  cases hstorage
  decide

theorem brokenStudio_failsAsDocumented (v : Value) :
    (brokenResolver.shelfIn brokenStudio).FailsAsDocumented v := by
  intro url _ _ what
  exact nofun

theorem brokenClips_answered :
    (∃ assets st', (brokenResolver.resolveAll brokenClips).Ends brokenStudio assets st' ∧
        List.Forall₂ (brokenResolver.shelfIn brokenStudio).IsResult brokenClips assets) ∧
      (brokenClips.map fun clip =>
        ((brokenResolver.shelfIn brokenStudio).resolve clip).toOption.map (·.ok)) =
          [some false, some false, some false, some true] := by
  refine ⟨((Resolver.resolveAll_answers brokenStudio_isNulless).2.2 brokenClips).2 ?_, by decide +kernel⟩
  have hclip (path url : Value) (hpath : Shelf.IsPath path) (hurl : Shelf.IsAddress url ∨
      ((brokenResolver.shelfIn brokenStudio).stored? path).isSome = true) :
      (storedClip path url).name.hasText = true ∧ ∀ source, (storedClip path url).source = some source →
        (brokenResolver.shelfIn brokenStudio).Understands source := by
    refine ⟨rfl, fun source hsource => ?_⟩
    cases hsource
    refine ⟨fun _ => hpath, fun hnone => hurl.resolve_right ?_, fun _ => brokenStudio_failsAsDocumented _⟩
    rw [hnone]
    exact Bool.false_ne_true
  have htext (path : String) (h : hasNul path = false) : Shelf.IsPath path := .inr ⟨path, rfl, h⟩
  simp only [brokenClips, List.forall_mem_cons]
  refine ⟨?_, ?_, ?_, ?_, fun clip hnone => (List.not_mem_nil hnone).elim⟩
  · exact hclip _ _ (htext _ (by decide)) (.inl (.inl rfl))
  · exact hclip _ _ (htext _ (by decide)) (.inl (.inr ⟨_, rfl⟩))
  · exact hclip _ _ (.inl rfl) (.inl (.inr ⟨_, rfl⟩))
  · exact hclip _ _ (htext _ (by decide)) (.inr (by decide +kernel))

/-- A clip with a number for its path in the storage. -/
def numberedSnapshot : Value :=
  .record [("tracks", .list [.record [("type", "video"),
    ("clips", .list [.record [("storage_path", .int 5), ("duration", .int 2)]])]])]

theorem brokenStudio_not_answers :
    ¬ ∀ (s : Shelf) (snapshot minimum : Value) (t : Timeline), s.IsNulless →
      (∀ url, s.web.FailsAsDocumented url) → Timeline.ofValue snapshot minimum = .ok t → ∀ clip ∈ t.clips,
        ∃ result, s.resolve clip = .ok result ∧ s.Answers clip.source result := by
  intro hall
  have hcheck : (Timeline.ofValue numberedSnapshot).toOption.any (fun t => t.clips.any fun clip =>
      !((brokenResolver.shelfIn brokenStudio).resolve clip).isOk) = true := by decide +kernel
  obtain ⟨t, ht, hany⟩ := exists_ok_of_any hcheck
  obtain ⟨clip, hclip, hfault⟩ := List.any_eq_true.1 hany
  obtain ⟨result, hresult, -⟩ := hall _ numberedSnapshot .null t brokenStudio_isNulless
    (fun url what => nofun) ht clip hclip
  rw [hresult] at hfault
  cases hfault

end Montage
