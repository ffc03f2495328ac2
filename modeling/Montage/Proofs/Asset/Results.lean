import Mathlib.Data.List.Forall2
import Montage.Asset.Resolver
import Montage.Proofs.Outcome
import Montage.Proofs.Studio.Session

/-!
# The results of fetching

Results are kept by the id of the clip, so that the one that is found for a clip is that of the last
clip with its id (`get?_of_results`).
-/

namespace Montage

/-- The last clip with an id. -/
def lastNamed (clips : List Clip) (id : String) : Option Clip :=
  clips.reverse.find? (·.id = id)

namespace Shelf

variable {s : Shelf} {clip : Clip} {clips : List Clip} {assets : Assets}

/-- The bytes of a source, when it can be fetched. -/
def bytes? (s : Shelf) (source : Option Source) : Option ByteArray :=
  (s.fetch? source).outcome.toOption

/-- The bytes that are found under the id of a clip. -/
def bytesNamed? (s : Shelf) (clips : List Clip) (id : String) : Option ByteArray :=
  (lastNamed clips id).bind fun clip => s.bytes? clip.source

theorem bytes?_eq_some {source : Option Source} {data : ByteArray} :
    s.bytes? source = some data ↔ (s.fetch? source).outcome = .ok data := by
  unfold bytes?
  cases (s.fetch? source).outcome <;> simp [Except.toOption]

theorem resolve_eq_ok {result : AssetResult} (h : s.resolve clip = .ok result) :
    result.data = s.bytes? clip.source ∧ result.ok = (s.bytes? clip.source).isSome := by
  unfold resolve at h
  unfold bytes?
  split at h
  · rename_i data hdata
    cases h
    rw [hdata]
    exact ⟨rfl, rfl⟩
  · rename_i problem hproblem
    cases h
    rw [hproblem]
    exact ⟨rfl, rfl⟩
  · cases h

/-- An entry that holds what fetching for a clip gave. -/
def IsResult (s : Shelf) (clip : Clip) (entry : String × AssetResult) : Prop :=
  entry.1 = clip.id ∧ s.resolve clip = .ok entry.2

theorem resolveAll_assets (h : (s.resolveAll clips).fault = none) :
    List.Forall₂ s.IsResult clips (s.resolveAll clips).assets := by
  induction clips with
  | nil => exact .nil
  | cons clip rest ih =>
    unfold resolveAll at h ⊢
    split at h
    · cases h
    · rename_i result line hstep
      obtain ⟨result', hresult, hline⟩ := Outcome.bind_eq_ok.1 hstep
      obtain ⟨line', -, hpair⟩ := Outcome.bind_eq_ok.1 hline
      obtain ⟨rfl, rfl⟩ := Prod.mk.inj (Outcome.pure_eq_ok.1 hpair)
      exact .cons ⟨rfl, hresult⟩ (ih h)

theorem isOk_report (clip : Clip) (r : AssetResult) : (r.report clip).isOk = clip.name.hasText := by
  have hreport : (r.report clip).isOk = true ↔ clip.name.toText.isOk = true := by
    apply Outcome.isOk_bind_of_forall
    intro name
    split <;> exact Outcome.isOk_iff.2 ⟨_, rfl⟩
  rw [Bool.eq_iff_iff, hreport, Value.toText]
  cases clip.name.hasText with
  | false => exact ⟨nofun, nofun⟩
  | true => exact ⟨fun _ => rfl, fun _ => rfl⟩

/-- Nothing goes wrong with clips when each has a result, and a name that can be written. -/
theorem fault_resolveAll_iff :
    (s.resolveAll clips).fault = none ↔
      ∀ clip ∈ clips, (s.resolve clip).isOk = true ∧ clip.name.hasText = true := by
  induction clips with
  | nil => exact ⟨fun _ _ hclip => (List.not_mem_nil hclip).elim, fun _ => rfl⟩
  | cons clip rest ih =>
    have hstep : (do let r ← s.resolve clip; return (r, ← r.report clip) : Except Fault _).isOk = true ↔
        (s.resolve clip).isOk = true ∧ clip.name.hasText = true := by
      rw [Outcome.isOk_bind]
      constructor
      · rintro ⟨r, hr, hreport⟩
        rw [Outcome.isOk_bind_of_forall fun _ => rfl, isOk_report] at hreport
        exact ⟨Outcome.isOk_iff.2 ⟨r, hr⟩, hreport⟩
      · rintro ⟨hok, hname⟩
        obtain ⟨r, hr⟩ := Outcome.isOk_iff.1 hok
        refine ⟨r, hr, ?_⟩
        rwa [Outcome.isOk_bind_of_forall fun _ => rfl, isOk_report]
    rw [List.forall_mem_cons, ← ih, ← hstep]
    rw [resolveAll]
    dsimp only
    cases hcase : (do let r ← s.resolve clip; return (r, ← r.report clip) : Except Fault _) with
    | error e => exact ⟨nofun, fun h => nomatch h.1⟩
    | ok result => exact ⟨fun h => ⟨rfl, h⟩, fun h => h.2⟩

/-- The first clip with an id and the first entry for it belong together. -/
theorem find?_of_results (h : List.Forall₂ s.IsResult clips assets) (hclip : clip ∈ clips) :
    ∃ found entry, clips.find? (·.id = clip.id) = some found ∧
      assets.find? (·.1 = clip.id) = some entry ∧ s.IsResult found entry := by
  induction h with
  | nil => cases hclip
  | @cons first entry clips assets hfirst _ ih =>
    by_cases hid : first.id = clip.id
    · have hentry : entry.1 = clip.id := hfirst.1.trans hid
      exact ⟨first, entry, by simp [hid], by simp [hentry], hfirst⟩
    · have hrest : clip ∈ clips :=
        (List.mem_cons.1 hclip).resolve_left fun heq => hid (heq ▸ rfl)
      obtain ⟨found, entry', hfound, hentry, hresult⟩ := ih hrest
      have hother : entry.1 ≠ clip.id := hfirst.1 ▸ hid
      exact ⟨found, entry', by simp [hid, hfound], by simp [hother, hentry], hresult⟩

/-- What is found for a clip is the result of the last clip with its id. -/
theorem get?_of_results (h : List.Forall₂ s.IsResult clips assets) (hclip : clip ∈ clips) :
    ∃ result, assets.get? clip.id = some result ∧ result.data = s.bytesNamed? clips clip.id ∧
      result.ok = (s.bytesNamed? clips clip.id).isSome := by
  obtain ⟨last, entry, hlast, hentry, -, hresult⟩ :=
    find?_of_results (List.forall₂_reverse_iff.2 h) (List.mem_reverse.2 hclip)
  obtain ⟨hdata, hok⟩ := resolve_eq_ok hresult
  have hbytes : s.bytesNamed? clips clip.id = s.bytes? last.source := by
    simp [bytesNamed?, lastNamed, hlast]
  refine ⟨entry.2, ?_, ?_, ?_⟩
  · rw [Assets.get?, hentry]
    rfl
  · rw [hbytes, hdata]
  · rw [hbytes, hok]

end Shelf

namespace Resolver

variable {σ : Type} {r : Resolver} {s s' : Studio σ} {clips : List Clip} {assets : Assets}

/-- Where a resolver looks for sources in a studio. -/
def shelfIn (r : Resolver) (s : Studio σ) : Shelf :=
  { storage := r.storage, tree := s.tree, web := s.site.web }

theorem fault_of_ends_resolveAll (h : (r.resolveAll clips).Ends s assets s') :
    ((r.shelfIn s).resolveAll clips).fault = none ∧ assets = ((r.shelfIn s).resolveAll clips).assets := by
  obtain ⟨shelf, s₁, hshelf, h⟩ := Session.ends_bind.1 h
  obtain ⟨tree, s₂, htree, hshelf⟩ := Session.ends_bind.1 hshelf
  obtain ⟨site, s₃, hsite, hshelf⟩ := Session.ends_bind.1 hshelf
  obtain ⟨rfl, rfl⟩ := Session.ends_tree.1 htree
  obtain ⟨rfl, rfl⟩ := Session.ends_site.1 hsite
  obtain ⟨rfl, rfl⟩ := Session.ends_pure.1 hshelf
  obtain ⟨-, s₄, -, h⟩ := Session.ends_bind.1 h
  obtain ⟨-, s₅, -, h⟩ := Session.ends_bind.1 h
  split at h
  · exact absurd h Session.ends_throw
  · rename_i hfault
    obtain ⟨rfl, -⟩ := Session.ends_pure.1 h
    exact ⟨hfault, rfl⟩

theorem ends_resolveAll (h : (r.resolveAll clips).Ends s assets s') :
    List.Forall₂ (r.shelfIn s).IsResult clips assets := by
  obtain ⟨hfault, rfl⟩ := fault_of_ends_resolveAll h
  exact Shelf.resolveAll_assets hfault

theorem exists_resolved :
    (∃ assets s', (r.resolveAll clips).Ends s assets s') ↔
      ((r.shelfIn s).resolveAll clips).fault = none := by
  constructor
  · rintro ⟨assets, s', h⟩
    exact (fault_of_ends_resolveAll h).1
  · intro hfault
    obtain ⟨s₁, hrequests⟩ : ∃ s₁, Session.Ends (r.recordRequests
        ((r.shelfIn s).resolveAll clips).requests) s () s₁ := ⟨_, Session.ends_modify.2 rfl⟩
    obtain ⟨s₂, hlines⟩ := Session.exists_ends_forM Session.say_ends
      ((r.shelfIn s).resolveAll clips).lines s₁
    refine ⟨((r.shelfIn s).resolveAll clips).assets, s₂, Session.ends_bind.2 ⟨r.shelfIn s, s, rfl,
      Session.ends_bind.2 ⟨(), s₁, hrequests, Session.ends_bind.2 ⟨(), s₂, hlines, ?_⟩⟩⟩⟩
    rw [hfault]
    exact Session.ends_pure.2 ⟨rfl, rfl⟩

end Resolver

end Montage
