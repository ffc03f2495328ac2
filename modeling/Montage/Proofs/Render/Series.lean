import Montage.Proofs.Render.Played

/-!
# Runs in a row

A driver whose runs are played one after the other gets what the engine leaves in each of them, in order
(`HasPlayed.product?_add`). All that a series of runs leaves behind is the directory of its workspaces
and, where they are to be kept, the workspaces themselves.
-/

namespace Montage

open Session Studio FileTree

variable {σ : Type}

/-- The world idles, and so do the drivers of the engine. -/
structure Studio.Chats (s s' : Studio σ) : Prop extends s.Idles s' where
  pool : s'.pool = s.pool

namespace Studio.Chats

theorem refl (s : Studio σ) : s.Chats s := ⟨Idles.refl s, rfl⟩

theorem trans (s₁ s₂ s₃ : Studio σ) (h : s₁.Chats s₂) (h' : s₂.Chats s₃) : s₁.Chats s₃ :=
  ⟨h.toIdles.trans h'.toIdles, h'.pool.trans h.pool⟩

theorem say (message : String) : Respects Chats (Session.say message : Session σ Unit) :=
  say_respects refl trans (fun _ _ => ⟨⟨⟨rfl, rfl, rfl, rfl, rfl⟩, rfl, rfl⟩, rfl⟩)
    (fun _ _ _ => ⟨⟨⟨rfl, rfl, rfl, rfl, rfl⟩, rfl, rfl⟩, rfl⟩)
    fun _ _ => ⟨⟨⟨rfl, rfl, rfl, rfl, rfl⟩, rfl, rfl⟩, rfl⟩

theorem present (f : σ → σ) : Respects Chats (Session.present f) :=
  respects_modify fun _ => ⟨⟨⟨rfl, rfl, rfl, rfl, rfl⟩, rfl, rfl⟩, rfl⟩

theorem fetch (r : Resolver) (source : Option Source) :
    Respects Chats (r.fetch source : Session σ ByteArray) :=
  fun _ => ⟨⟨⟨rfl, rfl, rfl, rfl, rfl⟩, rfl, rfl⟩, rfl⟩

end Studio.Chats

namespace Renderer

variable {r : Renderer σ} {binary : Value} {s s₁ s' : Studio σ} {count : Nat}

/-- Whether a place is in the workspace that is made under a number in a tree, and then kept. -/
def IsKeptAs (r : Renderer σ) (s : Studio σ) (t : FileTree) (number : Nat) (place : List String) : Prop :=
  r.keepTemp = true ∧ ∃ spot,
    t.IsOpening s.site.directory (s.pathOf r.cacheDirectory number) spot ∧ spot <+: place

theorem isKeptAs_congr (r : Renderer σ) (h : s'.site = s.site) : r.IsKeptAs s' = r.IsKeptAs s := by
  funext t number place
  rw [IsKeptAs, IsKeptAs, h, pathOf_congr h]

/-- Whether a place is in a workspace that one of so many runs has kept. -/
def IsKept (r : Renderer σ) (s : Studio σ) (count : Nat) (place : List String) : Prop :=
  ∃ number, s.workspaceCount < number ∧ number ≤ s.workspaceCount + count ∧
    r.IsKeptAs s (s.ground r.cacheDirectory) number place

theorem IsKept.mono {more : Nat} {place : List String} (h : r.IsKept s count place) (hle : count ≤ more) :
    r.IsKept s more place := by
  obtain ⟨number, hlow, hhigh, hkept⟩ := h
  exact ⟨number, hlow, by omega, hkept⟩

/-- What so many runs leave of a tree: the directory of their workspaces, and those that are kept. -/
structure IsLeft (r : Renderer σ) (s : Studio σ) (count : Nat) (t : FileTree) : Prop where
  isSound : t.IsSound
  isExtension : (s.ground r.cacheDirectory).Extends t
  entry?_cases : ∀ place, t.entry? place = FileTree.entry? (s.ground r.cacheDirectory) place ∨
    r.IsKept s count place

/-- So many runs have been played since. -/
structure HasPlayed (r : Renderer σ) (s : Studio σ) (count : Nat) (s' : Studio σ) : Prop where
  site : s'.site = s.site
  runs : s'.runs = s.runs.drop count
  runCount : s'.runCount = s.runCount + count
  workspaceCount : s'.workspaceCount = s.workspaceCount + count
  free : s'.pool.holder = none
  loaded : ∀ binary, (s.engineOutcome binary).isOk = true → (s'.engineOutcome binary).isOk = true
  isSound : s'.tree.IsSound
  isExtension : (s.ground r.cacheDirectory).Extends (s'.ground r.cacheDirectory)
  left : ∀ place, FileTree.entry? (s'.ground r.cacheDirectory) place =
    FileTree.entry? (s.ground r.cacheDirectory) place ∨ r.IsKept s count place
  grounded : count ≠ 0 → s'.ground r.cacheDirectory = s'.tree
  hasRoom : ∀ more, s.HasRoom r.cacheDirectory (count + more) → s'.HasRoom r.cacheDirectory more

namespace Plays

variable {outcome : Except Fault RenderResult} (h : r.Plays s outcome s')

include h

theorem isExtension (hs : s.tree.IsSound) : (s.ground r.cacheDirectory).Extends s'.tree := by
  obtain hsame | ⟨-, place, files, -, hworkspace⟩ := h.left
  · refine ⟨fun place hplace => ?_, fun place target hplace => ?_, fun place data hplace => ?_,
      fun place target hplace => ?_⟩
    · rw [hsame, hplace]
    · rw [hsame, hplace]
    · exact ⟨data, by rw [hsame, hplace]⟩
    · rw [← hsame, hplace]
  · exact hworkspace.isExtension ((s.grows_ground r.cacheDirectory).isSound hs)

theorem isSound (hs : s.tree.IsSound) : s'.tree.IsSound := by
  obtain hsame | ⟨-, place, files, -, hworkspace⟩ := h.left
  · intro place n hn
    rw [hsame] at hn ⊢
    exact (s.grows_ground r.cacheDirectory).isSound hs place n hn
  · exact hworkspace.isSound

/-- There is room for one workspace less. -/
theorem hasRoom (hs : s.tree.IsSound) (hroom : s.HasRoom r.cacheDirectory (count + 1)) :
    s'.HasRoom r.cacheDirectory count := by
  have hcount := h.workspaceCount
  refine hroom.extends (h.isExtension hs) h.site (by omega) (by omega) fun number place hnumber hopening => ?_
  obtain hsame | ⟨-, spot, files, hroomy, hworkspace⟩ := h.left
  · rw [hsame, hopening.free]
  · have hspot : (s.ground r.cacheDirectory).IsOpening s.site.directory
        (s.workspacePath r.cacheDirectory) spot := ⟨hroomy.spot_eq, hworkspace.free, hroomy.room⟩
    rw [hworkspace.outside place (hspot.not_below hroomy.isSound hopening (by omega)), hopening.free]

end Plays

namespace HasPlayed

theorem refl (hs : s.tree.IsSound) (hfree : s.pool.holder = none) : r.HasPlayed s 0 s where
  site := rfl
  runs := rfl
  runCount := rfl
  workspaceCount := rfl
  free := hfree
  loaded _ hok := hok
  isSound := hs
  isExtension := Extends.refl _
  left _ := .inl rfl
  grounded hne := absurd rfl hne
  hasRoom more hroom := by rwa [Nat.zero_add] at hroom

variable (h : r.HasPlayed s count s₁)

include h

theorem chats (hchat : s₁.Chats s') : r.HasPlayed s count s' where
  site := hchat.site.trans h.site
  runs := hchat.runs.trans h.runs
  runCount := hchat.runCount.trans h.runCount
  workspaceCount := hchat.workspaceCount.trans h.workspaceCount
  free := by rw [hchat.pool, h.free]
  loaded binary hok := by rw [hchat.engineOutcome, h.loaded binary hok]
  isSound := hchat.tree ▸ h.isSound
  isExtension := by rw [hchat.ground]; exact h.isExtension
  left place := by rw [hchat.ground]; exact h.left place
  grounded hne := by rw [hchat.ground, hchat.tree, h.grounded hne]
  hasRoom more hroom := (h.hasRoom more hroom).of_atRest hchat.toAtRest

/-- One more run is played. -/
theorem plays (hroom : s.HasRoom r.cacheDirectory (count + 1)) {outcome : Except Fault RenderResult}
    (hplays : r.Plays s₁ outcome s') : r.HasPlayed s (count + 1) s' := by
  have hext := hplays.isExtension h.isSound
  have hground := (ground_of_extends (h.hasRoom 1 hroom).grounded hext hplays.site).2
  refine ⟨hplays.site.trans h.site, ?_, ?_, ?_, hplays.free, fun binary _ =>
    engineOutcome_of_loaded hplays.loaded binary, hplays.isSound h.isSound, ?_, fun place => ?_,
    fun _ => hground, fun more hmore => ?_⟩
  · rw [hplays.runs, h.runs, List.tail_drop]
  · rw [hplays.runCount, h.runCount, Nat.add_assoc]
  · rw [hplays.workspaceCount, h.workspaceCount, Nat.add_assoc]
  · rw [hground]
    exact h.isExtension.trans hext
  · have hbefore := (h.left place).imp_right (·.mono (Nat.le_succ count))
    rw [hground]
    obtain hsame | ⟨hkeep, spot, files, hroomy, hworkspace⟩ := hplays.left
    · rw [hsame]
      exact hbefore
    by_cases hinside : spot <+: place
    · obtain ⟨spot', hopening⟩ := hroom.opening (s.workspaceCount + (count + 1)) (by omega) (by omega)
      have hpath : s₁.workspacePath r.cacheDirectory =
          s.pathOf r.cacheDirectory (s.workspaceCount + (count + 1)) := by
        rw [Studio.workspacePath, Studio.pathOf, h.site, h.workspaceCount, Nat.add_assoc]
      have hspot := hroomy.spot_eq
      rw [hpath, h.site, h.isExtension.spot hopening.spot_eq] at hspot
      obtain rfl : spot' = spot := Except.ok.inj hspot
      exact .inr ⟨_, by omega, le_rfl, hkeep, _, hopening, hinside⟩
    · rw [hworkspace.outside place hinside]
      exact hbefore
  · refine hplays.hasRoom h.isSound (h.hasRoom (more + 1) ?_)
    rwa [Nat.add_assoc, Nat.add_comm 1] at hmore

theorem product?_add (number : Nat) : s₁.product? number = s.product? (count + number) := by
  rw [product?, product?, h.runs, h.runCount, List.drop_drop, Nat.add_assoc s.runCount]

theorem hasLegibleRuns (hruns : s.HasLegibleRuns) : s₁.HasLegibleRuns := by
  intro run hrun
  rw [h.runs] at hrun
  exact hruns run (List.mem_of_mem_drop hrun)

theorem isLeft (hne : count ≠ 0) : r.IsLeft s count s₁.tree := by
  rw [← h.grounded hne]
  refine ⟨?_, h.isExtension, h.left⟩
  rw [h.grounded hne]
  exact h.isSound

end HasPlayed

/-- The next run of a series is played. -/
theorem HasPlayed.run_plays {p : Graph.Program Binary64} {payloads : Payloads}
    (h : r.HasPlayed s count s₁) (hr : r.IsQuiet binary) (hp : IsPlayable p payloads)
    (hload : (s.engineOutcome binary).isOk = true) (hroom : s.HasRoom r.cacheDirectory (count + 1))
    (hruns : s.HasLegibleRuns) : ∃ outcome s', (r.run p payloads).exec s₁ = (outcome, s') ∧
      Answers RenderResult.output (s.product? count) outcome ∧ r.HasPlayed s (count + 1) s' := by
  obtain ⟨loaded, hloaded⟩ := Outcome.isOk_iff.1 (h.loaded binary hload)
  obtain ⟨outcome, s', hrun, hplays⟩ := Renderer.run_plays hr hp h.free hloaded
    (h.hasRoom 1 hroom) h.isSound (h.hasLegibleRuns hruns).headD
  have hanswers := hplays.answers
  rw [h.product?_add 0, Nat.add_zero] at hanswers
  exact ⟨outcome, s', hrun, hanswers, h.plays hroom hplays⟩

end Renderer

end Montage
