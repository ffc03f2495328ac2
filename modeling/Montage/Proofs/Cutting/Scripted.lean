import Montage.Proofs.Cutting.Playable

/-!
# Clips that the engine cuts

With an engine that loads, and room for the workspaces, every clip of a recording is cut, and the clip
with a number has what the engine leaves in the run with that number (`extract_plays`). Joining these
clips takes one more run when there are several of them, and none when there is one
(`concatenate_answers`).
-/

namespace Montage

open Montage.Graph Session Studio

variable {σ : Type}

/-- Whether a session only ever chats, and then ends. -/
def Session.IsChat (m : Session σ Unit) : Prop := ∀ s, ∃ s', Ends m s () s' ∧ s.Chats s'

theorem Session.say_isChat (message : String) : IsChat (say message : Session σ Unit) := by
  intro s
  obtain ⟨s', hsaid⟩ := say_ends message s
  exact ⟨s', hsaid, (Chats.say message).ends hsaid⟩

theorem Session.present_isChat (f : σ → σ) : IsChat (present f) :=
  fun s => ⟨_, ends_modify.2 rfl, (Chats.present f) s⟩

namespace Cutting

variable {s s₁ s' : Studio σ} {c : Cut} {cuts : List Cut} {outputs : List CutOutput} {start count : Nat}

/-- An output of a clip, with just these data or with none. -/
structure CutOutput.IsOf (o : CutOutput) (c : Cut) (product : Option ByteArray) : Prop where
  cut : o.cut = c
  data : o.data = product
  ok : o.ok = product.isSome

theorem CutOutput.isOf_ofRun {data : Option ByteArray} {result : Except Fault RenderResult}
    (h : Renderer.Answers RenderResult.output data result) (c : Cut) : (ofRun c result).IsOf c data := by
  cases h with
  | result a => exact ⟨rfl, rfl, rfl⟩
  | failure problem logText status => exact ⟨rfl, rfl, rfl⟩

/-- Each clip has what the engine leaves in the run for it, the first of which comes after so many. -/
def AreCut (s : Studio σ) (start : Nat) (cuts : List Cut) (outputs : List CutOutput) : Prop :=
  List.Forall₂ (fun numbered o => o.IsOf numbered.1 (s.product? numbered.2)) (cuts.zipIdx start) outputs

/-- The data of the clips that were cut. -/
def usable (outputs : List CutOutput) : List ByteArray := (outputs.filter (·.ok)).filterMap (·.data)

theorem usable_eq (h : AreCut s start cuts outputs) :
    usable outputs = (List.range' start cuts.length).filterMap s.product? := by
  induction cuts generalizing start outputs with
  | nil =>
    cases h
    rfl
  | cons c rest ih =>
    obtain _ | ⟨hfirst, hrest⟩ := h
    rename_i o outputs
    have hrest := ih hrest
    rw [usable] at hrest ⊢
    rw [List.length_cons, List.range'_succ, List.filterMap_cons, List.filter_cons, hfirst.ok, ← hrest]
    dsimp only
    cases hproduct : s.product? start with
    | none => rfl
    | some data =>
      have hdata : o.data = some data := hfirst.data.trans hproduct
      simp [hdata]

theorem usable_ne_nil (h : outputs.any (·.ok) = true) : usable outputs ≠ [] := by
  obtain ⟨o, ho, hok⟩ := List.any_eq_true.1 h
  obtain ⟨data, hdata⟩ := Option.isSome_iff_exists.1 (Bool.and_eq_true_iff.1 hok).1
  exact List.ne_nil_of_mem (List.mem_filterMap.2 ⟨o, List.mem_filter.2 ⟨ho, hok⟩, hdata⟩)

/-- What joining clips gives, from what the run for it leaves: a single clip stays as it is. -/
def joinedOf (product : Option ByteArray) : List ByteArray → Option ByteArray
  | [] => none
  | [data] => some data
  | _ => product

namespace Extractor

variable {e : Extractor σ} {binary : Value} {source : Option Source} {data : ByteArray}
  {onCut : CutOutput → Session σ Unit}

/-- A recording that can be cut with an engine: its inputs have names that files can have. -/
structure IsScripted (e : Extractor σ) (binary : Value) (source : Option Source)
    (onCut : CutOutput → Session σ Unit) : Prop where
  isQuiet : e.renderer.IsQuiet binary
  compiler_eq : e.compiler = {}
  short : ∀ x ∈ source, x.extension.length ≤ maxExtensionLength
  told : ∀ o, IsChat (onCut o)

/-- Without the recording there is nothing to cut. -/
theorem extract_unfetched {fault : Fault} (hcuts : cuts ≠ [])
    (hfetch : (e.resolver.fetch source).exec s = (.error fault, s')) :
    (e.extract source cuts onCut).exec s = (.error fault, s') := by
  rw [extract, if_neg (by simpa using hcuts), exec_bind, hfetch]

section Scripted

variable (he : e.IsScripted binary source onCut)

include he

/-- Clips that can be announced are cut one after the other. -/
theorem cuts_play (hplayed : e.renderer.HasPlayed s start s₁) (hclocks : ∀ c ∈ cuts, c.HasClock)
    (hload : (s.engineOutcome binary).isOk = true)
    (hroom : s.HasRoom e.renderer.cacheDirectory (start + cuts.length)) (hruns : s.HasLegibleRuns)
    (data : ByteArray) (count : Nat) : ∃ outputs s',
    Ends (cuts.mapM fun c => do
      let output ← e.cutOne source data count c
      onCut output
      return output) s₁ outputs s' ∧
    e.Cuts source data onCut cuts outputs s₁ s' ∧ AreCut s start cuts outputs ∧
    e.renderer.HasPlayed s (start + cuts.length) s' := by
  -- Each clip is one more run that the engine has played, and talk in between changes nothing of that.
  induction cuts generalizing start s₁ with
  | nil => exact ⟨[], s₁, ends_pure.2 ⟨rfl, rfl⟩, .done, .nil, hplayed⟩
  | cons c rest ih =>
    obtain ⟨hfirst, hrest⟩ := List.forall_mem_cons.1 hclocks
    obtain ⟨line, hline⟩ := Outcome.isOk_iff.1 ((isOk_cuttingLine count c).2 hfirst)
    obtain ⟨p, hp⟩ := e.exists_compileCut source c
    obtain ⟨s₂, hannounced, hchat⟩ := say_isChat line s₁
    rw [List.length_cons, Nat.add_comm rest.length, ← Nat.add_assoc] at hroom ⊢
    obtain ⟨result, s₃, hran, hanswers, hplayed₃⟩ := (hplayed.chats hchat).run_plays he.isQuiet
      (isPlayable_compileCut he.compiler_eq he.short hp data) hload (hroom.mono (by omega)) hruns
    obtain ⟨report, s₄, hreported, hcut⟩ :=
      cutOne_ends hline hannounced hp hran fun fault => hanswers.fault_eq
    obtain ⟨s₅, htold, hchat₅⟩ := he.told (.ofRun c result) s₄
    obtain ⟨outputs, s', hends, hcuts, hare, hplayed'⟩ :=
      ih ((hplayed₃.chats ((Chats.say report).ends hreported)).chats hchat₅) hrest hroom
    exact ⟨_, s', cuts_ends_cons hcut htold hends, .cut hannounced hp hran hreported htold hcuts,
      .cons (CutOutput.isOf_ofRun hanswers c) hare, hplayed'⟩

theorem extract_plays (hcuts : cuts ≠ []) (hclocks : ∀ c ∈ cuts, c.HasClock) (hs : s.tree.IsSound)
    (hfree : s.pool.holder = none) (hfetched : Ends (e.resolver.fetch source) s data s₁)
    (hload : (s.engineOutcome binary).isOk = true)
    (hroom : s.HasRoom e.renderer.cacheDirectory cuts.length) (hruns : s.HasLegibleRuns) :
    ∃ outputs s₂ s', Ends (e.extract source cuts onCut) s outputs s' ∧
      Ends (say ("source loaded: " ++ Measure.fileSize data.size)) s₁ () s₂ ∧
      e.Cuts source data onCut cuts outputs s₂ s' ∧ AreCut s 0 cuts outputs ∧
      e.renderer.HasPlayed s cuts.length s' := by
  obtain ⟨s₂, hloaded, hchat⟩ := say_isChat ("source loaded: " ++ Measure.fileSize data.size) s₁
  have hplayed := ((Renderer.HasPlayed.refl (r := e.renderer) hs hfree).chats
    ((Chats.fetch e.resolver source).ends hfetched)).chats hchat
  rw [← Nat.zero_add cuts.length] at hroom
  obtain ⟨outputs, s', hends, hall, hare, hplayed'⟩ :=
    cuts_play he hplayed hclocks hload hroom hruns data cuts.length
  rw [Nat.zero_add] at hplayed'
  refine ⟨outputs, s₂, s', ?_, hloaded, hall, hare, hplayed'⟩
  rw [extract, if_neg (by simpa using hcuts)]
  exact ends_bind.2 ⟨data, s₁, hfetched, ends_bind.2 ⟨(), s₂, hloaded, hends⟩⟩

/-- When the engine does not load, the first clip fails for that reason. -/
theorem extract_unloaded (hcuts : cuts ≠ []) (hclocks : ∀ c ∈ cuts, c.HasClock)
    (hfree : s.pool.holder = none) (hfetched : Ends (e.resolver.fetch source) s data s₁) {fault : Fault}
    (hload : s.engineOutcome binary = .error fault) : ∃ problem s', fault = .engineLoad problem ∧
      (e.extract source cuts onCut).exec s = (.error fault, s') ∧ s.AtRest s' := by
  obtain ⟨problem, rfl⟩ := exists_problem_of_engineOutcome hload
  obtain ⟨c, rest, rfl⟩ := List.exists_cons_of_ne_nil hcuts
  obtain ⟨s₂, hloaded, hchat₂⟩ := say_isChat ("source loaded: " ++ Measure.fileSize data.size) s₁
  obtain ⟨line, hline⟩ :=
    Outcome.isOk_iff.1 ((isOk_cuttingLine (rest.length + 1) c).2 (hclocks c (.head _)))
  obtain ⟨p, hp⟩ := e.exists_compileCut source c
  obtain ⟨s₃, hannounced, hchat₃⟩ := say_isChat line s₂
  have hchat := Chats.trans _ _ _ (Chats.trans _ _ _ ((Chats.fetch e.resolver source).ends hfetched) hchat₂)
    hchat₃
  rw [← hchat.engineOutcome] at hload
  rw [← hchat.pool] at hfree
  obtain ⟨s', hran, hrest⟩ := Renderer.run_unloaded he.isQuiet (missing_filesOf data hp) hfree hload
  refine ⟨problem, s', rfl, ?_, AtRest.trans _ _ _ hchat.toAtRest hrest⟩
  rw [extract, if_neg (by simp), exec_bind, show Session.exec _ s = _ from hfetched]
  dsimp only
  rw [exec_bind, show Session.exec _ s₁ = _ from hloaded]
  dsimp only
  rw [List.mapM_cons, exec_bind, exec_bind, cutOne, List.length_cons, hline, exec_bind, exec_lift]
  dsimp only
  rw [exec_bind, show Session.exec _ s₂ = _ from hannounced, hp]
  dsimp only
  rw [exec_bind, exec_lift]
  dsimp only
  rw [exec_bind, exec_attempt]
  rw [show (e.renderer.run p (p.inputs.map fun i => (i.name, data))).exec s₃ = _ from hran]
  rfl

/-- Clips are joined by the next run, unless there is but one. -/
theorem concatenate_answers (hsome : usable outputs ≠ []) (hmany : outputs.length ≤ maxClips)
    (hs : s.tree.IsSound) (hfree : s.pool.holder = none) (hload : (s.engineOutcome binary).isOk = true)
    (hroom : s.HasRoom e.renderer.cacheDirectory 1) (hruns : s.HasLegibleRuns) : ∃ outcome s',
      (e.concatenate outputs).exec s = (outcome, s') ∧
      Renderer.Answers (fun data => data) (joinedOf (s.product? 0) (usable outputs)) outcome ∧
      (s' = s ∨ e.renderer.HasPlayed s 1 s') := by
  have hlength : (usable outputs).length ≤ maxClips := by
    refine le_trans ?_ hmany
    exact (List.length_filterMap_le _ _).trans (List.length_filter_le _ _)
  have hmatch : (outputs.filter (·.ok)).filterMap (·.data) = usable outputs := rfl
  rw [concatenate, hmatch]
  rcases hdatas : usable outputs with _ | ⟨first, _ | ⟨second, rest⟩⟩
  · exact absurd hdatas hsome
  · exact ⟨.ok first, s, rfl, @Renderer.Answers.result _ (fun data => data) first, .inl rfl⟩
  dsimp only
  rw [hdatas] at hlength
  generalize hpayloads : (first :: second :: rest).zipIdx.map (fun x => (mergeName x.2, x.1)) = payloads
  have hnames : ∀ file ∈ payloads, ∃ index < maxClips, file.1 = mergeName index := by
    intro file hfile
    rw [← hpayloads] at hfile
    obtain ⟨x, hx, rfl⟩ := List.mem_map.1 hfile
    exact ⟨x.2, (List.snd_lt_of_mem_zipIdx hx).trans_le (by simpa using hlength), rfl⟩
  obtain ⟨p, hp⟩ : ∃ p, concat (payloads.map Prod.fst) = .ok p := by
    rw [← hpayloads]
    exact ⟨_, rfl⟩
  obtain ⟨s₁, hsaid, hchat⟩ := say_isChat s!"merging {(first :: second :: rest).length} clips" s
  have hplayed := (Renderer.HasPlayed.refl (r := e.renderer) hs hfree).chats hchat
  obtain ⟨outcome, s', hran, hanswers, hplayed'⟩ := hplayed.run_plays he.isQuiet
    (isPlayable_concat hnames hp) hload hroom hruns
  refine ⟨outcome.map RenderResult.output, s', ?_, hanswers.map, .inr hplayed'⟩
  rw [hp, exec_bind, exec_lift]
  dsimp only
  rw [exec_bind, show Session.exec _ s = _ from hsaid]
  dsimp only
  rw [exec_bind, hran]
  cases outcome <;> rfl

end Scripted

end Extractor

end Cutting

end Montage
