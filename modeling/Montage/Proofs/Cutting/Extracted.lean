import Montage.Proofs.Cutting.Numbered
import Montage.Proofs.Export.Workspace
import Montage.Proofs.Render.Answering

/-!
# Every clip is cut by itself

As long as what comes of a run depends on its program and its files only, what comes of a clip depends
on its two ends (`Extractor.extract_isPointwise`): its place in the list, its number and the other
clips have no part in it. The line that announces a clip has no text for an end that is infinite, and
then no clip of the list is given out.
-/

namespace Montage

open Session

theorem Timecode.isOk_clockText (x : Binary64) :
    (Timecode.clockText x).isOk = true ↔ x ≠ .infinite false := by
  have htext : (Timecode.clockText x).isOk = (Timecode.wholeSeconds x).isOk := by
    rw [Timecode.clockText]
    cases Timecode.wholeSeconds x with
    | error e => rfl
    | ok total =>
      change (if _ then pure _ else pure _ : Except Fault String).isOk = true
      split <;> rfl
  rw [htext]
  cases x with
  | nan => exact iff_of_true rfl nofun
  | infinite negative =>
    cases negative with
    | true => exact iff_of_true rfl nofun
    | false => exact iff_of_false nofun fun hne => hne rfl
  | finite negative units h =>
    refine iff_of_true ?_ nofun
    rw [Timecode.wholeSeconds, Binary64.max]
    split <;> rfl

namespace Cutting

open Montage.Graph

variable {σ : Type}

/-- Whether the ends of a clip can be told in its announcement. -/
def Cut.HasClock (c : Cut) : Prop := c.start ≠ .infinite false ∧ c.finish ≠ .infinite false

instance (c : Cut) : Decidable c.HasClock := inferInstanceAs (Decidable (_ ∧ _))

theorem Extractor.isOk_cuttingLine (count : Nat) (c : Cut) :
    (Extractor.cuttingLine count c).isOk = true ↔ c.HasClock := by
  rw [cuttingLine, Outcome.isOk_bind, Cut.HasClock, ← Timecode.isOk_clockText,
    ← Timecode.isOk_clockText, Outcome.isOk_iff (x := Timecode.clockText c.start)]
  constructor
  · rintro ⟨start, hstart, hrest⟩
    exact ⟨⟨start, hstart⟩, (Outcome.isOk_bind_of_forall fun _ => rfl).1 hrest⟩
  · rintro ⟨⟨start, hstart⟩, hfinish⟩
    exact ⟨start, hstart, (Outcome.isOk_bind_of_forall fun _ => rfl).2 hfinish⟩

/-- What is given out for a clip, from what its run came to. -/
def CutOutput.ofRun (c : Cut) : Except Fault RenderResult → CutOutput
  | .ok result => { cut := c, data := some result.output, logText := result.logText }
  | .error (.engineRun problem logText status) =>
    { cut := c, fault := some (.engineRun problem logText status), logText }
  | .error fault => { cut := c, fault := some fault }

theorem CutOutput.ok_ofRun (c : Cut) (result : Except Fault RenderResult) :
    (CutOutput.ofRun c result).ok = result.isOk := by
  unfold ofRun
  split <;> rfl

/-- The same output, of a clip that may have another number. -/
def CutOutput.IsRenumbered (o o' : CutOutput) : Prop :=
  o' = { o with cut := { o.cut with index := o'.cut.index } }

namespace Extractor

/-- The files of a program whose inputs all have the same data. -/
def filesOf (p : Program Binary64) (data : ByteArray) : Payloads :=
  p.inputs.map fun i => (i.name, data)

variable (e : Extractor σ)
  (run : Program Binary64 → Payloads → Except Fault RenderResult) (source : Option Source)
  (data : ByteArray)

/-- What the clip with these two ends comes to. -/
def resultOf (start finish : Binary64) : Except Fault RenderResult := do
  let p ← e.compileCut source { start, finish }
  run p (filesOf p data)

def outputOf (c : Cut) : CutOutput := .ofRun c (e.resultOf run source data c.start c.finish)

/-- In the studios of a kind, what comes of the programs of clips depends on nothing else, and neither
the lines nor those who are told of a clip get in the way. -/
structure IsSteady (onCut : CutOutput → Session σ Unit) (Calm : Studio σ → Prop) : Prop where
  run_eq : ∀ {s c p} data, Calm s → e.compileCut source c = .ok p →
    ∃ s', (e.renderer.run p (filesOf p data)).exec s = (run p (filesOf p data), s') ∧ Calm s'
  run_fault : ∀ {c p data fault}, e.compileCut source c = .ok p →
    run p (filesOf p data) = .error fault →
    ∃ problem logText status, fault = .engineRun problem logText status
  told : ∀ {s} output, Calm s → ∃ s', Ends (onCut output) s () s' ∧ Calm s'
  said : ∀ {s message s'}, Calm s → Ends (say message) s () s' → Calm s'
  fetched : ∀ {s data s'}, Calm s → Ends (e.resolver.fetch source) s data s' → Calm s'

/-- Clips are cut one after the other: each is announced, its own program runs once, its outcome is
reported, and its output is told once. -/
inductive Cuts (onCut : CutOutput → Session σ Unit) :
    List Cut → List CutOutput → Studio σ → Studio σ → Prop
  | done {s : Studio σ} : Cuts onCut [] [] s s
  | cut {c : Cut} {cuts : List Cut} {outputs : List CutOutput} {p : Program Binary64}
      {line report : String} {result : Except Fault RenderResult} {s s₁ s₂ s₃ s₄ s' : Studio σ}
      (hannounced : Ends (say line) s () s₁) (hcompiled : e.compileCut source c = .ok p)
      (hran : (e.renderer.run p (filesOf p data)).exec s₁ = (result, s₂))
      (hreported : Ends (say report) s₂ () s₃)
      (htold : Ends (onCut (.ofRun c result)) s₃ () s₄)
      (hrest : Cuts onCut cuts outputs s₄ s') :
      Cuts onCut (c :: cuts) (.ofRun c result :: outputs) s s'

section Steady

variable {e run source data} {onCut : CutOutput → Session σ Unit} {Calm : Studio σ → Prop}
  {s s' : Studio σ} {c : Cut} {cuts : List Cut} {count : Nat}

theorem resultOf_eq {p : Program Binary64} (h : e.compileCut source c = .ok p) :
    e.resultOf run source data c.start c.finish = run p (filesOf p data) := by
  have hsame : e.compileCut source { start := c.start, finish := c.finish } = .ok p :=
    (e.compileCut_congr source c rfl rfl).trans h
  rw [resultOf, hsame]
  rfl

/-- A clip that is announced, and whose run gives a result or a failure of the engine, is cut. -/
theorem cutOne_ends {line : String} {p : Program Binary64} {result : Except Fault RenderResult}
    {s₁ s₂ : Studio σ} (hline : cuttingLine count c = .ok line) (hannounced : Ends (say line) s () s₁)
    (hp : e.compileCut source c = .ok p)
    (hran : (e.renderer.run p (filesOf p data)).exec s₁ = (result, s₂))
    (hfault : ∀ fault, result = .error fault →
      ∃ problem logText status, fault = .engineRun problem logText status) :
    ∃ report s₃, Ends (say report) s₂ () s₃ ∧
      Ends (e.cutOne source data count c) s (.ofRun c result) s₃ := by
  have hattempt := ends_attempt.2 hran
  have hstart : (e.cutOne source data count c).exec s = (do
      match ← attempt (e.renderer.run p (filesOf p data)) with
      | .ok result =>
        say s!"clip {c.index}: {Measure.fileSize result.output.size}"
        return { cut := c, data := some result.output, logText := result.logText }
      | .error (.engineRun problem logText status) =>
        say s!"clip {c.index} failed: {problem}"
        return { cut := c, fault := some (.engineRun problem logText status), logText }
      | .error fault => throw fault : Session σ CutOutput).exec s₁ := by
    rw [cutOne, hline, exec_bind, exec_lift]
    dsimp only
    rw [exec_bind, show (say line).exec s = (.ok (), s₁) from hannounced, hp]
    dsimp only
    rw [exec_bind, exec_lift]
    rfl
  cases result with
  | ok result =>
    obtain ⟨s₃, hreport⟩ := say_ends s!"clip {c.index}: {Measure.fileSize result.output.size}" s₂
    exact ⟨_, s₃, hreport, hstart.trans (ends_bind.2 ⟨_, s₂, hattempt, ends_bind.2 ⟨(), s₃, hreport,
      ends_pure.2 ⟨rfl, rfl⟩⟩⟩)⟩
  | error fault =>
    obtain ⟨problem, logText, status, rfl⟩ := hfault fault rfl
    obtain ⟨s₃, hreport⟩ := say_ends s!"clip {c.index} failed: {problem}" s₂
    exact ⟨_, s₃, hreport, hstart.trans (ends_bind.2 ⟨_, s₂, hattempt, ends_bind.2 ⟨(), s₃, hreport,
      ends_pure.2 ⟨rfl, rfl⟩⟩⟩)⟩

/-- When a clip is cut and told of, the others are cut as if they were all. -/
theorem cuts_ends_cons {rest : List Cut} {outputs : List CutOutput} {output : CutOutput}
    {s₁ s₂ : Studio σ} (hcut : Ends (e.cutOne source data count c) s output s₁)
    (htold : Ends (onCut output) s₁ () s₂)
    (hrest : Ends (rest.mapM fun c => do
      let output ← e.cutOne source data count c
      onCut output
      return output) s₂ outputs s') :
    Ends ((c :: rest).mapM fun c => do
      let output ← e.cutOne source data count c
      onCut output
      return output) s (output :: outputs) s' := by
  have hbody : Ends (do
      let output ← e.cutOne source data count c
      onCut output
      return output) s output s₂ :=
    ends_bind.2 ⟨_, s₁, hcut, ends_bind.2 ⟨(), s₂, htold, ends_pure.2 ⟨rfl, rfl⟩⟩⟩
  rw [List.mapM_cons]
  exact ends_bind.2 ⟨_, s₂, hbody, ends_bind.2 ⟨_, s', hrest, ends_pure.2 ⟨rfl, rfl⟩⟩⟩

/-- Clips that can all be announced are all cut. -/
theorem IsSteady.cuts_end (h : e.IsSteady run source onCut Calm) (data : ByteArray) (count : Nat)
    (hclocks : ∀ c ∈ cuts, c.HasClock) (hcalm : Calm s) :
    ∃ s', Ends (cuts.mapM fun c => do
        let output ← e.cutOne source data count c
        onCut output
        return output) s (cuts.map (e.outputOf run source data)) s' ∧
      e.Cuts source data onCut cuts (cuts.map (e.outputOf run source data)) s s' ∧ Calm s' := by
  induction cuts generalizing s with
  | nil => exact ⟨s, ends_pure.2 ⟨rfl, rfl⟩, .done, hcalm⟩
  | cons c rest ih =>
    obtain ⟨hfirst, hrest⟩ := List.forall_mem_cons.1 hclocks
    obtain ⟨line, hline⟩ := Outcome.isOk_iff.1 ((isOk_cuttingLine count c).2 hfirst)
    obtain ⟨p, hp⟩ := e.exists_compileCut source c
    obtain ⟨s₁, hannounced⟩ := say_ends line s
    obtain ⟨s₂, hran, hcalm₂⟩ := h.run_eq data (h.said hcalm hannounced) hp
    obtain ⟨report, s₃, hreported, hcut⟩ :=
      cutOne_ends hline hannounced hp hran fun fault => h.run_fault hp
    have hresult : e.resultOf run source data c.start c.finish = run p (filesOf p data) :=
      resultOf_eq hp
    rw [← hresult] at hran hcut
    obtain ⟨s₄, htold, hcalm₄⟩ := h.told (e.outputOf run source data c) (h.said hcalm₂ hreported)
    obtain ⟨s', hends, hcuts, hcalm'⟩ := ih hrest hcalm₄
    exact ⟨s', cuts_ends_cons hcut htold hends, .cut hannounced hp hran hreported htold hcuts, hcalm'⟩

/-- When the source can be fetched, all clips are cut, provided that they can all be announced. -/
theorem IsSteady.extract_ends (h : e.IsSteady run source onCut Calm) {s₁ : Studio σ}
    (hcuts : cuts ≠ []) (hclocks : ∀ c ∈ cuts, c.HasClock) (hcalm : Calm s)
    (hfetched : Ends (e.resolver.fetch source) s data s₁) :
    ∃ s₂ s', Ends (say ("source loaded: " ++ Measure.fileSize data.size)) s₁ () s₂ ∧
      e.Cuts source data onCut cuts (cuts.map (e.outputOf run source data)) s₂ s' ∧
      Ends (e.extract source cuts onCut) s (cuts.map (e.outputOf run source data)) s' ∧ Calm s' := by
  obtain ⟨s₂, hloaded⟩ := say_ends ("source loaded: " ++ Measure.fileSize data.size) s₁
  obtain ⟨s', hends, hall, hcalm'⟩ :=
    h.cuts_end data cuts.length hclocks (h.said (h.fetched hcalm hfetched) hloaded)
  refine ⟨s₂, s', hloaded, hall, ?_, hcalm'⟩
  rw [extract, if_neg (by simpa using hcuts)]
  exact ends_bind.2 ⟨data, s₁, hfetched, ends_bind.2 ⟨(), s₂, hloaded, hends⟩⟩

/-- Clips that are cut have all been announced. -/
theorem hasClock_of_extract {outputs : List CutOutput}
    (h : Ends (e.extract source cuts onCut) s outputs s') : ∀ c ∈ cuts, c.HasClock := by
  intro c hc
  rw [extract, if_neg (by simpa using List.ne_nil_of_mem hc)] at h
  obtain ⟨data, s₁, -, h⟩ := ends_bind.1 h
  obtain ⟨⟨⟩, s₂, -, h⟩ := ends_bind.1 h
  obtain ⟨s₃, output, s₄, h⟩ := exists_ends_of_mem h hc
  obtain ⟨output, s₅, h, -⟩ := ends_bind.1 h
  obtain ⟨line, s₆, hline, -⟩ := ends_bind.1 h
  rw [← isOk_cuttingLine cuts.length, (ends_lift.1 hline).1]
  rfl

end Steady

end Extractor

namespace Extractor

variable {e : Extractor σ} {run : Program Binary64 → Payloads → Except Fault RenderResult}
  {source : Option Source} {onCut : CutOutput → Session σ Unit} {Calm : Studio σ → Prop}

theorem outputOf_isRenumbered {c c' : Cut} (data : ByteArray) (h : c' = { c with index := c'.index }) :
    (e.outputOf run source data c).IsRenumbered (e.outputOf run source data c') := by
  have hstart : c'.start = c.start := by rw [h]
  have hfinish : c'.finish = c.finish := by rw [h]
  rw [CutOutput.IsRenumbered, outputOf, outputOf, hstart, hfinish]
  cases e.resultOf run source data c.start c.finish with
  | ok result => simpa [CutOutput.ofRun] using h
  | error fault => cases fault <;> simpa [CutOutput.ofRun] using h

/-- Without clips nothing is done. Otherwise the source is fetched, once, and then all clips are cut,
unless one of them has an infinite end: each clip has the output that its own ends give, in order, and
that output is good just when the run for it gives a result. In any accepted order the clips have the
same outputs. -/
theorem extract_isPointwise (h : e.IsSteady run source onCut Calm) :
    (∀ s, (e.extract source [] onCut).exec s = (.ok [], s)) ∧
    ∀ cuts ≠ [], ∀ s data s₁, Calm s → Ends (e.resolver.fetch source) s data s₁ →
      ((∃ outputs s', Ends (e.extract source cuts onCut) s outputs s') ↔ ∀ c ∈ cuts, c.HasClock) ∧
      ∀ outputs s', Ends (e.extract source cuts onCut) s outputs s' →
        outputs = (cuts.map fun c =>
          CutOutput.ofRun c (e.resultOf run source data c.start c.finish)) ∧
        outputs.map (·.ok) = cuts.map (fun c => (e.resultOf run source data c.start c.finish).isOk) ∧
        (∃ s₂, Ends (say ("source loaded: " ++ Measure.fileSize data.size)) s₁ () s₂ ∧
          e.Cuts source data onCut cuts outputs s₂ s') ∧
        ∀ order cuts', reorder cuts order = .ok cuts' → ∀ t t₁, Calm t →
          Ends (e.resolver.fetch source) t data t₁ →
          ∃ outputs' t', Ends (e.extract source cuts' onCut) t outputs' t' ∧
            List.Forall₂ (fun position o' =>
              ∃ o, atPosition? outputs position = some o ∧ o.IsRenumbered o') order outputs' := by
  refine ⟨fun s => rfl, fun cuts hcuts s data s₁ hcalm hfetched => ⟨⟨?_, fun hclocks => ?_⟩, ?_⟩⟩
  · rintro ⟨outputs, s', hends⟩
    exact hasClock_of_extract hends
  · obtain ⟨-, s', -, -, hends, -⟩ := h.extract_ends hcuts hclocks hcalm hfetched
    exact ⟨_, s', hends⟩
  intro outputs s' hends
  have hclocks := hasClock_of_extract hends
  obtain ⟨s₂, s'', hloaded, hall, hends', -⟩ := h.extract_ends hcuts hclocks hcalm hfetched
  obtain ⟨rfl, rfl⟩ : cuts.map (e.outputOf run source data) = outputs ∧ s'' = s' := by
    simpa using hends'.symm.trans hends
  refine ⟨rfl, ?_, ⟨s₂, hloaded, hall⟩, fun order cuts' hreorder t t₁ ht hfetched' => ?_⟩
  · rw [List.map_map]
    exact List.map_congr_left fun c _ => CutOutput.ok_ofRun c _
  · -- The clips in the other order differ from these in their numbers only, which no run depends on.
    obtain ⟨-, hpicked⟩ := reorder_eq_ok hreorder
    have hclocks' : ∀ c' ∈ cuts', c'.HasClock := by
      intro c' hc'
      obtain ⟨position, -, c, hc, hsame⟩ := Outcome.exists_left_of_forall₂ hpicked hc'
      have hclock := hclocks c (mem_of_atPosition? hc)
      rw [hsame]
      exact hclock
    have hcuts' : cuts' ≠ [] := by
      rintro rfl
      exact hcuts (List.eq_nil_of_length_eq_zero (length_of_reorder hreorder).symm)
    obtain ⟨-, t', -, -, hends', -⟩ := h.extract_ends hcuts' hclocks' ht hfetched'
    refine ⟨_, t', hends', List.forall₂_map_right_iff.2 (hpicked.imp fun position c' hpick => ?_)⟩
    obtain ⟨c, hc, hsame⟩ := hpick
    rw [atPosition?_map, hc]
    exact ⟨_, rfl, outputOf_isRenumbered data hsame⟩

/-! ### An engine that knows its answers -/

theorem pool_of_say {message : String} {s s' : Studio σ} (h : Ends (say message) s () s') :
    s'.pool = s.pool := by
  have hkept : Respects (fun s s' : Studio σ => s'.pool = s.pool) (say message) :=
    say_respects (R := fun s s' => s'.pool = s.pool) (fun _ => rfl) (fun _ _ _ h h' => h'.trans h)
      (fun _ _ => rfl) (fun _ _ _ => rfl) fun _ _ => rfl
  exact hkept.ends h

theorem pool_of_fetch {r : Resolver} {data : ByteArray} {s s' : Studio σ}
    (h : Ends (r.fetch source) s data s') : s'.pool = s.pool := by
  have hkept : Respects (fun s s' : Studio σ => s'.pool = s.pool) (r.fetch source) := fun s => rfl
  exact hkept.ends h

theorem missing_filesOf {p : Program Binary64} {cut : Cut} (data : ByteArray)
    (h : e.compileCut source cut = .ok p) : Renderer.missing p (filesOf p data) = [] := by
  apply Renderer.missing_eq_nil
  rw [(Compiled.of_compile h).payloadNames_eq, filesOf, List.map_map]
  rfl

/-- All that is laid out for a clip is its source. -/
theorem placed_timeline (source : Option Source) (hasAudio : Bool) (c : Cut) :
    placed (some [(extractId, { data := some .empty })]) (layers (c.timeline source hasAudio)) =
      (source.map fun x => ⟨0, ⟨.video, c.footage source hasAudio⟩, x⟩).toList := by
  cases source <;> rfl

/-- On the usual canvas the program of a clip can be printed: its clip is not delayed, and no text is in
it. -/
theorem hasText_compileCut (hcompiler : e.compiler = {}) {c : Cut} {p : Program Binary64}
    (h : e.compileCut source c = .ok p) : p.hasText = true := by
  have hcompiled := Compiled.of_compile h
  rw [hcompiler] at hcompiled
  refine hcompiled.hasText (by decide +kernel) (by decide +kernel) (fun q hq delay hdelay => ?_) ?_ ?_
  · rw [placed_timeline, Option.mem_toList, Option.map_eq_some_iff] at hq
    obtain ⟨x, -, rfl⟩ := hq
    have hnone : Timecode.milliseconds (.max .zero .zero) = .ok 0 := by decide +kernel
    obtain rfl := Except.ok.inj (hnone.symm.trans hdelay)
    decide +kernel
  · have hone : (Value.int (1 : Nat)).hasText = true := by decide +kernel
    refine hasText_of_le hone ?_
    rw [← soundLayers_eq, List.length_map, placed_timeline]
    exact (List.length_filter_le _ _).trans Option.length_toList_le
  · intro s hs d hd
    obtain ⟨captions, hcaptions, hdraws, -, -⟩ := hcompiled.draws
    obtain rfl := List.forall₂_nil_left_iff.1 hcaptions
    have hmem : d ∈ p.drawTexts :=
      List.mem_flatMap.2 ⟨s, hs, List.mem_filterMap.2 ⟨_, hd, rfl⟩⟩
    rw [hdraws.drawTexts_eq] at hmem
    cases hmem

/-- With such an engine it is enough that the engine is free. -/
theorem isSteady_of_answering {status : List String → Int} {e : Extractor (List String)}
    (hrenderer : e.renderer = .answering status) (hcompiler : e.compiler = {})
    {onCut : CutOutput → Session (List String) Unit}
    (htold : ∀ {s} output, s.pool.holder = none →
      ∃ s', Ends (onCut output) s () s' ∧ s'.pool.holder = none) :
    e.IsSteady (Renderer.answerTo status) source onCut fun s => s.pool.holder = none where
  run_eq := by
    intro s c p data hfree hp
    obtain ⟨encode, hencode, -⟩ := (Compiled.of_compile hp).encode_eq
    rw [hrenderer]
    exact Renderer.run_answering hfree (missing_filesOf data hp)
      (Program.arguments_eq hencode (Compiled.of_compile hp).no_gate (hasText_compileCut hcompiler hp))
  run_fault := by
    intro c p data fault hp hfault
    obtain ⟨encode, hencode, -⟩ := (Compiled.of_compile hp).encode_eq
    obtain ⟨words, hwords⟩ : ∃ words, p.arguments = .ok words :=
      ⟨_, Program.arguments_eq hencode (Compiled.of_compile hp).no_gate
        (hasText_compileCut hcompiler hp)⟩
    rw [Renderer.answerTo, hwords] at hfault
    change (if status words ≠ 0 then _ else _) = _ at hfault
    split at hfault
    · exact ⟨_, _, _, (Except.error.inj hfault).symm⟩
    · cases hfault
  told := htold
  said := fun hfree hsaid => by rw [pool_of_say hsaid, hfree]
  fetched := fun hfree hfetched => by rw [pool_of_fetch hfetched, hfree]

/-! ### A recording of which one clip takes three seconds -/

def talkExtractor : Extractor (List String) where
  renderer := .answering fun words => if words.contains "3.000" then 1 else 0
  resolver := { storage := some ⟨"/media"⟩ }

def talkSource : Option Source := some ⟨.null, "talk.mp4", "video/mp4"⟩

def talkStudio : Studio (List String) where
  tree := ⟨[(["media"], .directory), (["media", "talk.mp4"], .file "recording".toUTF8)]⟩
  front := []

def talkCuts : List Cut := [
  { start := 1, finish := 3, index := 1 }, { start := 4, finish := 7, index := 2 },
  { start := 8, finish := 9, index := 3 }]

theorem talkSource_fetched : ∃ s, Ends (talkExtractor.resolver.fetch talkSource) talkStudio
    "recording".toUTF8 s := by
  have hcheck : ((talkExtractor.resolver.fetch talkSource).exec talkStudio).1.toOption.any
      (· = "recording".toUTF8) = true := by
    decide +kernel
  obtain ⟨data, hdata, heq⟩ := Outcome.exists_ok_of_any hcheck
  obtain rfl := of_decide_eq_true heq
  exact ⟨_, Prod.ext hdata rfl⟩

def sayDone (output : CutOutput) : Session (List String) Unit :=
  say s!"{output.cut.index}: {output.ok}"

theorem talkExtractor_isSteady : talkExtractor.IsSteady
    (Renderer.answerTo fun words => if words.contains "3.000" then 1 else 0) talkSource sayDone
    fun s => s.pool.holder = none :=
  isSteady_of_answering rfl rfl fun output hfree => by
    obtain ⟨s', hsaid⟩ := say_ends s!"{output.cut.index}: {output.ok}" _
    exact ⟨s', hsaid, by rw [pool_of_say hsaid, hfree]⟩

theorem talkCuts_extracted : ∃ outputs s' cuts' outputs' t',
    Ends (talkExtractor.extract talkSource talkCuts sayDone) talkStudio outputs s' ∧
    outputs.map (·.ok) = [true, false, true] ∧ reorder talkCuts [3, 1, 2] = .ok cuts' ∧
    Ends (talkExtractor.extract talkSource cuts' sayDone) talkStudio outputs' t' ∧
    List.Forall₂ (fun position o' =>
      ∃ o, atPosition? outputs position = some o ∧ o.IsRenumbered o') [3, 1, 2] outputs' := by
  obtain ⟨s₁, hfetched⟩ := talkSource_fetched
  obtain ⟨hiff, hall⟩ := (extract_isPointwise talkExtractor_isSteady).2 talkCuts nofun talkStudio
    "recording".toUTF8 s₁ rfl hfetched
  have hclocks : ∀ c ∈ talkCuts, c.HasClock := by decide +kernel
  obtain ⟨outputs, s', hends⟩ := hiff.2 hclocks
  obtain ⟨-, hok, -, hreordered⟩ := hall outputs s' hends
  obtain ⟨cuts', hcuts'⟩ : ∃ cuts', reorder talkCuts [3, 1, 2] = .ok cuts' := ⟨_, rfl⟩
  obtain ⟨outputs', t', hends', hsame⟩ := hreordered _ cuts' hcuts' talkStudio s₁ rfl hfetched
  refine ⟨outputs, s', cuts', outputs', t', hends, ?_, hcuts', hends', hsame⟩
  rw [hok]
  decide +kernel

/-- A clip without an end keeps the others from being given out. -/
theorem endlessCut_not_extracted :
    talkExtractor.IsSteady (Renderer.answerTo fun words => if words.contains "3.000" then 1 else 0)
      talkSource sayDone (fun s => s.pool.holder = none) ∧
    talkStudio.pool.holder = none ∧
    (∃ s, Ends (talkExtractor.resolver.fetch talkSource) talkStudio "recording".toUTF8 s) ∧
    ¬ ∃ outputs s', Ends (talkExtractor.extract talkSource
      (talkCuts ++ [{ start := 8, finish := .infinite false, index := 4 }]) sayDone)
      talkStudio outputs s' := by
  refine ⟨talkExtractor_isSteady, rfl, talkSource_fetched, ?_⟩
  rintro ⟨outputs, s', hends⟩
  exact (hasClock_of_extract hends _ (List.mem_append_right _ (List.mem_singleton_self _))).2 rfl

end Extractor

end Cutting

end Montage
