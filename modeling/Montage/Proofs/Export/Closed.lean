import Montage.Proofs.Engine.Installed
import Montage.Proofs.Export.Workspace
import Montage.Proofs.Render.Probing

/-!
# Exports are closed

Whatever media and fonts are found, an export that reaches the engine runs a program on the files that
it names, and none of its steps refuses a file (`exportTimeline_isClosed`).
-/

namespace Montage

open Montage.Graph Session

variable {σ : Type} {s : Studio σ}

theorem say_failsOnly (message : String) :
    FailsOnly Fault.NotRejected (say message : Session σ Unit) s :=
  failsOnly_modify _

namespace Resolver

variable (resolver : Resolver)

theorem resolveAll_failsOnly (clips : List Clip) :
    FailsOnly Fault.NotRejected (resolver.resolveAll clips : Session σ Assets) s := by
  refine failsOnly_bind (failsOnly_tree (failsOnly_site (failsOnly_pure _))) fun shelf _ _ => ?_
  refine failsOnly_bind (failsOnly_modify _) fun _ _ _ => ?_
  refine failsOnly_bind (failsOnly_forM fun line _ _ => say_failsOnly line) fun _ _ _ => ?_
  split
  · rename_i e he
    exact failsOnly_throw (shelf.resolveAll_failsOnly he)
  · exact failsOnly_pure _

theorem font?_failsOnly (name : String) :
    FailsOnly Fault.NotRejected (resolver.font? name : Session σ (Option ByteArray)) s := by
  refine failsOnly_site (failsOnly_tree ?_)
  split
  · exact failsOnly_bind (readFile_failsOnly _) fun _ _ _ => failsOnly_pure _
  · exact failsOnly_bind (say_failsOnly _) fun _ _ _ => failsOnly_pure _

theorem supplyFonts_failsOnly (fonts : List String) (given : Supplied) :
    FailsOnly Fault.NotRejected (supplyFonts resolver fonts given : Session σ Supplied) s := by
  induction fonts generalizing given s with
  | nil => exact failsOnly_pure _
  | cons font rest ih =>
    refine failsOnly_bind (resolver.font?_failsOnly font) fun found _ _ => ?_
    cases found with
    | none => exact ih _
    | some data => exact ih _

end Resolver

theorem prepareExport_failsOnly (compiler : Compiler) (t : Timeline) (quality : Value)
    (resolver : Resolver) :
    FailsOnly Fault.NotRejected
      (prepareExport compiler t quality resolver : Session σ Supplied) s := by
  refine failsOnly_bind (resolver.resolveAll_failsOnly _) fun assets _ _ => ?_
  refine failsOnly_bind (failsOnly_lift fun e he => ?_) fun p _ _ => ?_
  · exact (compile_failsOnly_misuse compiler t quality assets e he).notRejected
  · refine failsOnly_bind (say_failsOnly _) fun _ _ _ => ?_
    exact resolver.supplyFonts_failsOnly _ _

/-! ### Runs of the installed engine -/

namespace Renderer

/-- A driver of the installed engine, to whose progress and lines nobody answers with a rejection. -/
structure IsPlain (r : Renderer σ) : Prop where
  loadEngine_eq : ∃ binary, r.loadEngine = Engine.shared binary
  onProgress_failsOnly : ∀ percent s, FailsOnly Fault.NotRejected (r.onProgress percent) s
  onLine_failsOnly : ∀ line s, FailsOnly Fault.NotRejected (r.onLine line) s

/-- A program that has all its files, under names that the engine takes, and that no rejection keeps from
being printed, however its sounds are dropped. -/
structure HasPlainFiles (p : Program Binary64) (payloads : Payloads) : Prop where
  complete : missing p payloads = []
  written_plain : ∀ file ∈ written p payloads, IsPlainName file.1
  sounds_plain : ∀ i ∈ p.soundInputs, IsPlainName i.name
  output_plain : IsPlainName (outputNameOf p)
  printed : ∀ indices : List Int,
    Outcome.FailsOnly Fault.NotRejected (indices.foldl Program.dropSound p).arguments

variable {r : Renderer σ} {path : Option String} {workspace : String} {p : Program Binary64}
  {payloads : Payloads}

theorem engine_failsOnly (hr : r.IsPlain) : FailsOnly Fault.NotRejected r.loadEngine s := by
  obtain ⟨binary, hload⟩ := hr.loadEngine_eq
  rw [hload]
  exact failsOnly_bind (findEngine_failsOnly binary) fun _ _ _ => failsOnly_pure _

theorem engine_ends (hr : r.IsPlain) {engine : Engine σ} {s' : Studio σ}
    (h : Ends r.loadEngine s engine s') : ∃ path, engine = Engine.installed path := by
  obtain ⟨binary, hload⟩ := hr.loadEngine_eq
  rw [hload] at h
  obtain ⟨path, rfl⟩ := Engine.shared_ends h
  exact ⟨some path, rfl⟩

section

variable (hr : r.IsPlain)

include hr

theorem note_failsOnly (line : String) (s : Studio σ) :
    FailsOnly Fault.NotRejected (r.note line) s :=
  failsOnly_bind (failsOnly_modify _) fun _ s₁ _ => hr.onLine_failsOnly line s₁

theorem advance_failsOnly (fraction : Binary64) (s : Studio σ) :
    FailsOnly Fault.NotRejected (r.advance fraction) s :=
  failsOnly_bind (failsOnly_modify _) fun _ s₁ _ => hr.onProgress_failsOnly _ s₁

theorem dropSilent_failsOnly {inputs : List (InputSpec Binary64)}
    (hnames : ∀ i ∈ inputs, IsPlainName i.name) :
    FailsOnly Fault.NotRejected
      (r.dropSilent (Engine.installed path) workspace inputs p) s := by
  induction inputs generalizing p s with
  | nil => exact failsOnly_pure p
  | cons input rest ih =>
    obtain ⟨hname, hrest⟩ := List.forall_mem_cons.1 hnames
    refine failsOnly_bind (Engine.hasAudio_failsOnly hname) fun answer _ _ => ?_
    cases answer with
    | true => exact ih hrest
    | false =>
      refine failsOnly_bind (failsOnly_modify _) fun _ _ _ => ?_
      exact failsOnly_bind (note_failsOnly hr _ _) fun _ _ _ => ih hrest

theorem ready_failsOnly (hp : HasPlainFiles p payloads) :
    FailsOnly Fault.NotRejected (r.ready (Engine.installed path) workspace p payloads) s := by
  refine failsOnly_bind (failsOnly_forM fun file hfile _ => ?_) fun _ s₁ _ => ?_
  · exact Engine.writeInput_failsOnly (hp.written_plain file hfile) file.2
  refine failsOnly_bind (dropSilent_failsOnly hr hp.sounds_plain) fun p' s₂ hdropped => ?_
  -- What is left are the words of a program without some of its sounds, whichever these are.
  obtain ⟨answers, -, -, rfl⟩ := dropSilent_ends hdropped
  exact failsOnly_bind (failsOnly_lift (hp.printed _)) fun _ _ _ => failsOnly_pure _

omit hr in
theorem executed_failsOnly (status : Int)
    (hname : IsPlainName (outputNameOf p)) :
    FailsOnly Fault.NotRejected (r.executed (Engine.installed path) workspace p status) s := by
  -- A failure of the engine is put together from the lines of the run.
  have hfailure {α : Type} (problem : String) (status : Option Int) (s : Studio σ) :
      FailsOnly Fault.NotRejected (do throw (← r.failure problem status) : Session σ α) s :=
    failsOnly_throw nofun
  have houtput (s : Studio σ) : FailsOnly Fault.NotRejected
      (r.output (Engine.installed path) workspace (outputNameOf p)) s := by
    refine failsOnly_bind failsOnly_attempt fun outcome s₁ hattempt => ?_
    have hread := @Engine.readOutput_failsOnly _ s path workspace _ hname
    rw [FailsOnly, ends_attempt.1 hattempt] at hread
    split
    · exact failsOnly_pure _
    · exact hfailure _ _ s₁
    · exact failsOnly_throw (hread _ rfl)
  unfold executed
  split
  · exact hfailure _ _ s
  · exact failsOnly_bind (houtput s) fun _ _ _ => failsOnly_pure _

theorem execute_failsOnly (hp : HasPlainFiles p payloads) :
    FailsOnly Fault.NotRejected (r.execute (Engine.installed path) workspace p payloads) s := by
  rw [execute_eq]
  refine failsOnly_bind (ready_failsOnly hr hp) fun ⟨p', arguments⟩ s₁ hready => ?_
  refine failsOnly_bind ?_ fun status s₂ _ => ?_
  · exact Engine.execute_failsOnly (advance_failsOnly hr) (note_failsOnly hr)
  · obtain ⟨⟨indices, rfl⟩, -⟩ := ready_ends hready
    refine executed_failsOnly status ?_
    rw [outputNameOf_foldl_dropSound]
    exact hp.output_plain

theorem opened_failsOnly : FailsOnly Fault.NotRejected (r.opened p) s := by
  refine failsOnly_bind (failsOnly_forM fun _ _ => note_failsOnly hr _) fun _ s₁ _ => ?_
  refine failsOnly_bind (engine_failsOnly hr) fun engine s₂ hload => ?_
  obtain ⟨path, rfl⟩ := engine_ends hr hload
  exact failsOnly_bind (Engine.newWorkspace?_failsOnly _) fun _ _ _ => failsOnly_pure _

theorem started_failsOnly (hp : HasPlainFiles p payloads) :
    FailsOnly Fault.NotRejected (r.started p payloads) s := by
  refine failsOnly_bind (opened_failsOnly hr) fun ⟨engine, workspace⟩ s₁ hopened => ?_
  obtain ⟨_, _, hload⟩ := opened_ends hopened
  obtain ⟨path, rfl⟩ := engine_ends hr hload
  refine failsOnly_bind failsOnly_attempt fun outcome s₂ hattempt => ?_
  have houtcome := @execute_failsOnly _ s₁ r path workspace p payloads hr hp
  rw [FailsOnly, ends_attempt.1 hattempt] at houtcome
  refine failsOnly_bind ?_ fun _ _ _ => ?_
  · unfold closed
    split
    · exact failsOnly_tree (failsOnly_site (failsOnly_modify _))
    · exact failsOnly_pure ()
  · refine failsOnly_bind (failsOnly_lift houtcome) fun output s₃ _ => ?_
    exact failsOnly_bind (advance_failsOnly hr _ s₃) fun _ _ _ => failsOnly_pure _

theorem run_failsOnly (hp : HasPlainFiles p payloads) :
    FailsOnly Fault.NotRejected (r.run p payloads) s := by
  refine failsOnly_get (failsOnly_bind (failsOnly_lift ?_) fun pool s₁ _ => ?_)
  · unfold DriverPool.acquire
    split
    · exact .error nofun
    · exact .ok _
  refine failsOnly_bind (failsOnly_modify _) fun _ s₂ _ => ?_
  refine failsOnly_bind failsOnly_attempt fun outcome s₃ hattempt => ?_
  have houtcome : FailsOnly Fault.NotRejected (r.runHolding p payloads) s₂ := by
    rw [runHolding_eq, if_neg (not_not.2 hp.complete)]
    exact failsOnly_bind (failsOnly_modify _) fun _ _ _ => started_failsOnly hr hp
  rw [FailsOnly, ends_attempt.1 hattempt] at houtcome
  exact failsOnly_bind (failsOnly_modify _) fun _ _ _ => failsOnly_lift houtcome

end

end Renderer

section Closed

variable {font? : String → Option ByteArray} {t : Timeline} {x : Supplied}

theorem written_perm (x : Supplied) :
    (Renderer.written x.program x.payloads).Perm x.files :=
  (List.mergeSort_perm x.payloads _).append_right _

/-- Whatever sounds are dropped, a closed program finds its files. -/
theorem hasPlainFiles_of_isClosed
    (h : ∀ indices : List Int, IsClosed font? t x (indices.foldl Program.dropSound x.program)) :
    Renderer.HasPlainFiles x.program x.payloads where
  complete := (h []).complete
  written_plain := fun file hfile => (h []).names_plain file ((written_perm x).mem_iff.1 hfile)
  sounds_plain := by
    intro i hi
    have hname : i.name ∈ x.program.inputs.map (·.name) :=
      List.mem_map_of_mem (List.mem_filter.1 hi).1
    obtain ⟨file, hfile, hname⟩ := List.mem_map.1 (((h []).referenced i.name).2 (.inl hname))
    rw [← hname]
    exact (h []).names_plain file hfile
  output_plain := by
    obtain ⟨e, hencode, hplain, -⟩ := (h []).output
    rw [Renderer.outputNameOf, show x.program.encode = some e from hencode]
    exact hplain
  printed := by
    intro indices fault hfault
    cases htext : (indices.foldl Program.dropSound x.program).hasText with
    | true =>
      obtain ⟨words, hwords, -⟩ := (h indices).printed htext
      rw [hwords] at hfault
      cases hfault
    | false =>
      rw [(h indices).unprinted htext] at hfault
      obtain rfl := Except.error.inj hfault
      intro what hwhat
      cases hwhat

end Closed

/-- Whenever an export reaches the engine, the program that runs there, some of whose sounds may have
been dropped, names the files that were written for it and no others. No export is refused for its
files. -/
theorem exportTimeline_isClosed {r : Renderer σ} (hr : r.IsPlain) (canvas : Canvas) (t : Timeline)
    (quality : Value) (resolver : Resolver) (s : Studio σ) :
    (∀ x s₁, Ends (prepareExport { canvas } t quality resolver) s x s₁ →
      (∀ indices : List Int,
        IsClosed (resolver.fontIn s) t x (indices.foldl Program.dropSound x.program)) ∧
      (Renderer.written x.program x.payloads).Perm x.files ∧
      ∀ engine workspace s₂ p words s₃,
        Ends (r.ready engine workspace x.program x.payloads) s₂ (p, words) s₃ →
        (∃ indices : List Int, p = indices.foldl Program.dropSound x.program) ∧
          p.arguments = .ok words) ∧
    FailsOnly Fault.NotRejected (exportTimeline { canvas } t quality resolver r) s := by
  constructor
  · intro x s₁ hprepared
    exact ⟨prepareExport_isClosed hprepared, written_perm x, fun _ _ _ _ _ _ => Renderer.ready_ends⟩
  · refine failsOnly_bind (prepareExport_failsOnly _ t quality resolver) fun x s₁ hprepared => ?_
    exact Renderer.run_failsOnly hr (hasPlainFiles_of_isClosed (prepareExport_isClosed hprepared))

/-! ### Two fonts, of which one has a file -/

def titledSnapshot : Value := .record [
  ("tracks", .list [.record [("type", "video"),
    ("clips", .list [.record [("storage_path", "a.mp4"), ("duration", .int 2)]])]]),
  ("text_overlays", .list [
    .record [("text", "one"), ("duration", .int 1), ("font", "Sans")],
    .record [("text", "two"), ("duration", .int 2), ("font", "Serif")]])]

def titledStudio : Studio Unit where
  site := { fonts := {} }
  tree := ⟨[(["media"], .directory), (["media", "a.mp4"], .file "video".toUTF8),
    (["fonts"], .directory), (["fonts", "Sans.ttf"], .file "FONT sans".toUTF8)]⟩
  front := ()

def titledResolver : Resolver := { storage := some ⟨"/media"⟩, fontDirectories := ["/fonts"] }

def titledRenderer : Renderer Unit := { loadEngine := Engine.shared "ffmpeg" }

theorem titledSnapshot_isClosed :
    titledRenderer.IsPlain ∧ ∃ t, Timeline.ofValue titledSnapshot = .ok t ∧ ∃ x s₁,
      Ends (prepareExport {} t "medium" titledResolver) titledStudio x s₁ ∧
        x.program.fonts = ["Sans"] ∧ IsClosed (titledResolver.fontIn titledStudio) t x x.program := by
  have hplain : titledRenderer.IsPlain :=
    ⟨⟨_, rfl⟩, fun _ _ => failsOnly_pure (), fun _ _ => failsOnly_pure ()⟩
  have hcheck : (Timeline.ofValue titledSnapshot).toOption.any (fun t =>
      ((prepareExport {} t "medium" titledResolver).exec titledStudio).1.toOption.any fun x =>
        x.program.fonts = ["Sans"]) = true := by
    decide +kernel
  obtain ⟨t, ht, hcheck⟩ := Outcome.exists_ok_of_any hcheck
  obtain ⟨x, hx, hfonts⟩ := Outcome.exists_ok_of_any hcheck
  obtain ⟨s₁, hends⟩ : ∃ s₁, Ends (prepareExport {} t "medium" titledResolver) titledStudio x s₁ :=
    ⟨_, Prod.ext hx rfl⟩
  have hclosed := ((exportTimeline_isClosed hplain {} t "medium" titledResolver titledStudio).1
    x s₁ hends).1
  exact ⟨hplain, t, ht, x, s₁, hends, of_decide_eq_true hfonts, hclosed []⟩

end Montage
