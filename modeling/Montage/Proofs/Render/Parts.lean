import Montage.Proofs.Render.Probing

/-!
# The parts of a run

A run opens a workspace, makes its program ready there, has it executed, and closes the workspace.
Whatever the driver's notes and the engine's actions keep up, each part keeps up.
-/

namespace Montage.Renderer

open Montage.Graph Session

variable {σ : Type} (r : Renderer σ)

/-- The files that a run writes into its workspace, in this order. -/
def written (p : Program Binary64) (payloads : Payloads) : Payloads :=
  payloads.sorted ++ p.sideFiles.map fun file => (file.name, file.data)

def outputNameOf (p : Program Binary64) : String := (p.encode.map (·.outputName)).getD ""

def missing (p : Program Binary64) (payloads : Payloads) : List String :=
  p.payloadNames.filter fun name => (payloads.lookup name).isNone

theorem missing_eq_nil {p : Program Binary64} {payloads : Payloads}
    (h : payloads.map Prod.fst = p.payloadNames) : missing p payloads = [] := by
  refine List.filter_eq_nil_iff.2 fun name hname hnone => ?_
  obtain ⟨file, hfile, rfl⟩ := List.mem_map.1 (h.symm ▸ hname)
  have hne := List.lookup_eq_none_iff.1 (Option.isNone_iff_eq_none.1 hnone) file hfile
  simp at hne

/-- What a run does from its start until it has a workspace. -/
def opened (p : Program Binary64) : Session σ (Engine σ × String) := do
  p.warnings.forM fun warning => r.note ("warning: " ++ warning)
  let engine ← r.loadEngine
  return (engine, ← engine.newWorkspace r.cacheDirectory)

/-- What is done in a workspace before a program runs there: its files are written, and the sounds of
inputs without an audio stream are dropped. What runs is the program that is left. -/
def ready (engine : Engine σ) (workspace : String) (p : Program Binary64) (payloads : Payloads) :
    Session σ (Program Binary64 × List String) := do
  (written p payloads).forM fun (name, data) => engine.writeInput workspace name data
  let p ← r.dropSilent engine workspace p.soundInputs p
  return (p, ← Session.lift p.arguments)

def executed (engine : Engine σ) (workspace : String) (p : Program Binary64) (status : Int) :
    Session σ (ByteArray × String) := do
  if status ≠ 0 then throw (← r.failure s!"engine exited with status {status}" (some status))
  return (← r.output engine workspace (outputNameOf p), outputNameOf p)

def closed (engine : Engine σ) (workspace : String) : Session σ Unit := do
  if !r.keepTemp then engine.removeWorkspace workspace

def concluded (output : ByteArray × String) : Session σ RenderResult := do
  r.advance (.ofInt 1)
  let state ← r.state
  return { output := output.1, outputName := output.2, logText := state.logText,
           progress := state.progress }

theorem execute_eq (engine : Engine σ) (workspace : String) (p : Program Binary64)
    (payloads : Payloads) :
    r.execute engine workspace p payloads = (do
      let (p, arguments) ← r.ready engine workspace p payloads
      let status ← engine.execute workspace arguments (some p.totalDuration) r.advance r.note
      r.executed engine workspace p status) := by
  simp [execute, ready, executed, written, outputNameOf]

/-- What a run does from its start on. -/
def started (p : Program Binary64) (payloads : Payloads) : Session σ RenderResult := do
  let (engine, workspace) ← r.opened p
  let outcome ← attempt (r.execute engine workspace p payloads)
  r.closed engine workspace
  r.concluded (← lift outcome)

theorem runHolding_eq (p : Program Binary64) (payloads : Payloads) :
    r.runHolding p payloads = if missing p payloads ≠ [] then
        throw (.rejected (.missingInputs (missing p payloads)))
      else changePool (·.start r.id) >>= fun _ => r.started p payloads := by
  -- A run that is refused has no continuation, so that the two sides are compared case by case.
  unfold runHolding started opened closed concluded missing
  dsimp only
  by_cases hmissing : p.payloadNames.filter (fun name => (payloads.lookup name).isNone) = []
  · rw [if_neg (by simp [hmissing]), if_neg (by simp [hmissing])]
    cases r.keepTemp <;> simp
  · rw [if_pos (by simpa using hmissing), if_pos hmissing]
    rfl

variable {r : Renderer σ} {engine : Engine σ} {workspace : String} {s s' : Studio σ}
  {p p' : Program Binary64} {payloads : Payloads} {words : List String}

/-! ### What the parts keep up -/

section Respects

variable {R : Studio σ → Studio σ → Prop} (hrefl : ∀ s, R s s)
  (htrans : ∀ s₁ s₂ s₃, R s₁ s₂ → R s₂ s₃ → R s₁ s₃)

include hrefl htrans

theorem opened_respects (hnote : ∀ line, Respects R (r.note line)) (hload : Respects R r.loadEngine)
    (hnew : ∀ {s engine s'}, Ends r.loadEngine s engine s' →
      Respects R (engine.newWorkspace r.cacheDirectory)) :
    Respects R (r.opened p) := by
  refine respects_bind htrans (respects_forM hrefl htrans (fun _ => hnote _) _) fun _ => ?_
  refine respects_bind_of_ends htrans hload fun engine s s₁ hends => ?_
  exact respects_bind htrans (hnew hends) fun _ => respects_pure hrefl _

theorem dropSilent_respects (haudio : ∀ name, Respects R (engine.hasAudio workspace name))
    (hprogram : ∀ p, Respects R (r.setProgram p)) (hnote : ∀ line, Respects R (r.note line))
    (inputs : List (InputSpec Binary64)) (p : Program Binary64) :
    Respects R (r.dropSilent engine workspace inputs p) := by
  induction inputs generalizing p with
  | nil => exact respects_pure hrefl p
  | cons input rest ih =>
    refine respects_bind htrans (haudio input.name) fun answer => ?_
    cases answer with
    | true => exact ih p
    | false =>
      exact respects_bind htrans (hprogram _) fun _ => respects_bind htrans (hnote _) fun _ => ih _

theorem ready_respects (hwrite : ∀ file ∈ written p payloads,
      Respects R (engine.writeInput workspace file.1 file.2))
    (hdrop : ∀ inputs, Respects R (r.dropSilent engine workspace inputs p)) :
    Respects R (r.ready engine workspace p payloads) := by
  refine respects_bind htrans (respects_forM_of_mem hrefl htrans hwrite) fun _ => ?_
  refine respects_bind htrans (hdrop _) fun p' => ?_
  exact respects_bind htrans (respects_lift hrefl _) fun _ => respects_pure hrefl _

theorem executed_respects (hread : ∀ name, Respects R (engine.readOutput workspace name))
    (status : Int) : Respects R (r.executed engine workspace p status) := by
  have hfailure {α : Type} (problem : String) (status : Option Int) :
      Respects R (do throw (← r.failure problem status) : Session σ α) := hrefl
  have houtput (name : String) : Respects R (r.output engine workspace name) := by
    refine respects_bind htrans (respects_attempt (hread name)) fun outcome => ?_
    split
    · exact respects_pure hrefl _
    · exact hfailure _ _
    · exact respects_throw hrefl _
  unfold executed
  split
  · exact hfailure _ _
  · exact respects_bind htrans (houtput _) fun _ => respects_pure hrefl _

omit htrans in
theorem closed_respects (hremove : Respects R (engine.removeWorkspace workspace)) :
    Respects R (r.closed engine workspace) := by
  unfold closed
  split
  · exact hremove
  · exact respects_pure hrefl ()

theorem concluded_respects (hadvance : ∀ fraction, Respects R (r.advance fraction))
    (output : ByteArray × String) : Respects R (r.concluded output) := by
  refine respects_bind htrans (hadvance _) fun _ => ?_
  exact respects_bind htrans (fun s => hrefl s) fun _ => respects_pure hrefl _

end Respects

/-! ### How the parts end -/

theorem opened_ends (h : Ends (r.opened p) s (engine, workspace) s') :
    ∃ s₁ s₂, Ends r.loadEngine s₁ engine s₂ := by
  obtain ⟨⟨⟩, s₁, -, h⟩ := ends_bind.1 h
  obtain ⟨loaded, s₂, hload, h⟩ := ends_bind.1 h
  obtain ⟨opened, s₃, -, h⟩ := ends_bind.1 h
  obtain ⟨heq, -⟩ := ends_pure.1 h
  obtain ⟨rfl, -⟩ := Prod.mk.inj heq
  exact ⟨s₁, s₂, hload⟩

theorem ready_ends (h : Ends (r.ready engine workspace p payloads) s (p', words) s') :
    (∃ indices : List Int, p' = indices.foldl Program.dropSound p) ∧ p'.arguments = .ok words := by
  obtain ⟨⟨⟩, s₁, -, h⟩ := ends_bind.1 h
  obtain ⟨p'', s₂, hdropped, h⟩ := ends_bind.1 h
  obtain ⟨words', s₃, hwords, h⟩ := ends_bind.1 h
  obtain ⟨heq, -⟩ := ends_pure.1 h
  obtain ⟨rfl, rfl⟩ := Prod.mk.inj heq
  obtain ⟨answers, -, -, hp⟩ := dropSilent_ends hdropped
  exact ⟨⟨silentInputs answers, hp⟩, (ends_lift.1 hwords).1⟩

/-- Dropping sounds changes nothing else of a program. -/
theorem foldl_dropSound_rest (indices : List Int) (p : Program Binary64) :
    indices.foldl Program.dropSound p = { p with
      statements := (indices.foldl Program.dropSound p).statements
      sound := (indices.foldl Program.dropSound p).sound
      encode := (indices.foldl Program.dropSound p).encode
      warnings := (indices.foldl Program.dropSound p).warnings } := by
  induction indices generalizing p with
  | nil => rfl
  | cons index indices ih => exact ih (p.dropSound index)

theorem map_outputName_foldl_dropSound (indices : List Int) (p : Program Binary64) :
    (indices.foldl Program.dropSound p).encode.map (·.outputName) =
      p.encode.map (·.outputName) := by
  induction indices generalizing p with
  | nil => rfl
  | cons index indices ih =>
    rw [List.foldl_cons, ih, Program.dropSound]
    dsimp only
    split
    · rw [Option.map_map]
      rfl
    · rfl

theorem outputNameOf_foldl_dropSound (indices : List Int) (p : Program Binary64) :
    outputNameOf (indices.foldl Program.dropSound p) = outputNameOf p := by
  rw [outputNameOf, map_outputName_foldl_dropSound, outputNameOf]

end Montage.Renderer
