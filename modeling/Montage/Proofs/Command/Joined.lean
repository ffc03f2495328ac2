import Montage.Proofs.Command.Written

/-!
# The clips of a request, joined

When some of the clips were cut, they are joined and the whole is written beside them (`writeJoined_ends`).
The workspace of that run is in the way of none of these files.
-/

namespace Montage

open Session Studio FileTree Montage.Path

namespace Command

open Cutting

variable {r : CutRequest} {base : FileTree} {stem : String} {place spot : List String} {count number : Nat}
  {contents : OutputFile → Option ByteArray} {IsScratch : List String → Prop} {s s' : Studio Screen}
  {e : Extractor Screen} {binary : Value} {source : Option Source}
  {onCut : CutOutput → Session Screen Unit} {outputs : List CutOutput} {directory d : String}

/-- A workspace has no line in its name, as each file of a request has. -/
theorem OutputFile.name_ne_workspaceName (f : OutputFile) (stem : String) (number : Nat) :
    f.name stem ≠ Engine.workspaceName number := by
  intro heq
  have hline : '_' ∈ (f.name stem).toList := by simp [name, String.toList_append]
  rw [heq, Engine.toList_workspaceName] at hline
  rcases List.mem_append.1 hline with hfront | hdigit
  · revert hfront
    decide
  · cases Graph.Label.isDigit_of_mem_toDigits hdigit

/-- No file of a request is in a workspace to come. -/
theorem not_below_file (hs : base.IsSound) (hplace : base.entry? place = some .directory)
    (hopening : base.IsOpening directory (join d (Engine.workspaceName number)) spot) (f : OutputFile) :
    ¬ spot <+: place ++ [f.name stem] := by
  obtain ⟨parent, hspot, -⟩ := hopening.exists_parent
  rintro ⟨below, hbelow⟩
  obtain rfl | ⟨front, last, rfl⟩ := List.eq_nil_or_concat below
  · rw [List.append_nil, hspot] at hbelow
    exact f.name_ne_workspaceName stem number (List.append_singleton_inj.1 hbelow).2.symm
  · rw [List.concat_eq_append, ← List.append_assoc] at hbelow
    rw [← (List.append_singleton_inj.1 hbelow).1, hs.entry?_below hopening.free] at hplace
    cases hplace

namespace IsWriting

variable (h : IsWriting base r stem place count contents (fun _ => False) s) (hs : base.IsSound)
  (hplace : base.entry? place = some .directory)

include h hs hplace

theorem isOpening
    (hopening : base.IsOpening directory (join d (Engine.workspaceName number)) spot) :
    s.tree.IsOpening directory (join d (Engine.workspaceName number)) spot := by
  refine ⟨h.isExtension.spot hopening.spot_eq, ?_, hopening.room⟩
  have hother (f : OutputFile) : spot ≠ place ++ [f.name stem] := by
    rintro heq
    have hprefix : spot <+: place ++ [f.name stem] := ⟨[], by rw [List.append_nil, heq]⟩
    exact not_below_file hs hplace hopening f hprefix
  rw [(h.received.rest spot hother).resolve_right id, hopening.free]

variable {cacheDirectory : Option String}
  (hheld : ∀ d, cacheDirectory = some d → s.tree.holds s.site.directory d = true)
  (hopening : base.IsOpening s.site.directory (s.pathOf cacheDirectory (s.workspaceCount + 1)) spot)

include hheld hopening

theorem hasRoom : s.HasRoom cacheDirectory 1 := by
  refine ⟨fun d hd => .inl (hheld d hd), fun number hlow hhigh => ?_⟩
  obtain rfl : number = s.workspaceCount + 1 := by omega
  rw [ground_of_held hheld]
  exact ⟨spot, h.isOpening hs hplace hopening⟩

/-- One more run leaves the files of the request as they are. -/
theorem plays {ρ : Renderer Screen} (hcache : ρ.cacheDirectory = cacheDirectory)
    (hplayed : ρ.HasPlayed s 1 s') : IsWriting base r stem place count contents
      (ρ.IsKeptAs s base (s.workspaceCount + 1)) s' := by
  subst hcache
  have hground := ground_of_held hheld
  obtain ⟨hsound, hext, hleft⟩ := hplayed.isLeft Nat.one_ne_zero
  rw [hground] at hext hleft
  have hkept (p : List String) (hp : ρ.IsKept s 1 p) :
      ρ.IsKeptAs s base (s.workspaceCount + 1) p ∧ spot <+: p := by
    obtain ⟨number, hlow, hhigh, hkeep, spot', hopening', hbelow⟩ := hp
    obtain rfl : number = s.workspaceCount + 1 := by omega
    have hspot := h.isExtension.spot hopening.spot_eq
    rw [← hground, hopening'.spot_eq] at hspot
    obtain rfl : spot' = spot := Except.ok.inj hspot
    exact ⟨⟨hkeep, spot', hopening, hbelow⟩, hbelow⟩
  have hfolder := h.isFolder.mono hext hsound
  rw [← hplayed.site] at hfolder
  refine ⟨hfolder, h.stem_eq, h.isFileName, h.canHold, h.isExtension.trans hext, fun f => ?_,
    fun other hother => ?_⟩
  · rw [← h.received.file f]
    refine (hleft _).resolve_right fun hbelow => ?_
    exact not_below_file hs hplace hopening f (hkept _ hbelow).2
  · obtain hsame | hbelow := hleft other
    · rw [hsame]
      exact .inl ((h.received.rest other hother).resolve_right id)
    · exact .inr (hkept other hbelow).1

end IsWriting

theorem IsWriting.weaken (h : IsWriting base r stem place count contents (fun _ => False) s)
    (IsScratch : List String → Prop) : IsWriting base r stem place count contents IsScratch s :=
  ⟨h.isFolder, h.stem_eq, h.isFileName, h.canHold, h.isExtension, h.received.file,
    fun other hother => .inl ((h.received.rest other hother).resolve_right id)⟩

/-- What the files hold when there is something joined, and when there is not. -/
def withJoined (contents : OutputFile → Option ByteArray) (joined : Option ByteArray) :
    OutputFile → Option ByteArray :=
  match joined with
  | some data => Function.update contents .joined (some data)
  | none => contents

/-- The clips that were cut are joined, and the whole is written if the engine does not fail. -/
theorem IsWriting.writeJoined_ends (h : IsWriting base r stem place count contents (fun _ => False) s)
    (hs : base.IsSound) (hplace : base.entry? place = some .directory)
    (hheld : ∀ d, e.renderer.cacheDirectory = some d → s.tree.holds s.site.directory d = true)
    (hopening : base.IsOpening s.site.directory
      (s.pathOf e.renderer.cacheDirectory (s.workspaceCount + 1)) spot)
    (he : e.IsScripted binary source onCut) (hsome : usable outputs ≠ [])
    (hmany : outputs.length ≤ maxClips) (hfree : s.pool.holder = none)
    (hload : (s.engineOutcome binary).isOk = true) (hruns : s.HasLegibleRuns) : ∃ s',
    Ends (writeJoined r e outputs) s (joinedOf (s.product? 0) (usable outputs)).isSome s' ∧
      IsWriting base r stem place count (withJoined contents (joinedOf (s.product? 0) (usable outputs)))
        (e.renderer.IsKeptAs s base (s.workspaceCount + 1)) s' := by
  obtain ⟨outcome, s₁, hexec, hanswers, hafter⟩ := Extractor.concatenate_answers he hsome hmany
    h.isFolder.isSound hfree hload (h.hasRoom hs hplace hheld hopening) hruns
  have hwriting : IsWriting base r stem place count contents
      (e.renderer.IsKeptAs s base (s.workspaceCount + 1)) s₁ := by
    obtain rfl | hplayed := hafter
    · exact h.weaken _
    · exact h.plays hs hplace hheld hopening rfl hplayed
  generalize joinedOf (s.product? 0) (usable outputs) = joined at hanswers
  have hattempt := ends_attempt.2 hexec
  cases hanswers with
  | result data =>
    obtain ⟨s₂, hwrite, -, hwriting₂⟩ := hwriting.writeFile_ends (f := .joined) trivial data
    obtain ⟨s', hsaid, -, hwriting'⟩ := hwriting₂.say_ends
      s!"wrote {join r.outputDirectory (OutputFile.name stem .joined)} ({Measure.fileSize data.size})"
    exact ⟨s', ends_bind.2 ⟨_, s₁, hattempt, ends_bind.2 ⟨_, s₁, hwriting.outputFile_ends "merged.mp4",
      ends_bind.2 ⟨(), s₂, hwrite, ends_bind.2 ⟨(), s', hsaid, ends_pure.2 ⟨rfl, rfl⟩⟩⟩⟩⟩, hwriting'⟩
  | failure problem logText status =>
    obtain ⟨s', hshown, hchat⟩ := showLine_isChat
      ("merge failed: " ++ (Fault.engineRun problem logText status).report) problemStyle s₁
    exact ⟨s', ends_bind.2 ⟨_, s₁, hattempt, ends_bind.2 ⟨(), s', hshown, ends_pure.2 ⟨rfl, rfl⟩⟩⟩,
      hwriting.chats hchat⟩

end Command

end Montage
