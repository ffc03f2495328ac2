import Montage.Proofs.Command.Requested
import Montage.Proofs.Cutting.Scripted
import Montage.Proofs.Files.Folders

/-!
# The files of a request

Each clip that was cut is written under its number, with its subtitles beside it when they are asked for
(`writeCuts_end`). The names of these files are all different, so that none is written over another.
-/

namespace Montage

open Session Studio FileTree Montage.Path

variable {σ : Type}

/-! ### Sessions that write files -/

/-- All that has happened is that files were written. -/
def Studio.OnlyWrites (s s' : Studio σ) : Prop := ({ s with tree := s'.tree } : Studio σ).Chats s'

namespace Studio.OnlyWrites

theorem of_chats {s s' : Studio σ} (h : s.Chats s') : s.OnlyWrites s' :=
  ⟨⟨⟨rfl, h.site, h.runs, h.runCount, h.workspaceCount⟩, h.engine, h.versions⟩, h.pool⟩

theorem trans {s₁ s₂ s₃ : Studio σ} (h : s₁.OnlyWrites s₂) (h' : s₂.OnlyWrites s₃) : s₁.OnlyWrites s₃ where
  tree := rfl
  site := h'.site.trans h.site
  runs := h'.runs.trans h.runs
  runCount := h'.runCount.trans h.runCount
  workspaceCount := h'.workspaceCount.trans h.workspaceCount
  engine := h'.engine.trans h.engine
  versions := h'.versions.trans h.versions
  pool := h'.pool.trans h.pool

end Studio.OnlyWrites

theorem Session.writeFile_ends {s : Studio σ} {path n : String} {place : List String}
    (h : s.tree.IsFolder s.site.directory path place) (hn : IsFileName n)
    (hcan : s.tree.CanHold (place ++ [n])) (data : ByteArray) : ∃ s',
      Ends (writeFile (join path n) data) s () s' ∧ s.OnlyWrites s' ∧
      s'.tree = s.tree.insert (place ++ [n]) (.file data) ∧ s.tree.Extends s'.tree ∧
      s'.tree.IsFolder s'.site.directory path place := by
  obtain ⟨t, hwrite, ht, hext, hfolder⟩ := h.exists_writeFile hn hcan data
  refine ⟨{ s with tree := t }, ?_, Chats.refl _, ht, hext, hfolder⟩
  rw [Ends, exec_writeFile, hwrite]

namespace Command

open Cutting

theorem showLine_isChat (text : String) (style : Option String) : IsChat (showLine text style) :=
  present_isChat _

/-! ### Names -/

/-- A file of a request: a clip or its subtitles, by the place of the clip, or all clips joined. -/
inductive OutputFile where
  | clip (place : Nat)
  | subtitles (place : Nat)
  | joined
  deriving DecidableEq

namespace OutputFile

def ending : OutputFile → String
  | clip place => s!"{place + 1}.mp4"
  | subtitles place => s!"{place + 1}.srt"
  | joined => "merged.mp4"

def name (stem : String) (f : OutputFile) : String := stem ++ "_" ++ f.ending

/-- The files of a request with so many clips. -/
def IsAmong (count : Nat) : OutputFile → Prop
  | clip place => place < count
  | subtitles place => place < count
  | joined => True

/-- The number that an ending begins with, and what comes behind it. -/
def readEnding (ending : String) : Nat × List Char :=
  (Graph.Label.readNumber (ending.toList.takeWhile Char.isDigit), ending.toList.dropWhile Char.isDigit)

theorem readEnding_numbered (n : Nat) {rest : String} {cs : List Char} (hrest : rest.toList = '.' :: cs) :
    readEnding (toString n ++ rest) = (n, '.' :: cs) := by
  have hpoint : '.'.isDigit = false := rfl
  have hdigits : (toString n).toList = Nat.toDigits 10 n := by
    have hlist := Graph.Label.toList_numbered "" n
    rwa [show toString "" ++ toString n = toString n from String.empty_append] at hlist
  rw [readEnding, String.toList_append, hdigits, hrest, (Graph.Label.span_toDigits n hpoint cs).1,
    (Graph.Label.span_toDigits n hpoint cs).2, Graph.Label.readNumber_toDigits]

theorem name_injective (stem : String) : Function.Injective (name stem) := by
  intro f g h
  have hlist := congrArg String.toList h
  simp only [name, String.toList_append] at hlist
  have hread := congrArg readEnding (String.toList_inj.1 (List.append_cancel_left hlist))
  have hclip (place : Nat) : readEnding (clip place).ending = (place + 1, ".mp4".toList) :=
    readEnding_numbered (place + 1) rfl
  have hsubtitles (place : Nat) : readEnding (subtitles place).ending = (place + 1, ".srt".toList) :=
    readEnding_numbered (place + 1) rfl
  have hjoined : readEnding joined.ending = (0, "merged.mp4".toList) := rfl
  cases f <;> cases g <;> simp [hclip, hsubtitles, hjoined] at hread ⊢
  all_goals exact hread

end OutputFile

/-! ### Contents -/

/-- The text of the subtitles of the clip at a place. -/
def subtitlesAt? (r : CutRequest) (cuts : List Cut) (place : Nat) : Option ByteArray :=
  (cuts[place]?).bind fun c => (subtitles (c.cues r.transcript)).toOption.map (·.toUTF8)

theorem isSome_subtitlesAt? {r : CutRequest} {cuts : List Cut}
    (hstamps : ∀ c ∈ cuts, c.HasStamps r.transcript) {place : Nat} (hplace : place < cuts.length) :
    (subtitlesAt? r cuts place).isSome = true := by
  obtain ⟨text, htext⟩ := Outcome.isOk_iff.1 (isOk_subtitles.2 (hstamps _ (List.getElem_mem hplace)))
  rw [subtitlesAt?, List.getElem?_eq_getElem hplace, Option.bind_some, htext]
  rfl

/-- What the files of the first clips hold, given what the engine made of them. -/
def clipContents (r : CutRequest) (cuts : List Cut) (product? : Nat → Option ByteArray) (count : Nat) :
    OutputFile → Option ByteArray
  | .clip place => if place < count then product? place else none
  | .subtitles place =>
    if place < count ∧ r.subtitles = true ∧ (product? place).isSome = true then subtitlesAt? r cuts place
    else none
  | .joined => none

variable {r : CutRequest} {cuts : List Cut} {product? : Nat → Option ByteArray} {count : Nat}

theorem clipContents_zero : clipContents r cuts product? 0 = fun _ => none := by
  funext f
  cases f <;> simp [clipContents]

theorem clipContents_failed (h : product? count = none) :
    clipContents r cuts product? (count + 1) = clipContents r cuts product? count := by
  funext f
  cases f with
  | joined => rfl
  | clip place | subtitles place =>
    by_cases heq : place = count
    · simp [clipContents, heq, h]
    · have hlt : place < count + 1 ↔ place < count := by omega
      simp [clipContents, hlt]

theorem clipContents_written {data : ByteArray} (h : product? count = some data) :
    clipContents r cuts product? (count + 1) =
      let contents := Function.update (clipContents r cuts product? count) (.clip count) (some data)
      if r.subtitles then Function.update contents (.subtitles count) (subtitlesAt? r cuts count)
      else contents := by
  funext f
  cases f with
  | joined => split <;> simp [clipContents, Function.update]
  | clip place =>
    by_cases heq : place = count
    · split <;> simp [clipContents, heq, h, Function.update]
    · have hlt : place < count + 1 ↔ place < count := by omega
      split <;> simp [clipContents, hlt, heq, Function.update]
  | subtitles place =>
    by_cases heq : place = count
    · split <;> simp_all [clipContents]
    · have hlt : place < count + 1 ↔ place < count := by omega
      split <;> simp_all [clipContents]

/-! ### Writing -/

/-- A folder that can take the files of a request, and what it has received of them. -/
structure IsWriting (base : FileTree) (r : CutRequest) (stem : String) (place : List String) (count : Nat)
    (contents : OutputFile → Option ByteArray) (IsScratch : List String → Prop) (s : Studio Screen) :
    Prop where
  isFolder : s.tree.IsFolder s.site.directory r.outputDirectory place
  stem_eq : r.stem = .text stem
  isFileName : ∀ f, OutputFile.IsAmong count f → IsFileName (f.name stem)
  canHold : ∀ f, OutputFile.IsAmong count f → base.CanHold (place ++ [f.name stem])
  isExtension : base.Extends s.tree
  received : base.Receives place (OutputFile.name stem) contents IsScratch s.tree

namespace IsWriting

variable {base : FileTree} {stem : String} {place : List String} {contents : OutputFile → Option ByteArray}
  {IsScratch : List String → Prop} {s s' : Studio Screen}
  (h : IsWriting base r stem place count contents IsScratch s)

include h

theorem chats (hchat : s.Chats s') : IsWriting base r stem place count contents IsScratch s' := by
  refine ⟨?_, h.stem_eq, h.isFileName, h.canHold, ?_, ?_⟩
  · rw [hchat.tree, hchat.site]
    exact h.isFolder
  · rw [hchat.tree]
    exact h.isExtension
  · rw [hchat.tree]
    exact h.received

theorem outputFile_ends (ending : String) :
    Ends (outputFile r ending) s (join r.outputDirectory (stem ++ "_" ++ ending)) s := by
  rw [outputFile, h.stem_eq]
  rfl

theorem writeFile_ends {f : OutputFile} (hf : f.IsAmong count) (data : ByteArray) : ∃ s',
    Ends (Session.writeFile (join r.outputDirectory (f.name stem)) data) s () s' ∧ s.OnlyWrites s' ∧
      IsWriting base r stem place count (Function.update contents f (some data)) IsScratch s' := by
  obtain ⟨s', hwrite, honly, htree, hext, hfolder⟩ := Session.writeFile_ends h.isFolder
    (h.isFileName f hf) (h.received.canHold (h.canHold f hf)) data
  refine ⟨s', hwrite, honly, hfolder, h.stem_eq, h.isFileName, h.canHold, h.isExtension.trans hext, ?_⟩
  rw [htree]
  exact h.received.insert (OutputFile.name_injective stem) f data

theorem say_ends (message : String) : ∃ s', Ends (say message) s () s' ∧ s.OnlyWrites s' ∧
    IsWriting base r stem place count contents IsScratch s' := by
  obtain ⟨s', hsaid, hchat⟩ := say_isChat message s
  exact ⟨s', hsaid, .of_chats hchat, h.chats hchat⟩

theorem writeSubtitles_ends {c : Cut} {k : Nat} (hk : k < count) (hindex : c.index = Int.ofNat (k + 1))
    (hcut : cuts[k]? = some c) (hstamps : c.HasStamps r.transcript) : ∃ s',
    Ends (writeSubtitles r c) s () s' ∧ s.OnlyWrites s' ∧ IsWriting base r stem place count
      (Function.update contents (.subtitles k) (subtitlesAt? r cuts k)) IsScratch s' := by
  obtain ⟨text, htext⟩ := Outcome.isOk_iff.1 (isOk_subtitles.2 hstamps)
  obtain ⟨s₁, hwrite, honly, hwriting⟩ :=
    h.writeFile_ends (f := .subtitles k) hk text.toUTF8
  obtain ⟨s', hsaid, honly', hwriting'⟩ := hwriting.say_ends (let cues := c.cues r.transcript
    s!"wrote {join r.outputDirectory (OutputFile.name stem (.subtitles k))} ({cues.length} cues)")
  have hcontents : subtitlesAt? r cuts k = some text.toUTF8 := by
    rw [subtitlesAt?, hcut, Option.bind_some, htext]
    rfl
  refine ⟨s', ?_, honly.trans honly', hcontents ▸ hwriting'⟩
  have hfile := h.outputFile_ends s!"{c.index}.srt"
  rw [hindex] at hfile
  rw [writeSubtitles, hindex, htext]
  exact ends_bind.2 ⟨_, s, hfile, ends_bind.2 ⟨text, s, ends_lift.2 ⟨rfl, rfl⟩,
    ends_bind.2 ⟨(), s₁, hwrite, hsaid⟩⟩⟩

/-- A clip that was cut is written, and one that failed is not. -/
theorem writeCut_ends {c : Cut} {o : CutOutput} {k : Nat} (hk : k < count)
    (hindex : c.index = Int.ofNat (k + 1)) (hcut : cuts[k]? = some c)
    (hstamps : r.subtitles = true → c.HasStamps r.transcript) (ho : o.IsOf c (product? k))
    (hplain : ReadsPlain s.site) (hcontents : contents = clipContents r cuts product? k) : ∃ s',
    Ends (writeCut r o) s () s' ∧ s.OnlyWrites s' ∧ IsWriting base r stem place count
      (clipContents r cuts product? (k + 1)) IsScratch s' := by
  subst hcontents
  obtain ⟨hocut, hdata, hok⟩ := ho
  rw [writeCut, hok, hdata, hocut]
  cases hproduct : product? k with
  | none =>
    have htext : IsPlain s!"clip {c.index} failed" :=
      .append (.append (s := "clip ") (by decide) (.integer c.index)) (by decide)
    have hshown := showMarkup_line_ends hplain htext problemStyle
    have hchat := Chats.present (σ := Screen) (·.print (.line s!"clip {c.index} failed" problemStyle)) s
    rw [clipContents_failed hproduct]
    exact ⟨_, hshown, .of_chats hchat, h.chats hchat⟩
  | some data =>
    obtain ⟨s₁, hwrite, honly, hwriting⟩ := h.writeFile_ends (f := .clip k) hk data
    obtain ⟨s₂, hsaid, honly₂, hwriting₂⟩ := hwriting.say_ends
      ("wrote " ++ join r.outputDirectory (OutputFile.name stem (.clip k)))
    have hfile := h.outputFile_ends s!"{c.index}.mp4"
    rw [hindex] at hfile
    have hclip (rest : Session Screen Unit) {s' : Studio Screen} (hrest : Ends rest s₂ () s') :
        Ends (do
          let file ← outputFile r s!"{c.index}.mp4"
          Session.writeFile file data
          Session.say ("wrote " ++ file)
          rest) s () s' := by
      rw [hindex]
      exact ends_bind.2 ⟨_, s, hfile, ends_bind.2 ⟨(), s₁, hwrite, ends_bind.2 ⟨(), s₂, hsaid, hrest⟩⟩⟩
    rw [clipContents_written hproduct]
    dsimp only
    by_cases hsubtitles : r.subtitles = true
    · obtain ⟨s', hrest, honly', hwriting'⟩ :=
        hwriting₂.writeSubtitles_ends hk hindex hcut (hstamps hsubtitles)
      rw [if_pos hsubtitles, if_pos hsubtitles]
      exact ⟨s', hclip _ hrest, (honly.trans honly₂).trans honly', hwriting'⟩
    · rw [if_neg hsubtitles, if_neg hsubtitles]
      exact ⟨s₂, hclip _ (ends_pure.2 ⟨rfl, rfl⟩), honly.trans honly₂, hwriting₂⟩

/-- The clips are written one after the other. -/
theorem writeCuts_end {left : List Cut} {outputs : List CutOutput} {start : Nat}
    (hcuts : ∀ numbered ∈ left.zipIdx start, cuts[numbered.2]? = some numbered.1 ∧
      numbered.1.index = Int.ofNat (numbered.2 + 1))
    (hcount : start + left.length = count)
    (hstamps : r.subtitles = true → ∀ c ∈ left, c.HasStamps r.transcript)
    (houtputs : List.Forall₂ (fun numbered o => o.IsOf numbered.1 (product? numbered.2))
      (left.zipIdx start) outputs)
    (hplain : ReadsPlain s.site) (hcontents : contents = clipContents r cuts product? start) : ∃ s',
    Ends (outputs.forM (writeCut r)) s () s' ∧ s.OnlyWrites s' ∧ IsWriting base r stem place count
      (clipContents r cuts product? count) IsScratch s' := by
  induction left generalizing s start outputs contents with
  | nil =>
    obtain _ | _ := houtputs
    rw [List.length_nil, Nat.add_zero] at hcount
    subst hcount hcontents
    exact ⟨s, ends_pure.2 ⟨rfl, rfl⟩, .of_chats (Chats.refl s), h⟩
  | cons c rest ih =>
    rw [List.zipIdx_cons] at hcuts houtputs
    rw [List.length_cons] at hcount
    obtain ⟨⟨hcut, hindex⟩, hrest⟩ := List.forall_mem_cons.1 hcuts
    obtain _ | ⟨ho, houtputs⟩ := houtputs
    obtain ⟨s₁, hfirst, honly, hwriting⟩ := h.writeCut_ends (by omega) hindex hcut
      (fun hsubtitles => hstamps hsubtitles c (.head rest)) ho hplain hcontents
    obtain ⟨s', hmore, honly', hwriting'⟩ := ih hwriting hrest (by omega)
      (fun hsubtitles d hd => hstamps hsubtitles d (.tail c hd)) houtputs (honly.site ▸ hplain) rfl
    exact ⟨s', ends_bind.2 ⟨(), s₁, hfirst, hmore⟩, honly.trans honly', hwriting'⟩

end IsWriting

end Command

end Montage
