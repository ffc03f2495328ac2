import Montage.Proofs.Cutting.Extracted
import Montage.Proofs.Render.Series

/-!
# Programs for clips that can be run

The program of a clip, and the one that joins clips, can be run wherever there is room
(`isPlayable_compileCut`, `isPlayable_concat`): all their files are there, and have names that files can
have, as long as the extension of the recording is not too long and there are not too many clips.
-/

namespace Montage

open Montage.Graph Session Studio FileTree Montage.Path

/-! ### The names of files -/

namespace FileTree

/-- Whether a character may stand anywhere in the name of a file. -/
def isFileChar (c : Char) : Bool := c.isAlphanum || c = '.' || c = '_'

theorem isFileChar_cases {c : Char} (h : isFileChar c = true) :
    c.isAlpha = true ∨ c.isDigit = true ∨ c = '.' ∨ c = '_' := by
  simpa only [isFileChar, Char.isAlphanum, Bool.or_eq_true, decide_eq_true_eq, or_assoc] using h

theorem bounds_of_isFileChar {c : Char} (h : isFileChar c = true) :
    c.utf8Size = 1 ∧ c ≠ '/' ∧ c ≠ '\x00' := by
  refine ⟨?_, ?_, ?_⟩
  · have hval : c.val ≤ 127 := by
      rcases isFileChar_cases h with hletter | hdigit | rfl | rfl
      · rcases Bool.or_eq_true_iff.1 hletter with hupper | hlower
        · exact UInt32.le_trans (of_decide_eq_true hupper).2 (by decide)
        · exact UInt32.le_trans (of_decide_eq_true (Bool.and_eq_true_iff.1 hlower).2) (by decide)
      · exact UInt32.le_trans (of_decide_eq_true (Bool.and_eq_true_iff.1 hdigit).2) (by decide)
      · decide
      · decide
    exact if_pos hval
  · rintro rfl
    cases h
  · rintro rfl
    cases h

theorem utf8ByteSize_ofList {cs : List Char} (h : ∀ c ∈ cs, c.utf8Size = 1) :
    (String.ofList cs).utf8ByteSize = cs.length := by
  induction cs with
  | nil => rfl
  | cons c cs ih =>
    obtain ⟨hfirst, hrest⟩ := List.forall_mem_cons.1 h
    have hcons : String.ofList (c :: cs) = String.singleton c ++ String.ofList cs :=
      String.toList_inj.1 (by simp)
    rw [hcons, String.utf8ByteSize_append, String.utf8ByteSize_singleton, hfirst, ih hrest,
      List.length_cons, Nat.add_comm]

theorem isFileName_of_chars {n : String} {cs : List Char} (hn : n.toList = cs)
    (hinitial : (cs.take 2).head?.any Char.isAlpha = true) (hall : cs.all isFileChar = true)
    (hlength : cs.length ≤ maxNameSize) : IsFileName n := by
  subst hn
  have hchars : ∀ c ∈ n.toList, isFileChar c = true := List.all_eq_true.1 hall
  have hname : IsName n := isName_of_isPlainName (isPlainName_of_initials
    (fun hslash => (bounds_of_isFileChar (hchars _ hslash)).2.1 rfl) hinitial)
  refine ⟨hname, ?_, ?_⟩
  · refine Bool.eq_false_iff.2 fun hnul => ?_
    exact (bounds_of_isFileChar (hchars _ (List.contains_iff_mem.1 hnul))).2.2 rfl
  · rw [← String.ofList_toList (s := n),
      utf8ByteSize_ofList fun c hc => (bounds_of_isFileChar (hchars c hc)).1]
    exact hlength

theorem isFileChar_of_isDigit {c : Char} (h : c.isDigit = true) : isFileChar c = true := by
  simp [isFileChar, Char.isAlphanum, h]

end FileTree

namespace Cutting

variable {σ : Type}

/-- The longest extension that leaves room for the rest of the name of an input. -/
def maxExtensionLength : Nat := 248

theorem isFileName_input {x : Source} (h : x.extension.length ≤ maxExtensionLength) :
    IsFileName ("input0." ++ x.extension) := by
  refine isFileName_of_chars (String.toList_append (s := "input0.")) rfl
    (List.all_eq_true.2 fun c hc => ?_) ?_
  · rcases List.mem_append.1 hc with hfront | hextension
    · have hall : "input0.".toList.all isFileChar = true := by decide
      exact List.all_eq_true.1 hall c hfront
    · have hword := isExtensionChar_of_mem hextension
      simp only [Source.isExtensionChar, Bool.or_eq_true] at hword
      rcases hword with hlower | hdigit
      · have hletter : c.isAlpha = true := Bool.or_eq_true_iff.2 (.inr hlower)
        simp [isFileChar, Char.isAlphanum, hletter]
      · exact isFileChar_of_isDigit hdigit
  · rw [List.length_append]
    exact Nat.add_le_add_left h 7

theorem toList_mergeName (index : Nat) : (Extractor.mergeName index).toList =
    "merge_clip_".toList ++ (Nat.toDigits 10 index ++ ".mp4".toList) := by
  have hname : Extractor.mergeName index = toString "merge_clip_" ++ toString index ++ ".mp4" := rfl
  rw [hname, String.toList_append, Label.toList_numbered, List.append_assoc]

/-- As many clips as have files whose names are not too long. -/
def maxClips : Nat := Nat.pow 10 240

theorem isFileName_mergeName {index : Nat} (h : index < maxClips) :
    IsFileName (Extractor.mergeName index) := by
  refine isFileName_of_chars (toList_mergeName index) rfl (List.all_eq_true.2 fun c hc => ?_) ?_
  · have hall : ("merge_clip_".toList ++ ".mp4".toList).all isFileChar = true := by decide
    rw [List.all_eq_true] at hall
    simp only [List.mem_append] at hc hall
    rcases hc with hfront | hdigit | hend
    · exact hall c (.inl hfront)
    · exact isFileChar_of_isDigit (Label.isDigit_of_mem_toDigits hdigit)
    · exact hall c (.inr hend)
  · have hdigits : (Nat.toDigits 10 index).length ≤ 240 :=
      (Nat.length_toDigits_le_iff (by decide) (by decide)).2 h
    have hfront : "merge_clip_".toList.length = 11 := rfl
    have hend : ".mp4".toList.length = 4 := rfl
    rw [List.length_append, List.length_append, hfront, hend, maxNameSize]
    omega

/-! ### Programs that can be run -/

namespace Extractor

variable {e : Extractor σ} {source : Option Source} {c : Cut} {p : Program Binary64}

theorem inputs_compileCut (h : e.compileCut source c = .ok p) :
    ∀ input ∈ p.inputs, ∃ x ∈ source, input.name = "input0." ++ x.extension := by
  rw [(Compiled.of_compile h).inputs_eq, placed_timeline]
  intro input hinput
  obtain ⟨q, hq, rfl⟩ := List.mem_map.1 hinput
  obtain ⟨x, hx, rfl⟩ := Option.map_eq_some_iff.1 (Option.mem_toList.1 hq)
  have hfirst : s!"input{0}." = "input0." := by decide
  exact ⟨x, hx, congrArg (· ++ x.extension) hfirst⟩

theorem isPlayable_compileCut (hcompiler : e.compiler = {})
    (hsource : ∀ x ∈ source, x.extension.length ≤ maxExtensionLength)
    (h : e.compileCut source c = .ok p) (data : ByteArray) :
    Renderer.IsPlayable p (filesOf p data) := by
  have hcompiled := Compiled.of_compile h
  rw [hcompiler] at hcompiled
  have hinput : ∀ input ∈ p.inputs, IsFileName input.name ∧ initials input.name = ['i', 'n'] := by
    intro input hinput
    obtain ⟨x, hx, hname⟩ := inputs_compileCut h input hinput
    rw [hname]
    refine ⟨isFileName_input (hsource x hx), ?_⟩
    rw [initials, String.toList_append]
    rfl
  have houtput : Renderer.outputNameOf p = "output.mp4" := by
    rw [Renderer.outputNameOf, hcompiled.outputName_eq]
    rfl
  have hsides : p.sideFiles = [] := List.map_eq_nil_iff.1 (map_name_sideFiles hcompiled)
  have hwritten : ∀ file ∈ Renderer.written p (filesOf p data), ∃ input ∈ p.inputs,
      file.1 = input.name := by
    intro file hfile
    rw [Renderer.written, hsides, List.map_nil, List.append_nil] at hfile
    obtain ⟨input, hinput, rfl⟩ := List.mem_map.1 ((List.mergeSort_perm _ _).mem_iff.1 hfile)
    exact ⟨input, hinput, rfl⟩
  refine ⟨missing_filesOf data h, fun name hname => ?_, fun file hfile => ?_, fun input hheard => ?_,
    fun indices => ?_⟩
  · rcases List.mem_cons.1 hname with rfl | hname
    · rw [houtput]
      exact isFileName_of_chars rfl rfl (by decide) (by decide)
    · obtain ⟨file, hfile, rfl⟩ := List.mem_map.1 hname
      obtain ⟨input, hmem, heq⟩ := hwritten file hfile
      rw [heq]
      exact (hinput input hmem).1
  · obtain ⟨input, hmem, heq⟩ := hwritten file hfile
    rw [heq, houtput]
    exact ne_of_initials (by rw [(hinput input hmem).2]; decide)
  · exact (hinput input (List.mem_of_mem_filter hheard)).1.toIsName
  · obtain ⟨encode, hencode, -⟩ := hcompiled.encode_eq_muted indices
    rw [hcompiled.foldl_dropSound,
      Program.arguments_eq hencode (Program.no_gate_muted hcompiled.no_gate indices)
        (hcompiled.hasText_muted (hasText_compileCut hcompiler h) indices)]
    rfl

end Extractor

/-- A program without statements has no sound to drop. -/
theorem foldl_dropSound_bare {p : Program Binary64} (hbare : p.statements = []) (indices : List Int) :
    (indices.foldl Program.dropSound p).statements = [] ∧
      (indices.foldl Program.dropSound p).encode = p.encode := by
  induction indices generalizing p with
  | nil => exact ⟨hbare, rfl⟩
  | cons index rest ih =>
    have hdropped : (p.dropSound index).statements = [] ∧ (p.dropSound index).encode = p.encode := by
      simp [Program.dropSound, hbare]
    obtain ⟨hstatements, hencode⟩ := ih hdropped.1
    exact ⟨hstatements, hencode.trans hdropped.2⟩

theorem concat_eq_ok {names : List String} {p : Program Binary64} (h : concat names = .ok p) :
    p.statements = [] ∧ p.sideFiles.map (·.name) = [concatListName] ∧ p.payloadNames = names ∧
      ∃ e, p.encode = some e ∧ e.outputName = concatOutputName := by
  unfold concat at h
  split at h
  · cases h
  rw [← Outcome.pure_eq_ok.1 h]
  exact ⟨rfl, rfl, rfl, _, rfl, rfl⟩

theorem isPlayable_concat {p : Program Binary64} {payloads : Payloads}
    (hnames : ∀ file ∈ payloads, ∃ index < maxClips, file.1 = Extractor.mergeName index)
    (h : concat (payloads.map Prod.fst) = .ok p) : Renderer.IsPlayable p payloads := by
  obtain ⟨hbare, hsides, hpayloads, e, hencode, houtput⟩ := concat_eq_ok h
  have houtput : Renderer.outputNameOf p = concatOutputName := by
    rw [Renderer.outputNameOf, hencode]
    exact houtput
  have hwritten : ∀ file ∈ Renderer.written p payloads,
      file.1 = concatListName ∨ ∃ index < maxClips, file.1 = Extractor.mergeName index := by
    intro file hfile
    rcases List.mem_append.1 hfile with hpayload | hside
    · exact .inr (hnames file ((List.mergeSort_perm _ _).mem_iff.1 hpayload))
    · obtain ⟨side, hmem, rfl⟩ := List.mem_map.1 hside
      have hname := List.mem_map_of_mem (f := SideFile.name) hmem
      rw [hsides] at hname
      exact .inl (List.mem_singleton.1 hname)
  refine ⟨Renderer.missing_eq_nil hpayloads.symm, fun name hname => ?_, fun file hfile => ?_,
    fun input hheard => ?_, fun indices => ?_⟩
  · rcases List.mem_cons.1 hname with rfl | hname
    · rw [houtput]
      exact isFileName_of_chars rfl rfl (by decide) (by decide)
    · obtain ⟨file, hfile, rfl⟩ := List.mem_map.1 hname
      obtain heq | ⟨index, hindex, heq⟩ := hwritten file hfile
      · rw [heq]
        exact isFileName_of_chars rfl rfl (by decide) (by decide)
      · rw [heq]
        exact isFileName_mergeName hindex
  · obtain heq | ⟨index, -, heq⟩ := hwritten file hfile
    · rw [heq, houtput]
      decide
    · rw [heq, houtput]
      intro hsame
      have hlist := congrArg String.toList hsame
      rw [toList_mergeName] at hlist
      cases hlist
  · simp [Program.soundInputs, hbare] at hheard
  · obtain ⟨hstatements, hencode'⟩ := foldl_dropSound_bare hbare indices
    rw [Program.arguments_eq (hencode'.trans hencode) (by simp [hstatements])
      (by simp [Program.hasText, hstatements])]
    rfl

end Cutting

end Montage
