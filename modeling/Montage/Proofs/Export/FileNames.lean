import Montage.Proofs.Export.Media

/-!
# The names of the files of a job

Inputs, fonts and texts have names of their own: they begin differently, and number or font can be
read back. All are plain, so that the engine takes them for files of a workspace.
-/

namespace Montage

open Montage.Graph

/-- Whether the engine takes a name for that of a file in a workspace. -/
def IsPlainName (name : String) : Prop :=
  ∀ workspace, Engine.workspacePath workspace name = .ok (Path.join workspace name)

theorem name_of_slash_not_mem {name : String} (hslash : '/' ∉ name.toList) :
    Path.name name = name := by
  have hall : name.toList.reverse.takeWhile (· ≠ '/') = name.toList.reverse := by
    have hnone : ∀ c ∈ name.toList.reverse, (c ≠ '/' : Bool) = true := by
      intro c hc
      refine decide_eq_true ?_
      rintro rfl
      exact hslash (List.mem_reverse.1 hc)
    simpa using @List.takeWhile_append_of_pos _ _ _ [] hnone
  rw [Path.name, Path.split, hall, List.reverse_reverse, String.ofList_toList]

/-! ### How names begin -/

def initials (name : String) : List Char := name.toList.take 2

theorem isPlainName_of_initials {name : String} (hslash : '/' ∉ name.toList)
    (hletter : (initials name).head?.any Char.isAlpha = true) : IsPlainName name := by
  have hdots : ["", ".", ".."].contains name = false := by
    refine Bool.eq_false_iff.2 fun hmem => ?_
    have hnone : ∀ other ∈ ["", ".", ".."], (initials other).head?.any Char.isAlpha = false := by
      decide
    rw [hnone name (List.contains_iff_mem.1 hmem)] at hletter
    cases hletter
  intro workspace
  rw [Engine.workspacePath, name_of_slash_not_mem hslash, hdots, if_neg (by simp)]
  rfl

theorem initials_name (q : Placed) : initials q.input.name = ['i', 'n'] := by
  rw [initials, toList_name]
  rfl

theorem toList_fontFile (font : String) :
    (fontFile font).toList = ['f', 'o', 'n', 't'] ++ (font.toList ++ ['.', 't', 't', 'f']) := by
  have hname : fontFile font = "font" ++ font ++ ".ttf" := rfl
  rw [hname, String.toList_append, String.toList_append, List.append_assoc]
  rfl

theorem initials_fontFile (font : String) : initials (fontFile font) = ['f', 'o'] := by
  rw [initials, toList_fontFile]
  rfl

theorem toList_captionFile (i : Nat) :
    (captionFile i).toList =
      "overlay_text_".toList ++ (Nat.toDigits 10 i ++ ['.', 't', 'x', 't']) := by
  have hname : captionFile i = toString "overlay_text_" ++ toString i ++ ".txt" := rfl
  rw [hname, String.toList_append, Label.toList_numbered, List.append_assoc]
  rfl

theorem initials_captionFile (i : Nat) : initials (captionFile i) = ['o', 'v'] := by
  rw [initials, toList_captionFile]
  rfl

theorem ne_of_initials {a b : String} (h : initials a ≠ initials b) : a ≠ b :=
  fun heq => h (congrArg initials heq)

theorem fontFile_injective : Function.Injective fontFile := by
  intro a b h
  have hlist := congrArg String.toList h
  rw [toList_fontFile, toList_fontFile] at hlist
  exact String.toList_inj.1 (List.append_cancel_right (List.append_cancel_left hlist))

theorem captionFile_injective : Function.Injective captionFile := by
  intro i j h
  have hpoint : '.'.isDigit = false := rfl
  have hlist := congrArg String.toList h
  rw [toList_captionFile, toList_captionFile] at hlist
  have hdigits := congrArg (List.takeWhile Char.isDigit) (List.append_cancel_left hlist)
  rw [(Label.span_toDigits i hpoint _).1, (Label.span_toDigits j hpoint _).1] at hdigits
  rw [← Label.readNumber_toDigits i, hdigits, Label.readNumber_toDigits]

/-! ### What stands in names -/

theorem isExtensionChar_of_mem {source : Source} {c : Char} (hc : c ∈ source.extension.toList) :
    Source.isExtensionChar c = true := by
  have hall : source.defaultExtension.toList.all Source.isExtensionChar = true := by
    unfold Source.defaultExtension
    split <;> decide
  have hdefault := List.all_eq_true.1 hall
  unfold Source.extension at hc
  split at hc
  · split at hc
    · exact hdefault c hc
    · dsimp only at hc
      split at hc
      · rename_i hword
        rw [String.toList_ofList] at hc
        exact List.all_eq_true.1 (Bool.and_eq_true_iff.1 hword).2 c hc
      · exact hdefault c hc
  · exact hdefault c hc

theorem isPlainName_name (q : Placed) : IsPlainName q.input.name := by
  refine isPlainName_of_initials (fun hslash => ?_) (by rw [initials_name]; rfl)
  rw [toList_name] at hslash
  simp only [List.mem_cons, List.mem_append] at hslash
  rcases hslash with h | h | h | h | h | h | h | h
  · cases h
  · cases h
  · cases h
  · cases h
  · cases h
  · cases Label.isDigit_of_mem_toDigits h
  · cases h
  · cases isExtensionChar_of_mem h

theorem isPlainName_captionFile (i : Nat) : IsPlainName (captionFile i) := by
  refine isPlainName_of_initials (fun hslash => ?_) (by rw [initials_captionFile]; rfl)
  rw [toList_captionFile, List.mem_append, List.mem_append] at hslash
  rcases hslash with h | h | h
  · revert h
    decide
  · cases Label.isDigit_of_mem_toDigits h
  · revert h
    decide

theorem mem_of_isToken {allowed : Char → Bool} {cs : List Char} (h : isToken allowed cs = true)
    {c : Char} (hc : c ∈ cs) : allowed c = true ∨ c = '\n' := by
  obtain ⟨-, hall⟩ := Bool.and_eq_true_iff.1 h
  rw [List.all_eq_true] at hall
  by_cases hlast : cs.getLast? = some '\n'
  · rw [if_pos hlast] at hall
    have hsplit := List.dropLast_append_getLast? '\n' hlast
    rw [← hsplit] at hc
    rcases List.mem_append.1 hc with hword | hend
    · exact .inl (hall c hword)
    · exact .inr (List.mem_singleton.1 hend)
  · rw [if_neg hlast] at hall
    exact .inl (hall c hc)

theorem slash_not_mem_font (o : TextOverlay) : '/' ∉ (fontOf o).value.toList := by
  have hdefault : '/' ∉ defaultFont.toList := by decide
  unfold fontOf
  split
  · exact hdefault
  · split
    · rename_i font hfont
      intro hslash
      cases hvalue : o.font with
      | text s =>
        rw [hvalue, fontToken?] at hfont
        split at hfont
        · rename_i htoken
          obtain rfl := Option.some.inj hfont
          rcases mem_of_isToken htoken hslash with h | h <;> cases h
        · cases hfont
      | _ => simp [hvalue, fontToken?] at hfont
    · exact hdefault

theorem isPlainName_fontFile (o : TextOverlay) : IsPlainName (fontFile (fontOf o).value) := by
  refine isPlainName_of_initials (fun hslash => ?_) (by rw [initials_fontFile]; rfl)
  rw [toList_fontFile, List.mem_append, List.mem_append] at hslash
  rcases hslash with h | h | h
  · revert h
    decide
  · exact slash_not_mem_font o h
  · revert h
    decide

end Montage
