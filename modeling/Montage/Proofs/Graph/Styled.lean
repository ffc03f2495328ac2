import Mathlib.Data.Bool.AllAny
import Montage.Proofs.Graph.Compilable
import Montage.Proofs.Graph.DrawTexts

/-!
# Colours and fonts in a graph

Colours and fonts stand in a graph, and in the names of files, as they are. Words over the alphabets
are used, all else is replaced, and what is replaced is said (`IsStyled`). There is one slip: a word
with a line feed after it is taken for a word. A program is as described exactly when no overlay has
such a style (`compile_styled`).
-/

namespace Montage.Graph

open Outcome

/-! ### Words -/

def latinAndDigits : List Char :=
  "ABCDEFGHIJKLMNOPQRSTUVWXYZabcdefghijklmnopqrstuvwxyz0123456789".toList

def colorAlphabet : List Char := latinAndDigits ++ "_.#@-".toList

def fontAlphabet : List Char := latinAndDigits ++ "_-".toList

/-- One or more characters of an alphabet. -/
def IsWord (alphabet : List Char) (s : String) : Prop := s ≠ "" ∧ ∀ c ∈ s.toList, c ∈ alphabet

instance (alphabet : List Char) (s : String) : Decidable (IsWord alphabet s) :=
  decidable_of_iff (s ≠ "" ∧ (s.toList.all fun c => c ∈ alphabet) = true)
    (and_congr_right' List.all_iff_forall_prop)

/-- A value that is a word. -/
def wordOf? (alphabet : List Char) : Value → Option String
  | .text s => if IsWord alphabet s then some s else none
  | _ => none

/-- A word, and a line feed after it. -/
def IsLine (alphabet : List Char) (v : Value) : Prop :=
  ∃ word, IsWord alphabet word ∧ v = .text (word ++ "\n")

variable {alphabet : List Char} {allowed : Char → Bool} {s : String} {v : Value}

theorem toNat_lt_of_isLatinOrDigit {c : Char} (h : isLatinOrDigit c = true) : c.toNat < 128 := by
  have hlast : c.val ≤ 'z'.val := by
    rcases Bool.or_eq_true_iff.1 h with hletter | hdigit
    · rcases Bool.or_eq_true_iff.1 hletter with hupper | hlower
      · obtain ⟨-, hle⟩ : 'A'.val ≤ c.val ∧ c.val ≤ 'Z'.val := of_decide_eq_true hupper
        exact UInt32.le_trans hle (by decide)
      · exact of_decide_eq_true (Bool.and_eq_true_iff.1 hlower).2
    · have hle : c.val ≤ '9'.val := of_decide_eq_true (Bool.and_eq_true_iff.1 hdigit).2
      exact UInt32.le_trans hle (by decide)
  exact Nat.lt_of_le_of_lt (UInt32.le_iff_toNat_le.1 hlast) (by decide)

theorem isLatinOrDigit_eq (c : Char) : isLatinOrDigit c = decide (c ∈ latinAndDigits) := by
  have hplain : ∀ n < 128, isLatinOrDigit (Char.ofNat n) =
      decide (Char.ofNat n ∈ latinAndDigits) := by decide +kernel
  rcases Nat.lt_or_ge c.toNat 128 with hlt | hge
  · simpa using hplain c.toNat hlt
  · have hmember : ∀ d ∈ latinAndDigits, d.toNat < 128 :=
      List.all_iff_forall_prop.1 (by decide +kernel)
    have hclass : isLatinOrDigit c = false :=
      Bool.eq_false_iff.2 fun h => absurd (toNat_lt_of_isLatinOrDigit h) (Nat.not_lt.2 hge)
    rw [hclass, decide_eq_false fun hc => absurd (hmember c hc) (Nat.not_lt.2 hge)]

theorem isStyleChar_iff (c : Char) : isStyleChar c = true ↔ c ∈ colorAlphabet := by
  simp [isStyleChar, isLatinOrDigit_eq, colorAlphabet]

theorem isFontChar_iff (c : Char) : isFontChar c = true ↔ c ∈ fontAlphabet := by
  simp [isFontChar, isLatinOrDigit_eq, fontAlphabet]

theorem feed_not_mem_colorAlphabet : '\n' ∉ colorAlphabet := by decide +kernel

theorem feed_not_mem_fontAlphabet : '\n' ∉ fontAlphabet := by decide +kernel

theorem isLine_text : IsLine alphabet (.text s) ↔
    s.toList.getLast? = some '\n' ∧ IsWord alphabet (.ofList s.toList.dropLast) := by
  constructor
  · rintro ⟨word, hword, hs⟩
    obtain rfl := Value.text.inj hs
    have hlist : (word ++ "\n").toList = word.toList ++ ['\n'] := String.toList_append
    rw [hlist, List.getLast?_concat, List.dropLast_concat, String.ofList_toList]
    exact ⟨rfl, hword⟩
  · rintro ⟨hlast, hword⟩
    refine ⟨_, hword, congrArg Value.text (String.toList_inj.1 ?_)⟩
    rw [String.toList_append, String.toList_ofList]
    exact (List.dropLast_append_getLast? '\n' hlast).symm

instance : Decidable (IsLine alphabet v) :=
  match v with
  | .text _ => decidable_of_iff _ isLine_text.symm
  | .null | .bool _ | .int _ | .float _ | .list _ | .mapping _ | .stamp .. | .bytes _ | .pair .. |
    .set _ | .loop .. | .again .. => isFalse fun ⟨_, _, h⟩ => nomatch h

/-- What passes for a word is a word or a line. -/
theorem isToken_iff (halphabet : ∀ c, allowed c = true ↔ c ∈ alphabet) (hfeed : '\n' ∉ alphabet) :
    isToken allowed s.toList = true ↔ IsWord alphabet s ∨ IsLine alphabet (.text s) := by
  have hword : ∀ word : String, (!word.toList.isEmpty && word.toList.all allowed) = true ↔
      IsWord alphabet word := by
    intro word
    simp [IsWord, halphabet, String.toList_eq_nil_iff]
  rw [isLine_text, isToken]
  by_cases hlast : s.toList.getLast? = some '\n'
  · have hno : ¬ IsWord alphabet s := fun h => hfeed (h.2 _ (List.mem_of_getLast? hlast))
    have hline := hword (.ofList s.toList.dropLast)
    rw [String.toList_ofList] at hline
    rw [if_pos hlast, hline]
    simp only [hlast, hno, true_and, false_or]
  · rw [if_neg hlast, hword]
    simp only [hlast, false_and, or_false]

/-! ### Styles -/

def colorWarning (o : TextOverlay) : String :=
  "text overlay " ++ o.id ++ ": unsupported color, using white"

def fontWarning (o : TextOverlay) : String :=
  "text overlay " ++ o.id ++ ": unsupported font name, using Arial"

/-- The colour and the font that an overlay is drawn in. -/
structure IsDrawn (o : TextOverlay) (d : DrawText Binary64) : Prop where
  color_eq : d.color = (wordOf? colorAlphabet o.color).getD "white"
  font_eq : d.fontFile = some ("font" ++ (wordOf? fontAlphabet o.font).getD "Arial" ++ ".ttf")

/-- A program with safe styles, that says what it replaced. -/
structure IsStyled (t : Timeline) (p : Program Binary64) : Prop where
  drawn : List.Forall₂ IsDrawn t.overlays p.drawTexts
  color_safe : ∀ d ∈ p.drawTexts, ∀ c ∈ d.color.toList, c ∈ colorAlphabet
  font_safe : ∀ d ∈ p.drawTexts, ∀ file ∈ d.fontFile, ∃ word, file = "font" ++ word ++ ".ttf" ∧
    ∀ c ∈ word.toList, c ∈ fontAlphabet
  color_said : ∀ o ∈ t.overlays, wordOf? colorAlphabet o.color = none → colorWarning o ∈ p.warnings
  font_said : ∀ o ∈ t.overlays, wordOf? fontAlphabet o.font = none → isUnset o.font = false →
    fontWarning o ∈ p.warnings

variable {o : TextOverlay}

theorem mem_of_wordOf? {word : String} (h : wordOf? alphabet v = some word) :
    ∀ c ∈ word.toList, c ∈ alphabet := by
  cases v with
  | text s =>
    rw [wordOf?, Option.ite_none_right_eq_some] at h
    obtain ⟨hword, hs⟩ := h
    obtain rfl := Option.some.inj hs
    exact hword.2
  | _ => cases h

theorem styleToken?_eq (hline : ¬ IsLine colorAlphabet v) :
    styleToken? v = wordOf? colorAlphabet v := by
  cases v with
  | text s =>
    simp only [styleToken?, wordOf?, isToken_iff isStyleChar_iff feed_not_mem_colorAlphabet, hline,
      or_false]
  | _ => rfl

theorem fontToken?_eq (hline : ¬ IsLine fontAlphabet v) :
    fontToken? v = wordOf? fontAlphabet v := by
  cases v with
  | text s =>
    simp only [fontToken?, wordOf?, isToken_iff isFontChar_iff feed_not_mem_fontAlphabet, hline,
      or_false]
  | _ => rfl

theorem warnAbout_eq (o : TextOverlay) (what : String) :
    warnAbout o what = "text overlay " ++ o.id ++ (": " ++ what) :=
  String.append_assoc

theorem colorOf_eq (hline : ¬ IsLine colorAlphabet o.color) :
    (colorOf o).value = (wordOf? colorAlphabet o.color).getD "white" ∧
      (wordOf? colorAlphabet o.color = none → (colorOf o).warning = some (colorWarning o)) := by
  rw [colorOf, styleToken?_eq hline]
  cases wordOf? colorAlphabet o.color with
  | some color => exact ⟨rfl, nofun⟩
  | none => exact ⟨rfl, fun _ => congrArg some (warnAbout_eq o _)⟩

theorem fontOf_eq (hline : ¬ IsLine fontAlphabet o.font) :
    (fontOf o).value = (wordOf? fontAlphabet o.font).getD "Arial" ∧
      (wordOf? fontAlphabet o.font = none → isUnset o.font = false →
        (fontOf o).warning = some (fontWarning o)) := by
  rw [fontOf, fontToken?_eq hline]
  by_cases hunset : isUnset o.font = true
  · have hnone : wordOf? fontAlphabet o.font = none := by
      cases hfont : o.font with
      | text s =>
        rw [hfont] at hunset
        exact if_neg fun hword => hword.1 (String.isEmpty_iff.1 hunset)
      | _ => rfl
    rw [if_pos hunset, hnone]
    exact ⟨rfl, fun _ hset => absurd (hunset.symm.trans hset) nofun⟩
  · rw [if_neg hunset]
    cases wordOf? fontAlphabet o.font with
    | some font => exact ⟨rfl, nofun⟩
    | none => exact ⟨rfl, fun _ _ => congrArg some (warnAbout_eq o _)⟩

/-- A line is used as it is. -/
theorem colorOf_of_isLine (hline : IsLine colorAlphabet o.color) :
    '\n' ∈ (colorOf o).value.toList := by
  obtain ⟨word, hword, hcolor⟩ := hline
  have htoken : styleToken? (.text (word ++ "\n")) = some (word ++ "\n") :=
    if_pos ((isToken_iff isStyleChar_iff feed_not_mem_colorAlphabet).2 (.inr ⟨word, hword, rfl⟩))
  rw [colorOf, hcolor, htoken, String.toList_append]
  exact List.mem_append_right _ (by decide)

theorem fontOf_of_isLine (hline : IsLine fontAlphabet o.font) : '\n' ∈ (fontOf o).value.toList := by
  obtain ⟨word, hword, hfont⟩ := hline
  have htoken : fontToken? (.text (word ++ "\n")) = some (word ++ "\n") :=
    if_pos ((isToken_iff isFontChar_iff feed_not_mem_fontAlphabet).2 (.inr ⟨word, hword, rfl⟩))
  have hset : isUnset (.text (word ++ "\n")) = false := by
    rw [isUnset, ← Bool.not_eq_true, String.isEmpty_iff, ← String.toList_inj, String.toList_append]
    exact List.append_ne_nil_of_right_ne_nil _ nofun
  rw [fontOf, hfont, hset, htoken, if_neg nofun, String.toList_append]
  exact List.mem_append_right _ (by decide)

/-! ### Programs -/

variable {c : Compiler} {t : Timeline} {quality : Value} {assets : Option Assets}
  {p : Program Binary64}

theorem drawTexts_styles (h : c.compile t quality assets = .ok p) :
    List.Forall₂ (fun o d => d.color = (colorOf o).value ∧
      d.fontFile = some (fontFile (fontOf o).value)) t.overlays p.drawTexts := by
  refine (Compiled.of_compile h).forall₂_drawTexts fun numbered caption hcaption => ?_
  obtain ⟨data, x, y, size, -, -, -, -, rfl⟩ := ofOverlay_eq_ok.1 hcaption
  exact ⟨rfl, rfl⟩

theorem mem_warnings (h : c.compile t quality assets = .ok p) {o : TextOverlay}
    (ho : o ∈ t.overlays) {warning : String}
    (hwarning : (fontOf o).warning = some warning ∨ (colorOf o).warning = some warning) :
    warning ∈ p.warnings := by
  obtain ⟨warnings, stack, top, captions, -, -, hcaptions, rfl⟩ := compile_eq_ok.1 h
  rw [← List.zipIdx_map_fst 0 t.overlays] at ho
  obtain ⟨numbered, hnumbered, rfl⟩ := List.mem_map.1 ho
  obtain ⟨caption, hmem, hcaption⟩ := exists_right_of_forall₂ hcaptions hnumbered
  obtain ⟨data, x, y, size, -, -, -, -, rfl⟩ := ofOverlay_eq_ok.1 hcaption
  refine List.mem_append_right _ (List.mem_flatMap.2 ⟨_, hmem, ?_⟩)
  rcases hwarning with hwarning | hwarning
  · simp [hwarning]
  · simp [hwarning]

theorem isStyled_of_not_isLine (h : c.compile t quality assets = .ok p)
    (hcolor : ∀ o ∈ t.overlays, ¬ IsLine colorAlphabet o.color)
    (hfont : ∀ o ∈ t.overlays, ¬ IsLine fontAlphabet o.font) : IsStyled t p := by
  have hdrawn : List.Forall₂ IsDrawn t.overlays p.drawTexts := by
    refine forall₂_imp_of_mem (drawTexts_styles h) fun o ho d _ hd => ⟨?_, ?_⟩
    · rw [hd.1, (colorOf_eq (hcolor o ho)).1]
    · rw [hd.2, (fontOf_eq (hfont o ho)).1]
      rfl
  refine ⟨hdrawn, fun d hd => ?_, fun d hd => ?_, fun o ho hword => ?_, fun o ho hword hset => ?_⟩
  · obtain ⟨o, -, hdraw⟩ := exists_left_of_forall₂ hdrawn hd
    rw [hdraw.color_eq]
    cases hword : wordOf? colorAlphabet o.color with
    | some color => exact mem_of_wordOf? hword
    | none => exact List.all_iff_forall_prop.1 (by decide +kernel)
  · obtain ⟨o, -, hdraw⟩ := exists_left_of_forall₂ hdrawn hd
    rw [hdraw.font_eq]
    rintro file ⟨⟩
    refine ⟨_, rfl, ?_⟩
    cases hword : wordOf? fontAlphabet o.font with
    | some font => exact mem_of_wordOf? hword
    | none => exact List.all_iff_forall_prop.1 (by decide +kernel)
  · exact mem_warnings h ho (.inr ((colorOf_eq (hcolor o ho)).2 hword))
  · exact mem_warnings h ho (.inl ((fontOf_eq (hfont o ho)).2 hword hset))

theorem not_isLine_of_isStyled (h : c.compile t quality assets = .ok p) (hstyled : IsStyled t p)
    {o : TextOverlay} (ho : o ∈ t.overlays) :
    ¬ IsLine colorAlphabet o.color ∧ ¬ IsLine fontAlphabet o.font := by
  obtain ⟨d, hd, hcolor, hfont⟩ := exists_right_of_forall₂ (drawTexts_styles h) ho
  constructor
  · intro hline
    refine feed_not_mem_colorAlphabet (hstyled.color_safe d hd '\n' ?_)
    rw [hcolor]
    exact colorOf_of_isLine hline
  · intro hline
    obtain ⟨word, hword, hsafe⟩ := hstyled.font_safe d hd _ hfont
    have hvalue : (fontOf o).value = word := by
      have hlist := congrArg String.toList hword
      change ("font" ++ (fontOf o).value ++ ".ttf").toList = _ at hlist
      simp only [String.toList_append] at hlist
      exact String.toList_inj.1 (List.append_cancel_left (List.append_cancel_right hlist))
    exact feed_not_mem_fontAlphabet (hsafe '\n' (hvalue ▸ fontOf_of_isLine hline))

/-- A program has safe styles, and says what it replaced, when no style of the timeline is a line. -/
theorem compile_styled (h : c.compile t quality assets = .ok p) :
    IsStyled t p ↔
      ∀ o ∈ t.overlays, ¬ IsLine colorAlphabet o.color ∧ ¬ IsLine fontAlphabet o.font :=
  ⟨fun hstyled _ ho => not_isLine_of_isStyled h hstyled ho,
    fun hline => isStyled_of_not_isLine h (fun o ho => (hline o ho).1) fun o ho => (hline o ho).2⟩

def styledSnapshot (color font : Value) : Value := .record [("text_overlays", .list [
  .record [("text", "One"), ("duration", .int 1), ("color", color), ("font", font)]])]

/-- Neither style is a word: one has a colon, the other is no text. -/
theorem styledSnapshot_isStyled :
    ∃ t, Timeline.ofValue (styledSnapshot "red:x" (.int 3)) = .ok t ∧
      ∃ p, ({} : Compiler).compile t "medium" none = .ok p ∧ IsStyled t p := by
  have hcheck : (Timeline.ofValue (styledSnapshot "red:x" (.int 3))).toOption.any (fun t =>
      (({} : Compiler).compile t "medium" none).isOk && decide (∀ o ∈ t.overlays,
        ¬ IsLine colorAlphabet o.color ∧ ¬ IsLine fontAlphabet o.font)) = true := by
    decide +kernel
  obtain ⟨t, ht, hcheck⟩ := exists_ok_of_any hcheck
  obtain ⟨hok, hline⟩ := Bool.and_eq_true_iff.1 hcheck
  obtain ⟨p, hp⟩ := isOk_iff.1 hok
  exact ⟨t, ht, p, hp, (compile_styled hp).2 (of_decide_eq_true hline)⟩

/-- The line feed after the colour stands in the graph. -/
theorem styledSnapshot_not_isStyled :
    ∃ t, Timeline.ofValue (styledSnapshot "red\n" "Arial") = .ok t ∧
      ∃ p, ({} : Compiler).compile t "medium" none = .ok p ∧ ¬ IsStyled t p := by
  have hcheck : (Timeline.ofValue (styledSnapshot "red\n" "Arial")).toOption.any (fun t =>
      (({} : Compiler).compile t "medium" none).toOption.any fun p =>
        p.drawTexts.any fun d => d.color.toList.any fun c => c ∉ colorAlphabet) = true := by
    decide +kernel
  obtain ⟨t, ht, hcheck⟩ := exists_ok_of_any hcheck
  obtain ⟨p, hp, hcheck⟩ := exists_ok_of_any hcheck
  obtain ⟨d, hd, hcheck⟩ := List.any_eq_true.1 hcheck
  obtain ⟨char, hchar, hout⟩ := List.any_eq_true.1 hcheck
  exact ⟨t, ht, p, hp, fun h => of_decide_eq_true hout (h.color_safe d hd char hchar)⟩

end Montage.Graph
