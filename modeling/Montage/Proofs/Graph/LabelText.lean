import Mathlib.Data.List.Basic
import Montage.Graph.Statement

/-!
# Labels and their texts

The engine tells labels apart by their texts. A label that the compiler makes up reads back from its
text (`Label.read_text`), so that different labels have different texts.
-/

namespace Montage.Graph.Label

/-- The number that some digits stand for. -/
def readNumber (cs : List Char) : Nat := Nat.ofDigitChars 10 cs 0

/-- The kind of a stream by the letter behind the colon. -/
def readStream (cs : List Char) : Stream := if cs = [':', 'v'] then .picture else .sound

/-- The label that a text stands for; a text that begins with a digit is a stream. -/
def read (cs : List Char) : Label :=
  if cs.head?.any Char.isDigit then
    .stream (readNumber (cs.takeWhile Char.isDigit)) (readStream (cs.dropWhile Char.isDigit))
  else match cs with
    | 'v' :: 'i' :: 's' :: 'u' :: 'a' :: 'l' :: number => .visual (readNumber number)
    | 't' :: 'm' :: 'p' :: number => .stage (readNumber number)
    | 'a' :: 'u' :: 'd' :: 'i' :: 'o' :: number => .audio (readNumber number)
    | 't' :: 'e' :: 'x' :: 't' :: number => .caption (readNumber number)
    | ['o', 'u', 't', 'v'] => .finalPicture
    | ['o', 'u', 't', 'a'] => .finalSound
    | _ => .base

/-- Whether a label is a name from outside. -/
def isNamed : Label → Bool
  | .named _ => true
  | _ => false

theorem readNumber_toDigits (n : Nat) : readNumber (Nat.toDigits 10 n) = n :=
  Nat.ofDigitChars_ten_toDigits

theorem isDigit_of_mem_toDigits {n : Nat} {c : Char} (hc : c ∈ Nat.toDigits 10 n) :
    c.isDigit = true :=
  Nat.isDigit_of_mem_toDigits (by decide) (by decide) hc

theorem head?_toDigits_append (n : Nat) (rest : List Char) :
    (Nat.toDigits 10 n ++ rest).head?.any Char.isDigit = true := by
  obtain ⟨c, cs, hcs⟩ := List.exists_cons_of_ne_nil (Nat.toDigits_ne_nil (n := n) (b := 10))
  simp [hcs, isDigit_of_mem_toDigits (n := n) (c := c) (by simp [hcs])]

/-- The digits of a number end at the first character that is none. -/
theorem span_toDigits (n : Nat) {c : Char} (hc : c.isDigit = false) (rest : List Char) :
    (Nat.toDigits 10 n ++ c :: rest).takeWhile Char.isDigit = Nat.toDigits 10 n ∧
      (Nat.toDigits 10 n ++ c :: rest).dropWhile Char.isDigit = c :: rest := by
  have hdigits : ∀ d ∈ Nat.toDigits 10 n, d.isDigit = true := fun d => isDigit_of_mem_toDigits
  constructor
  · rw [List.takeWhile_append_of_pos hdigits]
    simp [hc]
  · rw [List.dropWhile_append_of_pos hdigits]
    simp [hc]

theorem toList_numbered (stem : String) (n : Nat) :
    (toString stem ++ toString n).toList = stem.toList ++ Nat.toDigits 10 n := by
  rw [String.toList_append, Nat.toString_eq_ofList_toDigits, String.toList_ofList]
  rfl

theorem toList_stream (i : Nat) (kind : Stream) :
    (stream i kind).text.toList =
      Nat.toDigits 10 i ++ [':', if kind = .picture then 'v' else 'a'] := by
  cases kind <;>
  · rw [text, String.toList_append, Nat.toString_eq_ofList_toDigits, String.toList_ofList]
    rfl

theorem read_text {l : Label} (hl : l.isNamed = false) : read l.text.toList = l := by
  cases l with
  | stream i kind =>
    have hcolon : ':'.isDigit = false := rfl
    obtain ⟨htake, hdrop⟩ := span_toDigits i hcolon [if kind = .picture then 'v' else 'a']
    rw [toList_stream]
    unfold read
    rw [if_pos (head?_toDigits_append i _), htake, hdrop, readNumber_toDigits]
    cases kind <;> rfl
  | visual i =>
    rw [text, toList_numbered]
    simp [read, readNumber_toDigits]
  | stage k =>
    rw [text, toList_numbered]
    simp [read, readNumber_toDigits]
  | audio i =>
    rw [text, toList_numbered]
    simp [read, readNumber_toDigits]
  | caption k =>
    rw [text, toList_numbered]
    simp [read, readNumber_toDigits]
  | base => rfl
  | finalPicture => rfl
  | finalSound => rfl
  | named name => simp [isNamed] at hl

theorem text_inj {a b : Label} (ha : a.isNamed = false) (hb : b.isNamed = false)
    (h : a.text = b.text) : a = b := by
  rw [← read_text ha, ← read_text hb, h]

end Montage.Graph.Label
