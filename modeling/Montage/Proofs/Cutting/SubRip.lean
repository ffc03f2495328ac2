import Montage.Proofs.Number.Stamp
import Montage.Proofs.Outcome

/-!
# Reading SubRip text

A reader of SubRip text splits it into lines, takes the stretches between empty lines as blocks, and
reads a number, two times and a text from each (`SubRip.read?`). A file of entries comes apart into the
blocks of one entry after the other (`SubRip.blocks_file`). An entry whose text has an empty line comes
apart into more than one block; any other one is read back (`SubRip.readBlock?_lines`).
-/

namespace Montage.SubRip

open Timecode

/-- A numbered text, from one time to another in milliseconds. -/
structure Entry where
  number : Nat
  start : Nat
  finish : Nat
  text : String
  deriving DecidableEq

abbrev Lines := List (List Char)

/-! ### The reader -/

def readNumber? (line : List Char) : Option Nat :=
  if !line.isEmpty && line.all Char.isDigit then some (Scientific.digitsValue line) else none

/-- Reads two times with an arrow between them. -/
def readTiming? (line : List Char) : Option (Nat × Nat) := do
  let [start, arrow, finish] := Text.splitOn ' ' line | none
  if arrow ≠ "-->".toList then none
  return (← readStamp? start, ← readStamp? finish)

def readBlock? (lines : Lines) : Option Entry := do
  let number :: timing :: text := lines | none
  let (start, finish) ← readTiming? timing
  return ⟨← readNumber? number, start, finish, .ofList (['\n'].intercalate text)⟩

/-- The stretches of lines between empty lines. -/
def blocks (lines : Lines) : List Lines := (lines.splitOn []).filter (!·.isEmpty)

def read? (s : String) : Option (List Entry) :=
  (blocks (Text.splitOn '\n' s.toList)).mapM readBlock?

/-! ### The lines of an entry -/

/-- A block of a file, with the end of its last line. -/
def Entry.block (e : Entry) : String :=
  toString e.number ++ "\n" ++ stamp e.start ++ " --> " ++ stamp e.finish ++ "\n" ++ e.text ++ "\n"

/-- Blocks with an empty line between them. -/
def file (entries : List Entry) : String := "\n".intercalate (entries.map Entry.block)

def Entry.timing (e : Entry) : List Char :=
  (stamp e.start).toList ++ ' ' :: ("-->".toList ++ ' ' :: (stamp e.finish).toList)

def Entry.lines (e : Entry) : Lines :=
  Text.decimal e.number :: e.timing :: Text.splitOn '\n' e.text.toList

/-- Whether a text has no empty line. -/
def isUnbroken (text : String) : Bool := !(Text.splitOn '\n' text.toList).contains []

variable {ls ms : Lines} {l : List Char} {e : Entry} {entries : List Entry}

theorem not_mem_stamp {c : Char} (hc : c.isDigit = false) (hcolon : c ≠ ':') (hcomma : c ≠ ',')
    (n : Nat) : c ∉ (stamp n).toList := by
  have hfield (width k : Nat) : c ∉ Text.decimalPadded width k :=
    not_mem_of_isDigits hc (isDigit_decimalPadded width k)
  simp [toList_stamp, hfield, hcolon, hcomma]

theorem readTiming?_timing (e : Entry) : readTiming? e.timing = some (e.start, e.finish) := by
  have hspace (n : Nat) : ' ' ∉ (stamp n).toList := not_mem_stamp rfl (by decide) (by decide) n
  have hsplit : Text.splitOn ' ' e.timing =
      [(stamp e.start).toList, "-->".toList, (stamp e.finish).toList] := by
    rw [Entry.timing, Text.splitOn_eq, List.splitOn_append_cons_self_of_not_mem (hspace _),
      List.splitOn_append_cons_self_of_not_mem (by decide), List.splitOn_eq_singleton (hspace _)]
  simp [readTiming?, hsplit, readStamp?_stamp]

theorem readNumber?_decimal (n : Nat) : readNumber? (Text.decimal n) = some n := by
  have hdigits : (Text.decimal n).all Char.isDigit = true := List.all_eq_true.2 (IsDigits.decimal n)
  have hne : (Text.decimal n).isEmpty = false := by
    have hlength := Binary64.length_decimal_pos n
    cases h : Text.decimal n <;> simp_all
  rw [readNumber?, hdigits, hne, Scientific.digitsValue_decimal]
  rfl

/-- The lines of an entry are read as that entry. -/
theorem readBlock?_lines (e : Entry) : readBlock? e.lines = some e := by
  have htext : String.ofList (['\n'].intercalate (Text.splitOn '\n' e.text.toList)) = e.text := by
    rw [Text.splitOn_eq, List.intercalate_splitOn, String.ofList_toList]
  simp [readBlock?, Entry.lines, readTiming?_timing, readNumber?_decimal, htext]

/-! ### Blocks -/

theorem blocks_append (ls ms : Lines) : blocks (ls ++ [] :: ms) = blocks ls ++ blocks ms := by
  rw [blocks, List.splitOn_append_cons_self, List.filter_append, blocks, blocks]

theorem blocks_eq_singleton (hne : ls ≠ []) (h : [] ∉ ls) : blocks ls = [ls] := by
  rw [blocks, List.splitOn_eq_singleton h]
  cases ls with
  | nil => exact absurd rfl hne
  | cons => rfl

/-- Lines of which one is not empty have a block. -/
theorem blocks_ne_nil (hl : l ∈ ls) (hne : l ≠ []) : blocks ls ≠ [] := by
  induction ls with
  | nil => cases hl
  | cons first rest ih =>
    rw [blocks, List.splitOn_cons_eq_if_modifyHead]
    split
    · rename_i hempty
      rcases List.mem_cons.1 hl with rfl | hl
      · exact absurd (eq_of_beq hempty) hne
      · simpa [blocks] using ih hl
    · obtain ⟨piece, pieces, hpieces⟩ := List.exists_cons_of_ne_nil (List.splitOn_ne_nil [] rest)
      simp [hpieces]

/-! ### Files -/

theorem toList_block (e : Entry) : e.block.toList =
    Text.decimal e.number ++ '\n' :: (e.timing ++ '\n' :: (e.text.toList ++ ['\n'])) := by
  have hbreak : "\n".toList = ['\n'] := rfl
  have harrow : " --> ".toList = ' ' :: ("-->".toList ++ [' ']) := rfl
  simp [Entry.block, Entry.timing, String.toList_append, Text.decimal, hbreak, harrow]

theorem not_mem_timing (e : Entry) : '\n' ∉ e.timing := by
  have hstamp (n : Nat) : '\n' ∉ (stamp n).toList := not_mem_stamp rfl (by decide) (by decide) n
  simp [Entry.timing, hstamp]

/-- A block is the lines of its entry, each with its end. -/
theorem splitOn_block (e : Entry) (rest : List Char) :
    Text.splitOn '\n' (e.block.toList ++ rest) = e.lines ++ Text.splitOn '\n' rest := by
  have hnumber : '\n' ∉ Text.decimal e.number := not_mem_of_isDigits rfl (IsDigits.decimal _)
  rw [toList_block, Entry.lines]
  simp only [Text.splitOn_eq, List.append_assoc, List.cons_append, List.nil_append]
  rw [List.splitOn_append_cons_self_of_not_mem hnumber,
    List.splitOn_append_cons_self_of_not_mem (not_mem_timing e), List.splitOn_append_cons_self]

/-- A file comes apart into the blocks of its entries. -/
theorem blocks_file (entries : List Entry) :
    blocks (Text.splitOn '\n' (file entries).toList) = entries.flatMap fun e => blocks e.lines := by
  induction entries with
  | nil => rfl
  | cons e rest ih =>
    have hbreak : "\n".toList = ['\n'] := rfl
    have hempty : Text.splitOn '\n' [] = [[]] := rfl
    cases rest with
    | nil =>
      have hfile : (file [e]).toList = e.block.toList ++ [] := by
        simp [file]
      rw [hfile, splitOn_block, hempty, blocks_append]
      simp [blocks]
    | cons e' rest =>
      have hfile : (file (e :: e' :: rest)).toList =
          e.block.toList ++ '\n' :: (file (e' :: rest)).toList := by
        simp [file, String.toList_intercalate, hbreak]
      have hnext : Text.splitOn '\n' ('\n' :: (file (e' :: rest)).toList) =
          [] :: Text.splitOn '\n' (file (e' :: rest)).toList := if_pos rfl
      rw [hfile, splitOn_block, hnext, blocks_append, ih]
      rfl

theorem blocks_lines (h : isUnbroken e.text = true) : blocks e.lines = [e.lines] := by
  refine blocks_eq_singleton (List.cons_ne_nil _ _) ?_
  have htiming : e.timing ≠ [] := by simp [Entry.timing]
  have hnumber : Text.decimal e.number ≠ [] :=
    List.ne_nil_of_length_pos (Binary64.length_decimal_pos _)
  simp only [Entry.lines, List.mem_cons, not_or]
  exact ⟨hnumber.symm, htiming.symm, by simpa [isUnbroken] using h⟩

/-- Entries without empty lines in their texts are read back. -/
theorem read?_file (h : ∀ e ∈ entries, isUnbroken e.text = true) :
    read? (file entries) = some entries := by
  rw [read?, blocks_file, Outcome.mapM_eq_some]
  induction entries with
  | nil => exact .nil
  | cons e entries ih =>
    obtain ⟨he, hrest⟩ := List.forall_mem_cons.1 h
    rw [List.flatMap_cons, blocks_lines he]
    exact .cons (readBlock?_lines e) (ih hrest)

example : read? "1\n00:00:00,000 --> 00:00:00,500\nHello\n\n2\n00:01:01,250 --> 01:02:05,000\nLater\n" =
    some [⟨1, 0, 500, "Hello"⟩, ⟨2, 61250, 3725000, "Later"⟩] := by decide +kernel

/-! ### Empty lines -/

theorem splitOn_concat {separator last : Char} (hlast : last ≠ separator) (init : List Char) :
    ∃ pieces piece, Text.splitOn separator (init ++ [last]) = pieces ++ [piece ++ [last]] := by
  induction init with
  | nil => exact ⟨[], [], by simp [Text.splitOn, hlast]⟩
  | cons c init ih =>
    obtain ⟨pieces, piece, hpieces⟩ := ih
    rw [List.cons_append, Text.splitOn, hpieces]
    split
    · exact ⟨[] :: pieces, piece, rfl⟩
    · cases pieces with
      | nil => exact ⟨[], c :: piece, rfl⟩
      | cons first pieces => exact ⟨(c :: first) :: pieces, piece, rfl⟩

/-- A text that does not end with the end of a line. -/
def EndsInLine (text : String) : Prop :=
  ∃ init last, text.toList = init ++ [last] ∧ last ≠ '\n'

/-- An empty line in a text takes its entry apart. -/
theorem two_le_length_blocks (hends : EndsInLine e.text) (h : isUnbroken e.text = false) :
    2 ≤ (blocks e.lines).length := by
  obtain ⟨init, last, htext, hlast⟩ := hends
  obtain ⟨pieces, piece, hpieces⟩ := splitOn_concat hlast init
  rw [← htext] at hpieces
  -- The last line is not empty, so that there is one before it which is.
  have hempty : [] ∈ pieces := by
    have hmem : [] ∈ pieces ++ [piece ++ [last]] := by simpa [isUnbroken, hpieces] using h
    simpa using hmem
  obtain ⟨before, after, rfl⟩ := List.append_of_mem hempty
  have hlines : e.lines = (Text.decimal e.number :: e.timing :: before) ++
      [] :: (after ++ [piece ++ [last]]) := by
    simp [Entry.lines, hpieces]
  have hfirst : blocks (Text.decimal e.number :: e.timing :: before) ≠ [] :=
    blocks_ne_nil List.mem_cons_self (List.ne_nil_of_length_pos (Binary64.length_decimal_pos _))
  have hsecond : blocks (after ++ [piece ++ [last]]) ≠ [] :=
    blocks_ne_nil (l := piece ++ [last]) (by simp) (by simp)
  have hfirst := List.length_pos_iff.2 hfirst
  have hsecond := List.length_pos_iff.2 hsecond
  rw [hlines, blocks_append, List.length_append]
  omega

theorem length_blocks_pos (e : Entry) : 0 < (blocks e.lines).length :=
  List.length_pos_iff.2 (blocks_ne_nil List.mem_cons_self
    (List.ne_nil_of_length_pos (Binary64.length_decimal_pos _)))

theorem length_le_flatMap (entries : List Entry) :
    entries.length ≤ (entries.flatMap fun e => blocks e.lines).length := by
  induction entries with
  | nil => exact Nat.zero_le _
  | cons e entries ih =>
    have hpos := length_blocks_pos e
    rw [List.flatMap_cons, List.length_append, List.length_cons]
    omega

/-- Where as many entries are read as were written, no text has an empty line. -/
theorem isUnbroken_of_read?_file {written : List Entry} (h : read? (file written) = some entries)
    (hlength : entries.length = written.length) (hends : ∀ e ∈ written, EndsInLine e.text) :
    ∀ e ∈ written, isUnbroken e.text = true := by
  rw [read?, blocks_file, Outcome.mapM_eq_some] at h
  have hcount := h.length_eq
  rw [hlength] at hcount
  clear h hlength
  induction written with
  | nil => exact nofun
  | cons e written ih =>
    obtain ⟨he, hends⟩ := List.forall_mem_cons.1 hends
    have hrest := length_le_flatMap written
    have hpos := length_blocks_pos e
    rw [List.flatMap_cons, List.length_append, List.length_cons] at hcount
    refine List.forall_mem_cons.2 ⟨?_, ih hends (by omega)⟩
    by_contra hbroken
    have htwo := two_le_length_blocks he (Bool.eq_false_iff.2 hbroken)
    omega

end Montage.SubRip
