/-!
Bytes written in sixty-four characters, six bits each. Other characters between them do not count; an
equals sign fills up the last four.
-/

namespace Montage.Text

/-- The six bits that a character stands for. -/
def sixBits? (c : Char) : Option Nat :=
  if 'A' ≤ c && c ≤ 'Z' then some (c.toNat - 0x41)
  else if 'a' ≤ c && c ≤ 'z' then some (c.toNat - 0x61 + 26)
  else if c.isDigit then some (c.toNat - 0x30 + 52)
  else if c = '+' then some 62
  else if c = '/' then some 63
  else none

/-- A row of up to four characters. -/
structure Quartet where
  size : Nat := 0
  /-- the bits that are not in a byte yet -/
  bits : Nat := 0
  /-- how many equals signs came after the last character -/
  pads : Nat := 0

/-- Adds six bits, of which some complete a byte. -/
def Quartet.add (q : Quartet) (v : Nat) : Quartet × Option UInt8 :=
  match q.size with
  | 0 => (⟨1, v, 0⟩, none)
  | 1 => (⟨2, v % 16, 0⟩, some (.ofNat (q.bits * 4 + v / 16)))
  | 2 => (⟨3, v % 4, 0⟩, some (.ofNat (q.bits * 16 + v / 4)))
  | _ => ({}, some (.ofNat (q.bits * 64 + v)))

def base64From (q : Quartet) : List Char → Option (List UInt8)
  | [] => if q.size = 0 then some [] else none
  | '=' :: rest =>
    if q.size < 2 then base64From q rest
    else if 4 ≤ q.size + (q.pads + 1) then some []
    else base64From { q with pads := q.pads + 1 } rest
  | c :: rest =>
    match sixBits? c with
    | none => base64From q rest
    | some v =>
      let (q, byte) := q.add v
      (base64From q rest).map (byte.toList ++ ·)

/-- The bytes of a text; `none` when the text is not plain or its last four characters are
incomplete. -/
def base64? (cs : List Char) : Option (List UInt8) :=
  if cs.all (·.toNat < 0x80) then base64From {} cs else none

end Montage.Text
