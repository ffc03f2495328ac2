/-!
Bytes as text. Bytes that are no character stand as U+FFFD, one for each longest row of bytes that
begins as a character does.
-/

namespace Montage.Text

/-- How many bytes a character has that begins with a byte, and where its second byte lies. -/
structure Lead where
  size : Nat
  low : Nat := 0x80
  high : Nat := 0xbf

/-- What a first byte says; none when no character begins with it. -/
def leadOf? (b : Nat) : Option Lead :=
  if b < 0x80 then some { size := 1 }
  else if b < 0xc2 then none
  else if b < 0xe0 then some { size := 2 }
  else if b < 0xf0 then
    some { size := 3, low := if b = 0xe0 then 0xa0 else 0x80, high := if b = 0xed then 0x9f else 0xbf }
  else if b < 0xf5 then
    some { size := 4, low := if b = 0xf0 then 0x90 else 0x80, high := if b = 0xf4 then 0x8f else 0xbf }
  else none

/-- The bytes that follow a first byte as they must, at most so many. -/
def followers : Nat → Nat → Nat → List UInt8 → List UInt8
  | count + 1, low, high, b :: rest =>
    if b.toNat < low || high < b.toNat then [] else b :: followers count 0x80 0xbf rest
  | _, _, _, _ => []

def replacement : Char := '\ufffd'

/-- The character that some bytes are. -/
def charOf? (bytes : List UInt8) : Option (List Char) :=
  (String.fromUTF8? ⟨bytes.toArray⟩).map (·.toList)

/-- The characters of bytes, of which the first `skip` belong to the character before. -/
def charsOfBytes : Nat → List UInt8 → List Char
  | _, [] => []
  | skip + 1, _ :: rest => charsOfBytes skip rest
  | 0, b :: rest =>
    match leadOf? b.toNat with
    | none => replacement :: charsOfBytes 0 rest
    | some lead =>
      let more := followers (lead.size - 1) lead.low lead.high rest
      let whole := if more.length + 1 = lead.size then charOf? (b :: more) else none
      whole.getD [replacement] ++ charsOfBytes more.length rest

/-- The number of the first byte that shows that the bytes are no text; that of the end when the last
character is incomplete. The first number counts bytes of the character before, the second one all
bytes so far. -/
def faultAt? : Nat → Nat → List UInt8 → Option Nat
  | _, _, [] => none
  | skip + 1, i, _ :: rest => faultAt? skip (i + 1) rest
  | 0, i, b :: rest =>
    match leadOf? b.toNat with
    | none => some i
    | some lead =>
      let more := (followers (lead.size - 1) lead.low lead.high rest).length
      if more + 1 = lead.size then faultAt? more (i + 1) rest else some (i + 1 + more)

/-- The text of bytes. -/
def ofBytes (data : ByteArray) : String :=
  match String.fromUTF8? data with
  | some s => s
  | none => .ofList (charsOfBytes 0 data.toList)

end Montage.Text
