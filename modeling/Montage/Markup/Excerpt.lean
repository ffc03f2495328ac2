import Montage.Markup.Cursor
import Montage.Text.Bytes

/-!
How much of a file's text can be read. A file is decoded and read in pieces, so that bytes that are no
text, and characters that must not stand in a document, are found only when the piece with them is
needed.
-/

namespace Montage.Markup

/-- How many bytes are decoded at once. -/
def decodedSize : Nat := 8192

/-- How many characters are read at once, after the first two pieces. -/
def pieceSize : Nat := 4096

/-- The text that can be read, and what is at fault behind it. -/
structure Excerpt where
  text : List Char
  behind : Option Fault := none

/-- Every end of line as one line feed. -/
def lineFeeds (s : String) : String := (s.replace "\r\n" "\n").replace "\r" "\n"

/-- The whole pieces among the first `count` characters; two pieces are read before all else. -/
def Excerpt.before (text : List Char) (count : Nat) (e : Fault) : Excerpt :=
  let pieces := count / pieceSize
  if pieces < 2 then ⟨[], some e⟩ else ⟨text.take (pieces * pieceSize), some e⟩

/-- The characters that are whole within the first `n` bytes. -/
def wholeText (data : ByteArray) (n : Nat) : String :=
  ((List.range 4).findSome? fun k => String.fromUTF8? (data.extract 0 (n - k))).getD ""

/-- The text of bytes of which the one with the given number shows that they are no text. -/
def Excerpt.ofBroken (data : ByteArray) (fault : Nat) : Excerpt :=
  let decoded := if fault < data.size then fault / decodedSize * decodedSize else data.size
  let s := wholeText data decoded
  let text := (lineFeeds (if s.endsWith "\r" then (s.dropEnd 1).toString else s)).toList
  .before text text.length (.misuse .encoding)

def Excerpt.decoded (data : ByteArray) : Excerpt :=
  match String.fromUTF8? data with
  | some s => ⟨(lineFeeds s).toList, none⟩
  | none => .ofBroken data ((Text.faultAt? 0 0 data.toList).getD 0)

/-- What can be read of the bytes of a file. -/
def Excerpt.ofBytes (data : ByteArray) : Excerpt :=
  let e := decoded data
  match e.text.findIdx? (!isAllowed ·) with
  | some i => .before e.text i .markup
  | none => e

end Montage.Markup
