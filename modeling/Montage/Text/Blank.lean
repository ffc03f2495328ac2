/-!
Blank characters, the breaks between lines, and the operations on text that depend on them.
-/

namespace Montage.Text

/-- Spaces, tabs, line ends and the four information separators. -/
def isBlank (c : Char) : Bool :=
  let n := c.toNat
  (0x9 ≤ n && n ≤ 0xd) || (0x1c ≤ n && n ≤ 0x20) || n = 0x85 || n = 0xa0 || n = 0x1680 ||
    (0x2000 ≤ n && n ≤ 0x200a) || n = 0x2028 || n = 0x2029 || n = 0x202f || n = 0x205f || n = 0x3000

def dropWhileRight (p : Char → Bool) (cs : List Char) : List Char :=
  (cs.reverse.dropWhile p).reverse

/-- The characters between those of a class at either end. -/
def trim (p : Char → Bool) (cs : List Char) : List Char :=
  dropWhileRight p (cs.dropWhile p)

def trimBlank (cs : List Char) : List Char := trim isBlank cs

/-- The text without the blanks at either end. -/
def strip (s : String) : String :=
  .ofList (trimBlank s.toList)

/-- Characters that end a line by themselves; a carriage return and a line feed end it together. -/
def isLineEnd (c : Char) : Bool :=
  let n := c.toNat
  (0xa ≤ n && n ≤ 0xd) || (0x1c ≤ n && n ≤ 0x1e) || n = 0x85 || n = 0x2028 || n = 0x2029

/-- Lines from a list of characters, given the characters of the line begun so far. -/
def linesFrom (line : List Char) : List Char → List (List Char)
  | [] => if line.isEmpty then [] else [line.reverse]
  | '\r' :: '\n' :: rest => line.reverse :: linesFrom [] rest
  | c :: rest =>
    if isLineEnd c then line.reverse :: linesFrom [] rest else linesFrom (c :: line) rest

/-- The lines of a text, without their ends; an end of line at the end of the text begins no
further line. -/
def lines (s : String) : List String :=
  (linesFrom [] s.toList).map .ofList

/-- The pieces between occurrences of a character, at least one. -/
def splitOn (separator : Char) : List Char → List (List Char)
  | [] => [[]]
  | c :: rest =>
    if c = separator then [] :: splitOn separator rest
    else match splitOn separator rest with
      | [] => [[c]]
      | piece :: pieces => (c :: piece) :: pieces

/-- The pieces around the first occurrence of a character; the second is `none` without one. -/
def breakOn (separator : Char) (cs : List Char) : List Char × Option (List Char) :=
  match cs.dropWhile (· ≠ separator) with
  | [] => (cs, none)
  | _ :: rest => (cs.takeWhile (· ≠ separator), some rest)

def padLeft (width : Nat) (fill : Char) (cs : List Char) : List Char :=
  List.replicate (width - cs.length) fill ++ cs

/-- The decimal digits of a number. -/
def decimal (n : Nat) : List Char := Nat.toDigits 10 n

/-- The decimal digits of a number, with zeros in front up to a width. -/
def decimalPadded (width n : Nat) : List Char := padLeft width '0' (decimal n)

/-- Whether the text starts with the given characters. -/
def startsWith (start s : String) : Bool := start.toList.isPrefixOf s.toList

def endsWith (ending s : String) : Bool := ending.toList.isSuffixOf s.toList

/-- Letters `A` to `Z` in lower case, and the two characters outside that range whose lower case
starts with such a letter. -/
def lowerChar (c : Char) : List Char :=
  if c = '\u212a' then ['k'] else if c = '\u0130' then ['i', '\u0307'] else [c.toLower]

/-- Lower case as far as it concerns comparison with words of plain Latin letters. -/
def lower (s : String) : String :=
  .ofList (s.toList.flatMap lowerChar)

end Montage.Text
