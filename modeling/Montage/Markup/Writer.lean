import Montage.Text.Quoted
import Montage.Value

/-!
Values as a document: collections in their flow form, and texts between double quotes, in plain
characters of the first script only.
-/

namespace Montage.Markup

/-- A character between double quotes. -/
def quotedChar (c : Char) : List Char :=
  let n := c.toNat
  if c = '"' || c = '\\' then ['\\', c]
  else if 0x20 ≤ n && n < 0x7f then [c]
  else if n < 0x100 then '\\' :: 'x' :: Text.hexPadded 2 n
  else if n < 0x10000 then '\\' :: 'u' :: Text.hexPadded 4 n
  else '\\' :: 'U' :: Text.hexPadded 8 n

def quotedText (s : String) : String := .ofList ('"' :: (s.toList.flatMap quotedChar ++ ['"']))

mutual

def write : Value → String
  | .null => "null"
  | .bool b => if b then "true" else "false"
  | .int n => toString n
  | .float x => x.repr
  | .text s => quotedText s
  | .list items => "[" ++ ", ".intercalate (writeItems items) ++ "]"
  | .mapping entries => "\x7b" ++ ", ".intercalate (writeEntries entries) ++ "\x7d"
  | v => quotedText v.display

def writeItems : List Value → List String
  | [] => []
  | v :: rest => write v :: writeItems rest

def writeEntries : List (Value × Value) → List String
  | [] => []
  | (k, v) :: rest => (write k ++ ": " ++ write v) :: writeEntries rest

end

/-- A mapping with each entry on a line of its own. -/
def writeLines : Value → List String
  | .mapping entries => writeEntries entries
  | v => [write v]

end Montage.Markup
