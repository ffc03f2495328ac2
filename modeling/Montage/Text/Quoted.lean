import Montage.Text.Blank
import Montage.Text.Printable

/-!
Text between quotes: single ones, or double ones when the text holds a single and no double quote.
The quote and the backslash are escaped, and so is every character that is not printable.
-/

namespace Montage.Text

def hexPadded (width n : Nat) : List Char := padLeft width '0' (Nat.toDigits 16 n)

/-- One character between quotes of the given kind. -/
def escapeChar (quote c : Char) : List Char :=
  if c = quote || c = '\\' then ['\\', c]
  else if c = '\n' then ['\\', 'n']
  else if c = '\r' then ['\\', 'r']
  else if c = '\t' then ['\\', 't']
  else if isPrintable c then [c]
  else if c.toNat < 0x100 then '\\' :: 'x' :: hexPadded 2 c.toNat
  else if c.toNat < 0x10000 then '\\' :: 'u' :: hexPadded 4 c.toNat
  else '\\' :: 'U' :: hexPadded 8 c.toNat

def quoteFor (cs : List Char) : Char :=
  if cs.contains '\'' && !cs.contains '"' then '"' else '\''

def quoted (s : String) : String :=
  let quote := quoteFor s.toList
  .ofList (quote :: (s.toList.flatMap (escapeChar quote) ++ [quote]))

end Montage.Text
