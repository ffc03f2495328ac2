import Montage.Value

/-!
Words that may stand in a graph statement without quotes.
-/

namespace Montage.Graph

def isLatinOrDigit (c : Char) : Bool := c.isAlpha || c.isDigit

def isStyleChar (c : Char) : Bool := isLatinOrDigit c || "_.#@-".toList.contains c

def isFontChar (c : Char) : Bool := isLatinOrDigit c || "_-".toList.contains c

/-- One or more characters of the class; one line feed may follow them. -/
def isToken (allowed : Char → Bool) (cs : List Char) : Bool :=
  let word := if cs.getLast? = some '\n' then cs.dropLast else cs
  !word.isEmpty && word.all allowed

def styleToken? : Value → Option String
  | .text s => if isToken isStyleChar s.toList then some s else none
  | _ => none

def fontToken? : Value → Option String
  | .text s => if isToken isFontChar s.toList then some s else none
  | _ => none

end Montage.Graph
