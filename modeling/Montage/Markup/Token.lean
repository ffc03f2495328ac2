import Montage.Fault

/-!
The tokens of a marked-up text.
-/

namespace Montage.Markup

inductive Directive where
  | version (major minor : Nat)
  | tagHandle (handle tagStart : String)
  | unknown
  deriving DecidableEq, Repr

inductive Token where
  | directive (d : Directive)
  | documentStart
  | documentEnd
  | blockSequenceStart
  | blockMappingStart
  | blockEnd
  | flowSequenceStart
  | flowSequenceEnd
  | flowMappingStart
  | flowMappingEnd
  | blockEntry
  | flowEntry
  | key
  | value
  | alias (name : String)
  | anchor (name : String)
  | tag (handle : Option String) (suffix : String)
  | scalar (text : String) (plain : Bool)
  | streamEnd
  deriving DecidableEq, Repr

/-- The tokens of a text up to its end, or up to a place where it is at fault. -/
structure Tokens where
  list : List Token
  fault : Option Fault := none

end Montage.Markup
