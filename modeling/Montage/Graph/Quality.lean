import Montage.Value

/-!
Quality levels: a slower preset and a lower rate factor for a higher level.
-/

namespace Montage.Graph

structure Quality where
  preset : String
  crf : Int
  deriving DecidableEq, Repr

namespace Quality

def high : Quality := ⟨"slow", 18⟩

def medium : Quality := ⟨"medium", 23⟩

def low : Quality := ⟨"fast", 28⟩

/-- The level by its name, in any case and with blanks around it; anything else is medium. -/
def ofValue : Value → Quality
  | .text s =>
    let name := Text.lower (Text.strip s)
    if name = "high" then high else if name = "low" then low else medium
  | _ => medium

end Quality

end Montage.Graph
