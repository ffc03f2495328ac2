import Montage.Graph.Caption

/-!
Changes to a compiled program: a font without a file is no longer named, and the sound of an input
without an audio stream is taken out of the mix.
-/

namespace Montage.Graph

variable {τ : Type}

def Filter.dropFont (file : String) : Filter τ → Filter τ
  | .drawText d => .drawText (if d.fontFile = some file then { d with fontFile := none } else d)
  | f => f

def Statement.dropFont (file : String) (s : Statement τ) : Statement τ :=
  { s with filters := s.filters.map (·.dropFont file) }

/-- Texts in this font are drawn in the font that the engine has by itself. -/
def Program.dropFont (p : Program τ) (font : String) : Program τ :=
  { p with
    statements := p.statements.map (·.dropFont (fontFile font))
    fonts := p.fonts.erase font
    warnings := p.warnings ++ [s!"font {font} not found, using the engine default font"] }

/-- The inputs whose sound is part of the mix. -/
def Program.soundInputs (p : Program τ) : List (InputSpec τ) :=
  let labels := p.statements.flatMap (·.inputs)
  p.inputs.filter fun i => labels.contains (.stream i.index .sound)

def Statement.reads (s : Statement τ) (l : Label) : Bool := s.inputs.contains l

/-- A mix without the given labels; nothing when none is left. -/
def Statement.unmix? (removed : List Label) (s : Statement τ) : Option (Statement τ) :=
  if s.output ≠ .finalSound then some s
  else
    let left := s.inputs.filter fun l => !removed.contains l
    if left.isEmpty then none
    else some { s with inputs := left, filters := [.mix left.length] }

def soundWarning (index : Int) : String :=
  s!"input {index} has no audio stream, dropping its audio"

/-- Whether a statement reads the sound of the input with this number. -/
def Statement.readsSound (index : Int) (s : Statement τ) : Bool :=
  0 ≤ index && s.reads (.stream index.toNat .sound)

/-- Takes the sound of one input out of the mix; without any sound left the picture is encoded
alone. -/
def Program.dropSound (p : Program τ) (index : Int) : Program τ :=
  let removed := (p.statements.filter (·.readsSound index)).map (·.output)
  let rest := p.statements.filter fun s => !s.readsSound index
  let statements := rest.filterMap (·.unmix? removed)
  let silent := rest.any fun s => (s.unmix? removed).isNone
  { p with
    statements
    sound := if silent then none else p.sound
    encode := if silent then p.encode.map ({ · with sound := none }) else p.encode
    warnings := p.warnings ++ [soundWarning index] }

end Montage.Graph
