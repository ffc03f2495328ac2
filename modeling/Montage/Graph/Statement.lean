import Montage.Timeline.Source

/-!
Statements of a filter graph: a chain of filters from input labels to one output label. The type of
times is a parameter, so that a statement can hold exact times, raw values or texts.
-/

namespace Montage.Graph

inductive Stream where
  | picture
  | sound
  deriving DecidableEq, Repr

/-- The name of a point in the graph. -/
inductive Label where
  /-- a stream of an input -/
  | stream (input : Nat) (kind : Stream)
  /-- the bare canvas -/
  | base
  /-- the picture of an input, ready to be laid over -/
  | visual (input : Nat)
  /-- the canvas with the first layers on it -/
  | stage (layer : Nat)
  /-- the sound of an input, ready to be mixed -/
  | audio (input : Nat)
  /-- the picture with the first texts on it -/
  | caption (overlay : Nat)
  | finalPicture
  | finalSound
  | named (name : String)
  deriving DecidableEq, Repr

def Label.text : Label → String
  | stream input .picture => s!"{input}:v"
  | stream input .sound => s!"{input}:a"
  | base => "base"
  | visual input => s!"visual{input}"
  | stage layer => s!"tmp{layer}"
  | audio input => s!"audio{input}"
  | caption overlay => s!"text{overlay}"
  | finalPicture => "outv"
  | finalSound => "outa"
  | named name => name

/-- When a layer is shown: from the start to before the finish, or to the finish itself. -/
structure Window (τ : Type) where
  start : τ
  finish : τ
  closed : Bool
  deriving DecidableEq

def Window.contains (w : Window Binary64) (t : Binary64) : Bool :=
  if t.lt w.start then false
  else if w.closed then t.le w.finish
  else t.lt w.finish

/-- As `Window.contains`, for a number of any kind. -/
def Window.holds (w : Window Binary64) (t : Value) : Except Fault Bool :=
  match t.number? with
  | none => .error (.misuse .kind)
  | some t =>
    let finish : Value.Number := .float w.finish
    .ok (!t.isBelow (.float w.start) && if w.closed then t.isAtMost finish else t.isBelow finish)

/-- A text over the picture, read from a file and centred on an anchor. -/
structure DrawText (τ : Type) where
  textFile : String
  fontFile : Option String
  anchorX : Int
  anchorY : Int
  fontSize : Int
  color : String
  window : Window τ
  deriving DecidableEq

inductive Filter (τ : Type) where
  | color (color : String) (width height : Int) (duration : τ)
  | trim (audio : Bool) (start duration : τ)
  | scale (width height : Int)
  /-- resets the timestamps of a picture, then moves them -/
  | shift (offset : τ)
  /-- resets the timestamps of a sound -/
  | resetSound
  | delay (milliseconds : Int)
  | overlay (window : Window τ) (x y : Int)
  | drawText (text : DrawText τ)
  | mix (inputs : Int)
  | passthrough
  /-- a window on its own, which no engine accepts -/
  | gate (window : Window τ)
  deriving DecidableEq

structure Statement (τ : Type) where
  inputs : List Label
  filters : List (Filter τ)
  output : Label
  deriving DecidableEq

variable {τ σ : Type}

def Filter.isOverlay : Filter τ → Bool
  | overlay .. => true
  | _ => false

def Window.map (f : τ → σ) (w : Window τ) : Window σ :=
  ⟨f w.start, f w.finish, w.closed⟩

def DrawText.map (f : τ → σ) (d : DrawText τ) : DrawText σ :=
  { d with window := d.window.map f }

def Filter.map (f : τ → σ) : Filter τ → Filter σ
  | color c w h d => color c w h (f d)
  | trim audio start duration => trim audio (f start) (f duration)
  | scale w h => scale w h
  | shift offset => shift (f offset)
  | resetSound => resetSound
  | delay ms => delay ms
  | overlay w x y => overlay (w.map f) x y
  | drawText d => drawText (d.map f)
  | mix n => mix n
  | passthrough => passthrough
  | gate w => gate (w.map f)

def Statement.map (f : τ → σ) (s : Statement τ) : Statement σ :=
  { s with filters := s.filters.map (·.map f) }

/-- Whether a statement lays one picture over another. -/
def Statement.isLayer (s : Statement τ) : Bool := s.filters.any (·.isOverlay)

/-- The last step: what is mapped to the output, how it is encoded, and for how long. -/
structure Encode (τ : Type) where
  outputName : String
  picture : Option Label := none
  sound : Option Label := none
  videoCodec : String := "libx264"
  audioCodec : String := "aac"
  preset : Option String := none
  crf : Option Int := none
  pixelFormat : Option String := some "yuv420p"
  duration : Option τ := none
  streamCopy : Bool := false

/-- A file that the engine reads. -/
structure InputSpec (τ : Type) where
  index : Nat
  name : String
  source : Option Source := none
  isImage : Bool := false
  loopDuration : Option τ := none
  demuxer : Option String := none
  clipId : Option String := none

/-- A file written beside the inputs. -/
structure SideFile where
  name : String
  data : ByteArray

structure Program (τ : Type) where
  statements : List (Statement τ) := []
  inputs : List (InputSpec τ) := []
  sideFiles : List SideFile := []
  fonts : List String := []
  picture : Option Label := none
  sound : Option Label := none
  encode : Option (Encode τ) := none
  totalDuration : τ
  warnings : List String := []
  payloadNames : List String := []

def Program.layerCount (p : Program τ) : Nat :=
  (p.statements.filter (·.isLayer)).length

end Montage.Graph
