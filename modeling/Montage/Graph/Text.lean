import Montage.Graph.Statement
import Montage.Timecode

/-!
The text of statements and the arguments of the engine. Times are rendered first, and whole numbers
must not have too many digits (`Statement.resolve`), so that printing is a total function of statements
whose times are texts.
-/

namespace Montage.Graph

/-- Times that a statement can be printed with. -/
class GraphTime (τ : Type) where
  render : τ → Except Fault String

instance : GraphTime Binary64 := ⟨fun x => .ok (Timecode.graphText x)⟩

instance : GraphTime Value := ⟨fun v => do return Timecode.graphText (← v.toBinary64)⟩

open GraphTime (render)

variable {τ : Type} [GraphTime τ]

def Window.resolve (w : Window τ) : Except Fault (Window String) := do
  return ⟨← render w.start, ← render w.finish, w.closed⟩

/-- A whole number that can be written. -/
def writable (n : Int) : Except Fault Int :=
  if (Value.int n).hasText then .ok n else .error (.misuse .value)

def DrawText.resolve (d : DrawText τ) : Except Fault (DrawText String) := do
  let x ← writable d.anchorX
  let y ← writable d.anchorY
  let size ← writable d.fontSize
  return { d with anchorX := x, anchorY := y, fontSize := size, window := ← d.window.resolve }

/-- A filter with its times rendered; a window on its own is refused, and so is a number with too many
digits. -/
def Filter.resolve : Filter τ → Except Fault (Filter String)
  | color c w h d => do
    let d ← render d
    return color c (← writable w) (← writable h) d
  | trim audio start duration => return trim audio (← render start) (← render duration)
  | scale w h => return scale (← writable w) (← writable h)
  | shift offset => return shift (← render offset)
  | resetSound => return resetSound
  | delay ms => return delay (← writable ms)
  | overlay w x y => do
    let x ← writable x
    let y ← writable y
    return overlay (← w.resolve) x y
  | drawText d => return drawText (← d.resolve)
  | mix n => return mix (← writable n)
  | passthrough => return passthrough
  | gate _ => throw (.rejected (.filterType "EnableWindow"))

def Statement.resolve (s : Statement τ) : Except Fault (Statement String) := do
  return { s with filters := ← s.filters.mapM (·.resolve) }

def Window.text (w : Window String) : String :=
  if w.closed then s!"between(t,{w.start},{w.finish})"
  else s!"gte(t,{w.start})*lt(t,{w.finish})"

def DrawText.text (d : DrawText String) : String :=
  let font := match d.fontFile with
    | some file => ["fontfile=" ++ file]
    | none => []
  "drawtext=" ++ ":".intercalate (font ++ [
    "textfile=" ++ d.textFile,
    "expansion=none",
    s!"x=({d.anchorX}-text_w/2)",
    s!"y=({d.anchorY}-text_h/2)",
    s!"fontsize={d.fontSize}",
    "fontcolor=" ++ d.color,
    "enable='" ++ d.window.text ++ "'"])

def Filter.text : Filter String → String
  | color c w h d => s!"color=c={c}:size={w}x{h}:d={d}"
  | trim true start duration => s!"atrim=start={start}:duration={duration}"
  | trim false start duration => s!"trim=start={start}:duration={duration}"
  | scale w h => s!"scale={w}:{h}"
  | shift offset => s!"setpts=PTS-STARTPTS+{offset}/TB"
  | resetSound => "asetpts=PTS-STARTPTS"
  | delay ms => s!"adelay={ms}:all=1"
  | overlay w x y => s!"overlay={x}:{y}:enable='" ++ w.text ++ "'"
  | drawText d => d.text
  | mix n => s!"amix=inputs={n}:normalize=0"
  | passthrough => "null"
  | gate w => w.text

def Label.pad (l : Label) : String := "[" ++ l.text ++ "]"

def Statement.text (s : Statement String) : String :=
  String.join (s.inputs.map (·.pad)) ++ ",".intercalate (s.filters.map (·.text)) ++ s.output.pad

def graphText (statements : List (Statement String)) : String :=
  "; ".intercalate (statements.map (·.text))

def Program.resolveStatements (p : Program τ) : Except Fault (List (Statement String)) :=
  p.statements.mapM (·.resolve)

def InputSpec.arguments (i : InputSpec τ) : Except Fault (List String) := do
  let demuxer := match i.demuxer with
    | some name => ["-f", name, "-safe", "0"]
    | none => []
  let loop ← match i.loopDuration with
    | some d => pure ["-loop", "1", "-t", ← render d]
    | none => pure []
  return demuxer ++ loop ++ ["-i", i.name]

def mapArguments : Option Label → List String
  | some label => ["-map", label.pad]
  | none => []

def option (flag : String) : Option String → List String
  | some value => [flag, value]
  | none => []

def Encode.codecArguments (e : Encode τ) : List String :=
  if e.streamCopy then ["-c", "copy"]
  else
    ["-c:v", e.videoCodec] ++ option "-c:a" (e.sound.map fun _ => e.audioCodec) ++
      option "-preset" e.preset ++ option "-crf" (e.crf.map toString) ++
      option "-pix_fmt" e.pixelFormat

def Encode.arguments (e : Encode τ) : Except Fault (List String) := do
  let duration ← match e.duration with
    | some d => pure ["-t", ← render d]
    | none => pure []
  return mapArguments e.picture ++ mapArguments e.sound ++ e.codecArguments ++ duration ++
    [e.outputName]

/-- The arguments of the engine, without those that every run has. -/
def Program.arguments (p : Program τ) : Except Fault (List String) := do
  let some encode := p.encode | throw (.rejected .noEncode)
  let inputs ← p.inputs.mapM (·.arguments)
  let statements ← p.resolveStatements
  let graph := if statements.isEmpty then [] else ["-filter_complex", graphText statements]
  return inputs.flatten ++ graph ++ (← encode.arguments)

def InputSpec.describe (i : InputSpec τ) : Except Fault Value := do
  let source := match i.source with
    | some s => [("source", s.describe)]
    | none => []
  let loop ← match i.loopDuration with
    | some d => pure [("loop", Value.text (← render d))]
    | none => pure []
  return .record ([("index", .int i.index), ("name", .text i.name), ("image", .bool i.isImage)] ++
    source ++ loop)

def labelValue : Option Label → Value
  | some label => .text label.text
  | none => .null

/-- A program as a plain mapping, for plans. -/
def Program.describe (p : Program τ) : Except Fault Value := do
  let inputs ← p.inputs.mapM (·.describe)
  let duration ← render p.totalDuration
  let statements ← p.resolveStatements
  let arguments ← p.arguments
  return .record [
    ("duration", .text duration),
    ("inputs", .list inputs),
    ("side_files", .texts (p.sideFiles.map (·.name))),
    ("fonts", .texts p.fonts),
    ("statements", .texts (statements.map (·.text))),
    ("video_label", labelValue p.picture),
    ("audio_label", labelValue p.sound),
    ("arguments", .texts arguments),
    ("warnings", .texts p.warnings)]

end Montage.Graph
