import Montage.Graph.Caption
import Montage.Graph.Layer
import Montage.Graph.Quality

/-!
Programs for the engine: `Compiler.compile` turns a timeline into a filter graph, and `concat` joins
clips that are encoded already.
-/

namespace Montage.Graph

structure Compiler where
  canvas : Canvas := {}
  outputName : String := "output.mp4"

def canvasColor : String := "black"

def canvasStatement (canvas : Canvas) (duration : Binary64) : Statement Binary64 where
  inputs := []
  filters := [.color canvasColor canvas.width canvas.height duration]
  output := .base

namespace Placed

/-- The picture of an input, cut and scaled, and moved to its start. -/
def visual (canvas : Canvas) (p : Placed) : Statement Binary64 where
  inputs := [.stream p.index .picture]
  filters :=
    (if p.isImage then [] else [.trim false p.clip.trimStart p.clip.duration]) ++
      [.scale canvas.width canvas.height, .shift p.clip.start]
  output := .visual p.index

/-- The picture of an input over what lies below, while the clip lasts. -/
def laidOver (p : Placed) (stage : Nat) (below : Label) : Statement Binary64 where
  inputs := [below, .visual p.index]
  filters := [.overlay ⟨p.clip.start, p.clip.finish, false⟩ 0 0]
  output := .stage stage

/-- The sound of an input, cut, and delayed to its start. -/
def sound (p : Placed) : Except Fault (Statement Binary64) := do
  let delay ← Timecode.milliseconds (.max .zero p.clip.start)
  return {
    inputs := [.stream p.index .sound]
    filters := [.trim true p.clip.trimStart p.clip.duration, .resetSound, .delay delay]
    output := .audio p.index }

/-- The statements for the sound of a layer; there are none when it is not heard. -/
def sounds (p : Placed) : Except Fault (List (Statement Binary64)) := do
  if p.isHeard then return [← p.sound] else return []

end Placed

/-- The statements of all layers, each picture over those before it, and the label of the whole. -/
def stackLayers (canvas : Canvas) :
    List Placed → Nat → Label → Except Fault (List (Statement Binary64) × Label)
  | [], _, below => return ([], below)
  | p :: rest, stage, below => do
    let sounds ← p.sounds
    if p.isSeen then
      let (more, top) ← stackLayers canvas rest (stage + 1) (.stage stage)
      return (p.visual canvas :: p.laidOver stage below :: sounds ++ more, top)
    else
      let (more, top) ← stackLayers canvas rest stage below
      return (sounds ++ more, top)

/-- All sounds mixed into one, when there are any. -/
def mixStatement? (sounds : List Label) : Option (Statement Binary64) :=
  if sounds.isEmpty then none else some ⟨sounds, [.mix sounds.length], .finalSound⟩

/-- The texts in order, numbered from `index` on, each over the picture with those before it. The
last one makes the whole picture; without any the picture is passed through. -/
def captionStatements : Label → Nat → List Caption → List (Statement Binary64)
  | below, _, [] => [⟨[below], [.passthrough], .finalPicture⟩]
  | below, _, [caption] => [⟨[below], [.drawText caption.filter], .finalPicture⟩]
  | below, index, caption :: rest =>
    ⟨[below], [.drawText caption.filter], .caption index⟩ ::
      captionStatements (.caption index) (index + 1) rest

/-- The program of a timeline, from the layers that have an input, the statements that stack them
and the label that these end in. -/
def Compiler.assemble (c : Compiler) (t : Timeline) (quality : Value) (placed : List Placed)
    (stack : List (Statement Binary64)) (top : Label) (captions : List Caption)
    (warnings : List String) : Program Binary64 :=
  let duration := t.totalDuration
  let mix := mixStatement? ((placed.filter (·.isHeard)).map fun p => Label.audio p.index)
  let sound := mix.map (·.output)
  let quality := Quality.ofValue quality
  let inputs := placed.map (·.input)
  { statements := canvasStatement c.canvas duration :: stack ++ mix.toList ++
      captionStatements top 0 captions
    inputs
    sideFiles := captions.map (·.file)
    fonts := (captions.map (·.font)).eraseDups
    picture := some .finalPicture
    sound
    encode := some {
      outputName := c.outputName
      picture := some .finalPicture
      sound
      preset := some quality.preset
      crf := some quality.crf
      duration := some duration }
    totalDuration := duration
    warnings := warnings ++ captions.flatMap (·.warnings)
    payloadNames := inputs.map (·.name) }

/-- Refuses a graph that does not define the labels that are mapped to the output. -/
def Program.checkTerminals (p : Program Binary64) : Except Fault Unit := do
  let outputs := p.statements.map (·.output)
  if !outputs.contains .finalPicture then
    throw (.inconsistent "terminal video label was never defined")
  if p.sound.any fun label => !outputs.contains label then
    throw (.inconsistent "terminal audio label was never defined")

/-- A program that renders a timeline. Clips whose asset is missing or failed are left out. -/
def Compiler.compile (c : Compiler) (t : Timeline) (quality : Value := .text "medium")
    (assets : Option Assets := none) : Except Fault (Program Binary64) := do
  let warnings ← layerWarnings t assets
  let placed := placed assets (layers t)
  let (stack, top) ← stackLayers c.canvas placed 0 .base
  let captions ← t.overlays.zipIdx.mapM fun (o, index) => Caption.ofOverlay c.canvas index o
  let p := c.assemble t quality placed stack top captions warnings
  p.checkTerminals
  return p

def concatListName : String := "merge_list.txt"

def concatOutputName : String := "merged_output.mp4"

/-- A program that joins clips in order, without encoding them again. -/
def concat (names : List String) (outputName : String := concatOutputName) :
    Except Fault (Program Binary64) := do
  if names.isEmpty then throw (.rejected (.noClips "concatenate"))
  let list := "\n".intercalate (names.map fun name => "file '" ++ name ++ "'")
  return {
    inputs := [{ index := 0, name := concatListName, demuxer := some "concat" }]
    sideFiles := [⟨concatListName, list.toUTF8⟩]
    encode := some { outputName, streamCopy := true }
    totalDuration := .zero
    payloadNames := names }

end Montage.Graph
