import Montage.Asset.Result
import Montage.Graph.Statement
import Montage.Timeline.Basic

/-!
The layers of a timeline: which clips need an input, in the order in which they are painted, and
which of them are left out.
-/

namespace Montage.Graph

/-- A clip of a visible track, with the kind of the track. -/
structure Layer where
  kind : TrackKind
  clip : Clip

/-- Video lies under images; audio adds sound only. -/
def paintOrder : List TrackKind := [.video, .image, .audio]

/-- The clips of the visible tracks, kind by kind. -/
def layers (t : Timeline) : List Layer :=
  paintOrder.flatMap fun kind =>
    ((t.tracksOfKind kind).filter (·.visible)).flatMap fun track => track.clips.map (⟨kind, ·⟩)

/-- The clips whose sources a program needs, in paint order. -/
def requiredClips (t : Timeline) : List Clip := (layers t).map (·.clip)

/-- Why a clip is left out. Without any assets every source counts as available. -/
def problem? (assets : Option Assets) (clip : Clip) : Option String :=
  match clip.source, assets with
  | none, _ => some "clip has no source"
  | some _, none => none
  | some _, some assets =>
    match assets.get? clip.id with
    | none => some "asset was not resolved"
    | some result => if result.ok then none else some (result.problem.getD "None")

/-- A layer that has an input, and the number of the input. -/
structure Placed where
  index : Nat
  layer : Layer
  source : Source

/-- A layer with its source, when it has one and nothing is against it. -/
def usable? (assets : Option Assets) (layer : Layer) : Option (Layer × Source) :=
  match layer.clip.source, problem? assets layer.clip with
  | some source, none => some (layer, source)
  | _, _ => none

/-- The layers that can be used, numbered in order. -/
def placed (assets : Option Assets) (layers : List Layer) : List Placed :=
  (layers.filterMap (usable? assets)).zipIdx.map fun ((layer, source), index) =>
    ⟨index, layer, source⟩

namespace Placed

def clip (p : Placed) : Clip := p.layer.clip

def isImage (p : Placed) : Bool := p.layer.kind = .image

/-- Whether the layer is part of the picture. -/
def isSeen (p : Placed) : Bool := p.layer.kind ≠ .audio

/-- Whether the layer is part of the sound. -/
def isHeard (p : Placed) : Bool :=
  p.layer.kind = .audio || (p.layer.kind = .video && p.clip.hasAudio)

def input (p : Placed) : InputSpec Binary64 where
  index := p.index
  name := s!"input{p.index}." ++ p.source.extension
  source := some p.source
  isImage := p.isImage
  loopDuration := if p.isImage then some p.clip.duration else none
  clipId := some p.clip.id

end Placed

/-- The warning about a clip that is left out. -/
def clipWarning? (assets : Option Assets) (clip : Clip) : Except Fault (Option String) := do
  let some why := problem? assets clip | return none
  return some (s!"skipping clip {← clip.name.toText}: " ++ why)

/-- Hidden tracks and clips that are left out, each with the reason. -/
def layerWarnings (t : Timeline) (assets : Option Assets) : Except Fault (List String) := do
  let hidden ← (t.tracks.filter fun track => !track.visible && track.kind ≠ .text).mapM fun track =>
    return s!"skipping hidden {track.kind.name} track " ++ (← track.name.toText)
  let clips ← (requiredClips t).filterMapM (clipWarning? assets)
  return hidden ++ clips

end Montage.Graph
