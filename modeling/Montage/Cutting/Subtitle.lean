import Montage.Cutting.Position
import Montage.Timecode

/-!
Subtitles of a clip: the passages that overlap it, in its own time.
-/

namespace Montage.Cutting

structure Cue where
  start : Binary64
  finish : Binary64
  text : String

/-- The passage as far as it lies in the clip; none when it lies outside or its text is blank. -/
def Cut.cue? (c : Cut) (p : Passage) : Option Cue :=
  let text := Text.strip p.text
  if p.finish.le c.start || c.finish.le p.start || text.isEmpty then none
  else some {
    start := .max .zero (p.start - c.start)
    finish := .min c.duration (p.finish - c.start)
    text }

/-- As `Cut.cue?`, for a passage of any kind: its end is looked at first, and its start only if that
is needed. -/
def Cut.cueOf (c : Cut) (passage : Value) : Except Fault (Option Cue) := do
  let .some finish := (← fieldOf passage "end").number? | throw (.misuse .kind)
  if finish.isAtMost (.float c.start) then return none
  let .some start := (← fieldOf passage "start").number? | throw (.misuse .kind)
  if (Value.Number.float c.finish).isAtMost start then return none
  let text := Text.strip (← (passage.getD "text" "").toText)
  if text.isEmpty then return none
  return c.cue? ⟨← start.toBinary64, ← finish.toBinary64, text⟩

def Cut.cues (c : Cut) (transcript : List Passage) : List Cue := transcript.filterMap c.cue?

/-- A numbered block: its number, its times, and its text. -/
def Cue.block (number : Nat) (cue : Cue) : Except Fault String := do
  let start ← Timecode.subtitleText cue.start
  let finish ← Timecode.subtitleText cue.finish
  return s!"{number}\n{start} --> {finish}\n" ++ cue.text ++ "\n"

/-- Blocks numbered from one on, with an empty line between them. -/
def subtitles (cues : List Cue) : Except Fault String := do
  let blocks ← (cues.zipIdx 1).mapM fun (cue, number) => cue.block number
  return "\n".intercalate blocks

end Montage.Cutting
