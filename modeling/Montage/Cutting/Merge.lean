import Montage.Cutting.Segment
import Montage.Sorting.Sort

/-!
Relevant segments merged into clips. Each segment is padded at both ends, and a segment joins the
clip before it when it starts at most a gap after the end of that clip.
-/

namespace Montage.Cutting

/-- A part of the recording to cut out, with the segments it was merged from. -/
structure Cut where
  start : Binary64
  finish : Binary64
  segments : List Segment := []
  index : Int := 0

namespace Cut

def duration (c : Cut) : Binary64 := c.finish - c.start

/-- The texts of the segments, one behind the other. -/
def transcript (c : Cut) : Except Fault String := do
  let texts ← c.segments.mapM fun s =>
    match s.text with
    | .text t => .ok (Text.strip t)
    | _ => .error (.misuse .operation)
  return " ".intercalate texts

/-- Why the segments were found relevant, where a reason is given. -/
def reasons (c : Cut) : List Value := (c.segments.map (·.relevance)).filter (·.truthy)

end Cut

def Segment.startsBefore (s t : Segment) : Bool := s.start.lt t.start

/-- Segments by their starts; those that start together keep their order. -/
def sortByStart (segments : List Segment) : List Segment :=
  Id.run (Sorting.sortBy (fun s t => pure (s.startsBefore t)) segments)

structure MergeRule where
  padding : Binary64
  gap : Binary64

namespace MergeRule

/-- The clip of one padded segment. -/
def single (rule : MergeRule) (s : Segment) : Cut where
  start := .max .zero (s.start - rule.padding)
  finish := s.finish + rule.padding
  segments := [s]

def joins (rule : MergeRule) (c : Cut) (s : Segment) : Bool :=
  (s.start - c.finish).le rule.gap

def extend (rule : MergeRule) (c : Cut) (s : Segment) : Cut :=
  { c with
    finish := .max c.finish (s.finish + rule.padding)
    segments := c.segments ++ [s] }

/-- Merges sorted segments, given the clip that is still open. -/
def mergeFrom (rule : MergeRule) (current : Cut) : List Segment → List Cut
  | [] => [current]
  | s :: rest =>
    if rule.joins current s then rule.mergeFrom (rule.extend current s) rest
    else current :: rule.mergeFrom (rule.single s) rest

end MergeRule

/-- Clips numbered in order, from one on. -/
def renumber (cuts : List Cut) : List Cut :=
  (cuts.zipIdx 1).map fun (c, index) => { c with index := index }

def MergeRule.merge (rule : MergeRule) (segments : List Segment) : List Cut :=
  match sortByStart segments with
  | [] => []
  | s :: rest => renumber (rule.mergeFrom (rule.single s) rest)

end Montage.Cutting
