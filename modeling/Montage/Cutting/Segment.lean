import Montage.Cutting.Passage

/-!
Segments of a recording that were found relevant, from records or by their numbers in the
transcript.
-/

namespace Montage.Cutting

/-- A relevant part of the recording. Number, text and reason are what the snapshot gives. -/
structure Segment where
  index : Value
  start : Binary64
  finish : Binary64
  text : Value := .text ""
  relevance : Value := .text ""

namespace Segment

def ofRecord (position : Nat) (record : Value) : Except Fault Segment := do
  if !record.isMapping then throw (.rejected (.entryShape position))
  let start := record.get "start"
  let finish := record.get "end"
  if start.isNull || finish.isNull then throw (.rejected (.entryTimes position))
  let index ← (record.getD "index" (.int position)).toInt
  let start ← start.toBinary64
  let finish ← finish.toBinary64
  let text ← (record.getD "text" "").toText
  let relevance := record.getD "relevance" ""
  let relevance ← if relevance.truthy then relevance.toText else pure ""
  return { index := .int index, start, finish, text := .text text, relevance := .text relevance }

def ofRecords (v : Value) : Except Fault (List Segment) := do
  let some records := v.list? | throw (.rejected .responseShape)
  records.zipIdx.mapM fun (record, position) => ofRecord position record

/-- The passage with the given number, as a segment. -/
def ofPassage (transcript : List Passage) (index : Int) : Except Fault Segment :=
  let refuse : Except Fault Segment := do throw (.rejected (.segmentRange (← (Value.int index).toText)))
  if index < 0 then refuse
  else match transcript[index.toNat]? with
    | none => refuse
    | some p => return ⟨.int index, p.start, p.finish, .text p.text, ""⟩

def ofPassages (transcript : List Passage) (indices : List Int) : Except Fault (List Segment) :=
  indices.mapM (ofPassage transcript)

end Segment

end Montage.Cutting
