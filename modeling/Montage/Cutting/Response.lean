import Montage.Cutting.Segment
import Montage.Json.Reader

/-!
Answers of a relevance query: a JSON array of records, with or without fences of three backquotes.
-/

namespace Montage.Cutting

/-- What follows the backquotes of a fence: the word `json`, if it is there, and blanks. -/
def dropFenceTail (cs : List Char) : List Char :=
  let rest := if "json".toList.isPrefixOf cs then cs.drop 4 else cs
  rest.dropWhile Text.isBlank

theorem length_dropFenceTail_le (cs : List Char) : (dropFenceTail cs).length ≤ cs.length := by
  unfold dropFenceTail
  have h (l : List Char) : (l.dropWhile Text.isBlank).length ≤ l.length :=
    (List.dropWhile_sublist _).length_le
  split
  · exact Nat.le_trans (h _) (by simp)
  · exact h _

/-- A text without the fences in it. -/
def dropFences : List Char → List Char
  | '\x60' :: '\x60' :: '\x60' :: rest => dropFences (dropFenceTail rest)
  | c :: rest => c :: dropFences rest
  | [] => []
termination_by cs => cs.length
decreasing_by
  · have := length_dropFenceTail_le rest
    simp only [List.length_cons]
    omega
  · simp

def Segment.ofDocument (document : List Char) : Except Fault (List Segment) :=
  match Json.readDocument document with
  | .ok v => ofRecords v
  | .error (.malformed problem left) =>
    throw (.rejected (.response (Json.describe document problem left)))
  | .error .numberTooLong => throw (.misuse .value)
  | .error .tooDeep => throw (.misuse .depth)

/-- The segments of an answer; none of an answer that is blank. -/
def Segment.ofResponse (answer : String) : Except Fault (List Segment) :=
  let document := Text.trimBlank (dropFences answer.toList)
  if document.isEmpty then return [] else ofDocument document

end Montage.Cutting
