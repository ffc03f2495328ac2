import Montage.Value

/-!
The transcript of a recording: passages with their times in seconds.
-/

namespace Montage.Cutting

structure Passage where
  start : Binary64
  finish : Binary64
  text : String
  deriving Inhabited

/-- The times of an entry, both of which it must have. -/
def timesOf (entry : Value) (missing : Rejection) : Except Fault (Binary64 × Binary64) := do
  let start := entry.get "start"
  let finish := entry.get "end"
  if start.isNull || finish.isNull then throw (.rejected missing)
  return (← start.toBinary64, ← finish.toBinary64)

def Passage.ofValue (position : Nat) (entry : Value) : Except Fault Passage := do
  if !entry.isMapping then throw (.rejected (.segmentShape position))
  let (start, finish) ← timesOf entry (.segmentTimes position)
  return ⟨start, finish, Text.strip (← (entry.getD "text" "").toText)⟩

/-- A transcript, which has at least one passage. -/
def transcriptOf (v : Value) : Except Fault (List Passage) :=
  match v.list? with
  | some (entry :: entries) =>
    ((entry :: entries).zipIdx).mapM fun (entry, position) => Passage.ofValue position entry
  | _ => throw (.rejected .noSegments)

end Montage.Cutting
