import Montage.Value

/-!
The lines in which the engine reports how far it is.
-/

namespace Montage.Engine

/-- What stands before and behind the first equals sign of a line. -/
def keyValue (line : String) : String × String :=
  let (key, value) := Text.breakOn '=' (Text.trimBlank line.toList)
  (.ofList key, .ofList (value.getD []))

/-- The microseconds that a line says are done. -/
def microseconds? (line : String) : Option Int :=
  let (key, value) := keyValue line
  if key = "out_time_us" || key = "out_time_ms" then Text.readInt? value else none

def isEnd (line : String) : Bool := keyValue line = ("progress", "end")

/-- The share of the duration that a line says is done. A line that says nothing of it, and a
duration that is not above zero, give none. -/
def fraction? (line : String) (duration : Option Binary64) : Except Fault (Option Binary64) := do
  if isEnd line then return some (.ofInt 1)
  let some duration := duration | return none
  if duration.le .zero then return none
  let some n := microseconds? line | return none
  return some ((← (Value.int n).toBinary64) / .ofInt 1000000 / duration)

end Montage.Engine
