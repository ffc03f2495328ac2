import Montage.Export.Job
import Montage.Terminal.Board

/-!
An export that is shown on a board. The session is quiet while it runs, since the board hears the
messages, and its listener is gone afterwards.
-/

namespace Montage.Terminal

/-- Changes the board; the change may end in a fault. -/
def Board.change (f : Board → Changed) : Session Board Unit := do
  let (outcome, b) := f (← get).front
  Session.present fun _ => b
  Session.lift outcome

def hearMessage (message : String) (b : Board) : Board := b.writeMessage message palette.foreground

/-- Loads the job of a board and runs it. -/
def runJob : Session Board Unit := do
  let b := (← get).front
  let job ← ExportJob.load b.file b.options
    (fun percent => Board.change (·.setProgress percent))
    (fun line => Session.present (·.writeEngineLine line))
  Session.present (·.describe job.request)
  Board.change (·.showProject)
  Board.change (·.setStage "rendering")
  discard job.run

/-- Runs the export of a board to its end, and shows a fault with its trace. -/
def runExport (trace : Fault → String) : Session Board Unit := do
  let wasQuiet := (← get).quiet
  modify ({ · with quiet := true, listener := .front hearMessage })
  match ← Session.attempt runJob with
  | .ok _ => pure ()
  | .error e => Session.present (·.setProblem e.report (trace e))
  modify ({ · with quiet := wasQuiet, listener := .nobody })
  Board.change (·.finish)

end Montage.Terminal
