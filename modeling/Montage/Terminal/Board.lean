import Montage.Export.Request
import Montage.Terminal.Duration
import Montage.Terminal.Highlight

/-!
The board that shows an export while it runs: how far it is, what it works on, and a log. A board
that is not mounted keeps its state and shows nothing. What cannot be written is not shown; the board
has changed all the same.
-/

namespace Montage.Terminal

inductive LogEntry where
  | plain (s : String)
  | styled (t : Styled)
  deriving DecidableEq, Repr

structure Board where
  file : String
  options : ExportOptions := {}
  clock : Binary64
  mounted : Bool := false
  percent : Int := 0
  stage : String := "loading"
  startTime : Option Binary64 := none
  /-- how long the export took -/
  finishTime : Option Binary64 := none
  finished : Bool := false
  problem : Option String := none
  outputFile : Option String := none
  quality : Value := .null
  duration : Option Binary64 := none
  metrics : Option Styled := none
  project : Option Styled := none
  bar : Option Int := none
  log : List LogEntry := []

/-- How a change to a board ends, and the board after it. -/
abbrev Changed := Except Fault Unit × Board

namespace Board

/-- Puts a text on a board that is mounted, if it can be written. -/
def display (b : Board) (text : Except Fault Styled) (put : Styled → Board) : Changed :=
  if b.mounted then
    match text with
    | .ok t => (.ok (), put t)
    | .error e => (.error e, b)
  else (.ok (), b)

/-- The time since the start. A finished export that took no time counts as one that runs. -/
def elapsed (b : Board) : Binary64 :=
  match b.startTime with
  | none => .zero
  | some start =>
    match b.finishTime with
    | some t => if b.finished && !t.same .zero then t else b.clock - start
    | none => b.clock - start

def status (b : Board) : String :=
  if b.problem.isSome then "failed" else if b.finished then "done" else b.stage

def statusStyle (status : String) : String :=
  if status = "failed" then palette.problem
  else if status = "done" then palette.path
  else palette.foreground

/-- Appends a dimmed label and a value. -/
def appendField (t : Styled) (label shown style : String) : Styled :=
  (t.append label palette.dim).append shown style

/-- The status, the time and the progress. -/
def metricsText (b : Board) : Except Fault Styled := do
  let elapsed ← durationText b.elapsed
  let t := appendField {} "Status: " b.status (statusStyle b.status)
  let t := appendField t.newline "Elapsed: " elapsed palette.number
  return appendField t.newline "Progress: " s!"{b.percent}%" palette.number

def refresh (b : Board) : Changed := b.display b.metricsText fun t => { b with metrics := some t }

/-- The first text that is there and not empty. -/
def firstText (choices : List (Option String)) (default : String) : String :=
  ((choices.filterMap id).find? (!·.isEmpty)).getD default

/-- Appends a field in which the default value is dimmed. -/
def appendDefault (t : Styled) (label shown default : String) : Styled :=
  appendField t label shown (if shown = default then palette.dim else palette.path)

def appendFlag (t : Styled) (label : String) (on : Bool) : Styled :=
  if on then appendField t label "yes" palette.path else appendField t label "no" palette.foreground

/-- The quality that is asked for, else that of the request, which has to be a text. -/
def qualityText (b : Board) : Except Fault String :=
  let quality := orAsked b.options.quality b.quality
  if quality.truthy then quality.asText else .ok "N/A"

def appendLength (t : Styled) : Option Binary64 → Except Fault Styled
  | none => .ok t
  | some x => do
    return (appendField t "Length: " (← durationText x) palette.number).newline

/-- What the export works on. -/
def projectText (b : Board) : Except Fault Styled := do
  let quality ← b.qualityText
  let output := firstText [b.options.output, b.outputFile] "N/A"
  let cache := firstText [b.options.cacheDirectory] "default"
  let t := appendField {} "YAML: " b.file palette.path
  let t := appendDefault t.newline "Output: " output "N/A"
  let t := appendField t.newline "Quality: " quality palette.foreground
  let t ← appendLength t.newline b.duration
  let t := appendDefault t "Cache: " cache "default"
  let t := appendFlag t.newline "Keep temp: " b.options.keepTemp
  return appendFlag t.newline "Dry run: " b.options.dryRun

def showProject (b : Board) : Changed :=
  b.display b.projectText fun t => { b with project := some t }

/-- Puts the board on the screen, and starts its clock. -/
def mount (b : Board) : Changed :=
  { b with mounted := true, startTime := some b.clock }.showProject

/-- Moves the clock on. -/
def tick (b : Board) (seconds : Binary64) : Changed := { b with clock := b.clock + seconds }.refresh

def setProgress (b : Board) (percent : Int) : Changed :=
  { b with percent, bar := if b.mounted then some percent else b.bar }.refresh

def setStage (b : Board) (stage : String) : Changed := { b with stage }.refresh

def write (b : Board) (entry : LogEntry) : Board :=
  if b.mounted then { b with log := b.log ++ [entry] } else b

def writeMessage (b : Board) (message style : String) : Board :=
  b.write (.styled (.ofText message style))

/-- A line of the engine's log; a command is highlighted. -/
def writeEngineLine (b : Board) (line : String) : Board :=
  if Text.startsWith "CMD: " line then b.write (.styled (highlight line))
  else b.writeMessage line palette.dim

def setProblem (b : Board) (problem trace : String) : Board :=
  let b := { b with problem := some problem }
  let b := if trace.isEmpty then b else b.writeMessage trace palette.dim
  b.writeMessage ("error: " ++ problem) (bold palette.problem)

/-- The line that ends the log. -/
def lastLine (b : Board) : String :=
  if b.problem.isSome then "complete with errors"
  else match b.outputFile with
    | some file => if b.options.dryRun then "complete" else "complete: " ++ file
    | none => "complete"

/-- Ends the export; the time that it took is the one at the first end. -/
def finish (b : Board) : Changed :=
  if b.mounted then
    let taken := b.finishTime.or (b.startTime.map (b.clock - ·))
    ({ b with finished := true, finishTime := taken }.write (.plain b.lastLine)).refresh
  else (.ok (), b)

/-- Notes what a request asks for. -/
def describe (b : Board) (r : ExportRequest) : Board :=
  { b with
    outputFile := some r.outputFile
    quality := r.quality
    duration := some r.timeline.totalDuration }

end Board

end Montage.Terminal
