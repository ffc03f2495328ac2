import Montage.Command.Screen

/-!
The command that exports the timeline in a file.
-/

namespace Montage.Command

structure ExportArguments where
  file : Option String := none
  options : ExportOptions := {}
  /-- print the compiled program and stop -/
  dumpPlan : Bool := false
  /-- show the engine's log -/
  verbose : Bool := false
  deriving DecidableEq, Repr

namespace ExportArguments

def set (f : ExportOptions → ExportOptions) (a : ExportArguments) : ExportArguments :=
  { a with options := f a.options }

/-- The options of every program that exports. -/
def exportRules : List (OptionRule ExportArguments) := [
  helpRule,
  { short := 'y', long := "yaml", required := true
    effect := .take [] fun s a => { a with file := s } },
  { short := 'o', long := "output"
    effect := .take [] fun s => set ({ · with output := some (s.getD "") }) },
  { short := 'q', long := "quality"
    effect := .take ["high", "medium", "low"] fun s => set ({ · with quality := some (s.getD "") }) },
  { short := 'n', long := "dry-run", effect := .set (set ({ · with dryRun := true })) },
  { short := 'c', long := "cache-dir"
    effect := .take [] fun s => set ({ · with cacheDirectory := some (s.getD "") }) },
  { short := 'k', long := "keep-temp", effect := .set (set ({ · with keepTemp := true })) },
  { short := 'K', long := "no-keep-temp", effect := .set (set ({ · with keepTemp := false })) }]

/-- The options of the command. -/
def rules : List (OptionRule ExportArguments) := exportRules ++ [
  { short := 'p', long := "dump-plan", effect := .set ({ · with dumpPlan := true }) },
  { short := 'v', long := "verbose", effect := .set ({ · with verbose := true }) }]

def parse (arguments : List String) : Outcome ExportArguments :=
  Command.parse rules {} arguments

/-- As `parse`, for the program that shows an export on a board. -/
def parseForBoard (arguments : List String) : Outcome ExportArguments :=
  Command.parse exportRules {} arguments

end ExportArguments

def printPlan (job : ExportJob Screen) : Run := do
  closeBar
  let plan ← Session.lift (do (← job.plan).describe)
  Session.present ({ · with plan := some plan })
  return 0

/-- Runs a job, and shows why the engine failed if it did. -/
def runExport (job : ExportJob Screen) : Run := do
  match ← Session.attempt job.run with
  | .error (.engineLoad problem) => fail ("engine load failed: " ++ problem)
  | .error (.engineRun problem logText _) =>
    closeBar
    showLine logText dimStyle
    showLine ("export failed: " ++ problem) problemStyle
    return 1
  | .error e => throw e
  | .ok _ =>
    closeBar
    if !job.request.options.dryRun then Session.say ("mpv " ++ job.request.outputFile)
    return 0

def exportFile (a : ExportArguments) : Run := do
  let some file := a.file | throw (.misuse .kind)
  let job ← ExportJob.load file a.options
    (fun percent => Session.present (·.moveTo percent))
    (fun line => if a.verbose then showLine line dimStyle else pure ())
  if a.dumpPlan then printPlan job else runExport job

end Montage.Command
