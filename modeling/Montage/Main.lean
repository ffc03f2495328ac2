import Montage.Command.Cut
import Montage.Command.Export
import Montage.Markup.Writer

/-!
The command line: `export` and `cut`, each with its own options. The commands run in a studio that
holds the file of the request and no engine, so that they show what an engine would be asked for.
-/

namespace Montage.Command

/-- A studio with the file of a request. -/
def studioFor (file : String) : IO (Studio Screen) := do
  let directory := (← IO.currentDir).toString
  let place := (Path.names (Path.absolute directory file)).filter (· ≠ "")
  let tree ← try
      pure (FileTree.plant {} place (.file (← IO.FS.readBinFile file)))
    catch _ => pure (FileTree.plantDirectory {} place.dropLast)
  return { site := { directory, binaries := [] }, tree, front := {} }

def consoleText : ConsoleEntry → List String
  | .line text _ => [text]
  | .table title columns rows => title :: (columns :: rows).map ("\t".intercalate ·)

/-- Runs a command, prints what it shows, and gives its status. -/
def runCommand (file : String) (run : Run) : IO UInt32 := do
  let (exit, s) := run.run.run (← studioFor file)
  s.printed.forM IO.println
  (s.front.plan.toList.flatMap Markup.writeLines).forM IO.println
  (s.front.console.flatMap consoleText).forM IO.eprintln
  match exit with
  | .ok status => return .ofNat status
  | .error e =>
    IO.eprintln ("error: " ++ e.report)
    return 1

/-- Runs the command that a command line asks for. -/
def runOutcome {α : Type} (rules : List (OptionRule α)) (file : α → String) (run : α → Run) :
    Outcome α → IO UInt32
  | .accepted a => runCommand (file a) (run a)
  | .help => do
    (describe rules).forM IO.println
    return 0
  | .refused => do
    IO.eprintln "error: the arguments are not understood"
    return 2

/-- Runs the command that is named first. -/
def runArguments (arguments : List String) : IO UInt32 :=
  match arguments with
  | "export" :: rest =>
    runOutcome ExportArguments.rules (·.file.getD "") exportFile (ExportArguments.parse rest)
  | "cut" :: rest =>
    runOutcome CutArguments.rules (·.file.getD "") cutFile (CutArguments.parse rest)
  | _ => do
    IO.eprintln "usage: montage (export|cut) OPTIONS"
    return 2

end Montage.Command

def main (arguments : List String) : IO UInt32 := Montage.Command.runArguments arguments
