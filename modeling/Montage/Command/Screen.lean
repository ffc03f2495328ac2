import Montage.Command.Arguments
import Montage.Export.Job

/-!
What a command shows while it runs: lines and tables on the console, and a bar.
-/

namespace Montage.Command

inductive ConsoleEntry where
  | line (text : String) (style : Option String)
  | table (title : String) (columns : List String) (rows : List (List String))
  deriving DecidableEq, Repr

/-- The texts of an entry, in the order in which the console reads them: a table by columns first. -/
def ConsoleEntry.texts : ConsoleEntry → List String
  | line text _ => [text]
  | table title columns rows =>
    (columns.zipIdx.flatMap fun (name, i) => name :: rows.filterMap (·[i]?)) ++ [title]

inductive BarEvent where
  | update (amount : Int)
  | close
  deriving DecidableEq, Repr

structure Screen where
  console : List ConsoleEntry := []
  bar : List BarEvent := []
  /-- how far the bar is -/
  position : Int := 0
  /-- the plan that was printed -/
  plan : Option Value := none

namespace Screen

def print (s : Screen) (entry : ConsoleEntry) : Screen := { s with console := s.console ++ [entry] }

/-- Moves the bar to a position; it never moves back. -/
def moveTo (s : Screen) (percent : Int) : Screen :=
  if s.position < percent then
    { s with position := percent, bar := s.bar ++ [.update (percent - s.position)] }
  else s

def advance (s : Screen) (amount : Int) : Screen :=
  { s with position := s.position + amount, bar := s.bar ++ [.update amount] }

def close (s : Screen) : Screen := { s with bar := s.bar ++ [.close] }

end Screen

/-- A command in a session; it gives the status that it exits with. -/
abbrev Run := Session Screen Nat

/-- Shows a line as it is. -/
def showLine (text : String) (style : Option String := none) : Session Screen Unit :=
  Session.present (·.print (.line text style))

/-- Shows an entry in which the console looks for markup; it is not shown when that cannot be read. -/
def showMarkup (entry : ConsoleEntry) : Session Screen Unit := do
  let site ← Session.site
  Session.lift (entry.texts.forM site.readMarkup)
  Session.present (·.print entry)

def closeBar : Session Screen Unit := Session.present (·.close)

def problemStyle : String := "bold red"

def dimStyle : String := "dim"

/-- Closes the bar and shows why the command failed. -/
def fail (problem : String) : Run := do
  closeBar
  showLine problem problemStyle
  return 1

end Montage.Command
