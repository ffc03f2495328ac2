import Montage.Text.Blank

/-!
Commands of the engine, and their text for a shell.
-/

namespace Montage.Engine

/-- The arguments that every run of the engine has. -/
def runOptions : List String :=
  ["-y", "-hide_banner", "-nostdin", "-nostats", "-progress", "pipe:1"]

def runCommand (path : String) (arguments : List String) : List String :=
  path :: runOptions ++ arguments

def probeCommand (path file : String) : List String :=
  [path, "-hide_banner", "-nostdin", "-i", file]

/-- Characters that mean themselves to a shell. -/
def isShellSafe (c : Char) : Bool := c.isAlphanum || "_@%+=:,./-".toList.contains c

/-- A word for a shell; single quotes inside of it stand between double quotes. -/
def shellWord (s : String) : String :=
  if s.isEmpty then "''"
  else if s.toList.all isShellSafe then s
  else
    let inner := s.toList.flatMap fun c => if c = '\'' then "'\"'\"'".toList else [c]
    .ofList ('\'' :: inner ++ ['\''])

def shellText (command : List String) : String := " ".intercalate (command.map shellWord)

/-- The line that reports a command. -/
def commandLine (command : List String) : String := s!"CMD: '{shellText command}'"

end Montage.Engine
