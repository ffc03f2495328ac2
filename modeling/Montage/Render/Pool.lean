import Montage.Graph.Statement

/-!
The drivers that share one engine. At most one of them holds it; each step below changes what the
named driver shows of itself and leaves the others alone.
-/

namespace Montage

/-- What a driver shows of itself. -/
structure DriverState where
  exporting : Bool := false
  progress : Int := 0
  lines : List String := []
  /-- the program of the last run, as it was handed to the engine -/
  program : Option (Graph.Program Binary64) := none

def DriverState.logText (d : DriverState) : String := "\n".intercalate d.lines

structure DriverPool where
  holder : Option Nat := none
  drivers : Nat → DriverState := fun _ => {}

namespace DriverPool

def update (pool : DriverPool) (id : Nat) (f : DriverState → DriverState) : DriverPool :=
  { pool with drivers := fun i => if i = id then f (pool.drivers i) else pool.drivers i }

/-- Hands the engine to a driver, unless a program runs on it. -/
def acquire (pool : DriverPool) (id : Nat) : Except Fault DriverPool :=
  if pool.holder.isSome then .error .engineBusy else .ok { pool with holder := some id }

def setProgram (pool : DriverPool) (id : Nat) (p : Graph.Program Binary64) : DriverPool :=
  pool.update id ({ · with program := some p })

/-- A run begins: no progress and no lines yet. -/
def start (pool : DriverPool) (id : Nat) : DriverPool :=
  pool.update id ({ · with exporting := true, progress := 0, lines := [] })

def note (pool : DriverPool) (id : Nat) (line : String) : DriverPool :=
  pool.update id fun d => { d with lines := d.lines ++ [line] }

def advance (pool : DriverPool) (id : Nat) (percent : Int) : DriverPool :=
  pool.update id ({ · with progress := percent })

/-- A run ends, and the engine is free again; a run that failed has made no progress. -/
def release (pool : DriverPool) (id : Nat) (failed : Bool) : DriverPool :=
  { pool.update id fun d =>
      { d with exporting := false, progress := if failed then 0 else d.progress } with
    holder := none }

end DriverPool

end Montage
