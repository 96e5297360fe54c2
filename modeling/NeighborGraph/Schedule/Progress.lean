/-!
# Progress — what a run reports on its way

A run reports the begin and the end of its phases and the units of work in between
(`ProgressEvent`), and it writes lines to a log (`LogLine`).

`ProgressLog` turns reports into log lines.  It keeps the open phases and the units reported since
the last one was opened; an end that does not name the innermost open phase closes that phase all
the same.
-/

namespace NeighborGraph

/-- How much a log line matters. -/
inductive LogLevel
  | info
  | debug
deriving DecidableEq, Repr

namespace LogLevel

/-- Name in a log. -/
def label : LogLevel → String
  | info => "INFO"
  | debug => "DEBUG"

end LogLevel

/-- A line of a log. -/
structure LogLine where
  level : LogLevel
  text : String
deriving DecidableEq, Repr

/-- A report of a run. -/
inductive ProgressEvent
  | began (phase : String)
  | ended (phase : String)
  | advanced (units : Nat)
  | noted (text : String)
deriving DecidableEq, Repr

/-- A task whose reports are logged. -/
structure ProgressLog where
  task : String
  /-- Open phases, the innermost one first. -/
  phases : List String := []
  units : UInt64 := 0
deriving DecidableEq, Repr

namespace ProgressLog

/-- The task and its open phases, outermost first. -/
def path (p : ProgressLog) : String := String.intercalate " :: " (p.task :: p.phases.reverse)

/-- A line under the name of the task or of a path. -/
def line (level : LogLevel) (place text : String) : LogLine :=
  ⟨level, "[" ++ place ++ "] " ++ text⟩

/-- Opens a phase. -/
def enter (p : ProgressLog) (phase : String) : ProgressLog × LogLine :=
  let p := { p with phases := phase :: p.phases, units := 0 }
  (p, line .info p.path "Start")

/-- Closes the innermost phase, which should be the one named. -/
def finish (p : ProgressLog) (phase : String) : ProgressLog × LogLine :=
  match p.phases with
  | [] => (p, line .debug p.task ("end_subtask(" ++ phase ++ ") without open subtask"))
  | top :: rest =>
    let closed := { p with phases := rest }
    if top = phase then (closed, line .info p.path "Finished")
    else
      (closed, line .debug p.path
        ("end_subtask(" ++ phase ++ ") does not match open subtask " ++ top))

/-- Counts units of work. -/
def advance (p : ProgressLog) (units : UInt64) : ProgressLog × LogLine :=
  let p := { p with units := p.units + units }
  (p, line .debug p.task ("progress " ++ toString p.units.toNat))

/-- Passes a message on. -/
def note (p : ProgressLog) (text : String) : ProgressLog × LogLine := (p, line .info p.task text)

/-- Takes a report. -/
def take (p : ProgressLog) : ProgressEvent → ProgressLog × LogLine
  | .began phase => p.enter phase
  | .ended phase => p.finish phase
  | .advanced units => p.advance units.toUInt64
  | .noted text => p.note text

end ProgressLog

end NeighborGraph
