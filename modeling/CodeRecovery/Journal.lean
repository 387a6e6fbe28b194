/-
The journal: what a recovery reports while it runs.

Events are recorded whether or not anyone will see them. Which of them are shown, on which stream
and in what layout, is decided when the journal is written out: debug notes and listings appear in
verbose mode only, and warnings and errors go to the error stream.
-/
import CodeRecovery.Text.Layout

set_option autoImplicit false

namespace CodeRecovery

namespace Journal

inductive Level where
  | debug
  | info
  | warn
  | error
deriving DecidableEq, Repr

def Level.name : Level → String
  | .debug => "DEBUG"
  | .info => "INFO"
  | .warn => "WARN"
  | .error => "ERROR"

/-- One thing that is reported. -/
inductive Event where
  /-- A message on a line of its own. -/
  | note (level : Level) (message : String)
  /-- A text that stands for itself and is shown in verbose mode only. -/
  | listing (text : String)
  /-- A text that is always shown. -/
  | print (text : String)
deriving DecidableEq, Repr

namespace Event

def debug (message : String) : Event := note .debug message

def info (message : String) : Event := note .info message

def error (message : String) : Event := note .error message

/-- The line a note takes. `stamp` stands in front of it. -/
def line (stamp : String) (level : Level) (message : String) : String :=
  s!"{stamp}[{level.name}] {message}\n"

/-- What the event adds to standard output. -/
def output (stamp : String) (verbose : Bool) : Event → String
  | note .debug message => if verbose then line stamp .debug message else ""
  | note .info message => line stamp .info message
  | note .warn _ | note .error _ => ""
  | listing text => if verbose then text else ""
  | print text => text

/-- What the event adds to the error stream. -/
def errors (stamp : String) : Event → String
  | note .warn message => line stamp .warn message
  | note .error message => line stamp .error message
  | _ => ""

end Event

end Journal

/-- The events of a recovery in the order they happened. -/
abbrev Journal := Array Journal.Event

namespace Journal

/-- The lines that the journal shows on standard output. -/
def outputLines (verbose : Bool) (j : Journal) : List String :=
  Text.lines (String.join (j.toList.map (Event.output "" verbose)))

/-- The lines that the journal shows on the error stream. -/
def errorLines (j : Journal) : List String :=
  Text.lines (String.join (j.toList.map (Event.errors "")))

end Journal

end CodeRecovery
