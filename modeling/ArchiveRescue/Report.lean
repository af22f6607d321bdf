import ArchiveRescue.Calendar
import ArchiveRescue.Outcome

/-
  This file defines what an operation tells about itself:
  the lines of its log, what it was given, and its verdict.
  The first failure decides; later ones only reach the log.

  Key definitions include:
    * `Severity`
    * `Line`
    * `Line.render`
    * `Snapshot`
    * `Verdict`
    * `Report`
    * `Report.fail`
    * `Report.succeed`
    * `Report.prepend`
-/

namespace ArchiveRescue

------------------------------------------------------------
-- Log Lines
------------------------------------------------------------

/- How much a log line matters. -/
inductive Severity where
  | debug
  | info
  | warning
  | error
  deriving DecidableEq, Repr

/- The word for a severity. -/
def Severity.label : Severity → String
| .debug => "DEBUG"
| .info => "INFO"
| .warning => "WARN"
| .error => "ERROR"

/-
  A line of a log.  Lines of an operation carry its name.
-/
structure Line where
  severity : Severity
  message : String
  operation : Option String := none
  deriving DecidableEq, Repr

/- A line as it is shown, with the millisecond it is from. -/
def Line.render
    (line : Line)
    (millis : Int) : String :=
  Calendar.clock millis ++ " " ++ line.severity.label ++
    " " ++ line.message

------------------------------------------------------------
-- Snapshots
------------------------------------------------------------

/- What an operation was given and what framing it found. -/
structure Snapshot where
  inputPath : Option Path := none
  inputIsStream : Bool := false
  outputPath : Option Path := none
  outputIsStream : Bool := false
  header : Option String := none
  footer : Option String := none
  deriving DecidableEq, Repr

------------------------------------------------------------
-- Reports
------------------------------------------------------------

/- What is known about the end of an operation. -/
inductive Verdict where
  | undecided
  | succeeded
  | failed (failure : Failure)
  deriving DecidableEq, Repr

/- The verdict, the log and the snapshot of an operation. -/
structure Report where
  operation : String
  verdict : Verdict := .undecided
  lines : List Line := []
  snapshot : Snapshot := {}
  deriving DecidableEq, Repr

namespace Report

/- Whether the operation is known to have succeeded. -/
def success (r : Report) : Bool :=
  match r.verdict with
  | .succeeded => true
  | _ => false

/- The first failure. -/
def failure? (r : Report) : Option Failure :=
  match r.verdict with
  | .failed failure => some failure
  | _ => none

/- Append a line to the log. -/
def log
    (r : Report)
    (severity : Severity)
    (message : String) : Report :=
  { r with
    lines :=
      r.lines ++ [⟨severity, message, some r.operation⟩] }

/- Append a line of little interest. -/
def debug (r : Report) (message : String) : Report :=
  r.log .debug message

/- Append a line of interest. -/
def info (r : Report) (message : String) : Report :=
  r.log .info message

/- Append a line about a failure. -/
def error (r : Report) (message : String) : Report :=
  r.log .error message

/- Decide for success, unless a failure has been recorded. -/
def succeed (r : Report) : Report :=
  match r.verdict with
  | .failed _ => r
  | _ => { r with verdict := .succeeded }

/- Log a failure and record it if it is the first. -/
def fail (r : Report) (failure : Failure) : Report :=
  let logged := r.error failure.message
  match r.verdict with
  | .failed _ => logged
  | _ => { logged with verdict := .failed failure }

/- Put the lines of an earlier operation in front. -/
def prepend
    (r : Report)
    (earlier : List Line) : Report :=
  { r with lines := earlier ++ r.lines }

/- Change the snapshot. -/
def note
    (r : Report)
    (change : Snapshot → Snapshot) : Report :=
  { r with snapshot := change r.snapshot }

/- The messages of the lines about failures. -/
def errors (r : Report) : List String :=
  (r.lines.filter (fun l => l.severity == .error)).map
    Line.message

/- Whether a text occurs in another. -/
def occursIn (needle : List Char) : List Char → Bool
| [] => needle.isEmpty
| c :: rest =>
    needle.isPrefixOf (c :: rest) || occursIn needle rest

/- Whether a text occurs in the message of some line. -/
def contains (r : Report) (needle : String) : Bool :=
  r.lines.any
    (fun l => occursIn needle.toList l.message.toList)

end Report

end ArchiveRescue
