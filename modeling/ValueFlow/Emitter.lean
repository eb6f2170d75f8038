/-!
# The emitter

Output goes to two channels: results to `out`, reports to `err`. Every report
is headed by the line it is about, and reports are counted by severity.

An emitter either keeps what it was given for its owner to read back, or
streams it away; the texts are the same.
-/

namespace ValueFlow

inductive Severity
  | warning
  | error
  deriving DecidableEq, Repr

def Severity.text : Severity → String
  | .warning => "Warning"
  | .error => "Error"

/-- Where the text of an emitter ends up. -/
inductive Sink
  /-- Kept for the owner of the emitter. -/
  | capture
  /-- Passed on. -/
  | stream
  deriving DecidableEq, Repr

/-- A complaint about one line of a source. -/
structure Report where
  severity : Severity
  line : Nat
  /-- What the report is about; may be empty. -/
  item : String
  message : String
  deriving DecidableEq, Repr

def Report.render (r : Report) : String :=
  let item := if r.item = "" then "" else " " ++ r.item
  "[line " ++ toString r.line ++ "] " ++ r.severity.text ++ item ++ ": " ++ r.message ++ "\n"

/-- The two channels with all that was written to them, and the counts of
reports. -/
structure Emitter where
  sink : Sink
  out : String
  err : String
  errors : Nat
  warnings : Nat

namespace Emitter

/-- An emitter that nothing was written to. -/
def fresh (sink : Sink) : Emitter := ⟨sink, "", "", 0, 0⟩

def print (e : Emitter) (text : String) : Emitter := { e with out := e.out ++ text }

def printLine (e : Emitter) (text : String) : Emitter := e.print (text ++ "\n")

def complain (e : Emitter) (text : String) : Emitter := { e with err := e.err ++ text }

def complainLine (e : Emitter) (text : String) : Emitter := e.complain (text ++ "\n")

/-- Writes a report and counts it. -/
def report (e : Emitter) (r : Report) : Emitter :=
  let e := e.complain r.render
  match r.severity with
  | .error => { e with errors := e.errors + 1 }
  | .warning => { e with warnings := e.warnings + 1 }

def hasErrors (e : Emitter) : Bool := e.errors > 0

def outBuffer? (e : Emitter) : Option String :=
  match e.sink with
  | .capture => some e.out
  | .stream => none

def errBuffer? (e : Emitter) : Option String :=
  match e.sink with
  | .capture => some e.err
  | .stream => none

end Emitter

end ValueFlow
