import CalcBasic.Console
import CalcBasic.Fault

/-!
# Reports

A tool writes text to its output and, apart from it, reports of what went wrong. A report has a title
line, and below it the place and the words of the trouble. In the end it says how it went.
-/

namespace CalcBasic

/-- What a tool says about a trouble. -/
structure Report where
  title : String
  /-- Where in the source the trouble is, and what it is. -/
  detail : Option (Span × String) := none
deriving DecidableEq, Repr

namespace Report

/-- The first line of a report. -/
def heading (r : Report) : String := "Error: " ++ r.title

/-- The lines of a report. -/
def lines (r : Report) : List String :=
  match r.detail with
  | none => [r.heading]
  | some (span, message) => [r.heading, s!"  at {span.text}: {message}"]

/-- The report of an error in a source. An error without a place has only a title. -/
def ofSourceError (e : SourceError) : Report :=
  match e.span? with
  | some span => ⟨e.title, some (span, e.message)⟩
  | none => ⟨e.display, none⟩

/-- The report of a fault of a run. -/
def ofFault (f : Located Span) : Report :=
  ⟨s!"Runtime error ({f.fault.title})", some (f.span, f.fault.message)⟩

end Report

/-- What a tool has written. -/
structure Transcript where
  output : String := ""
  reports : Array Report := #[]

namespace Transcript

/-- Writes text. -/
def write (t : Transcript) (text : String) : Transcript := { t with output := t.output ++ text }

/-- Writes a line. -/
def writeLine (t : Transcript) (line : String) : Transcript := t.write (line ++ "\n")

/-- Reports a trouble. -/
def report (t : Transcript) (r : Report) : Transcript := { t with reports := t.reports.push r }

/-- Reports an error in a source. -/
def reportSource (t : Transcript) (e : SourceError) : Transcript := t.report (.ofSourceError e)

/-- Reports a fault of a run. -/
def reportFault (t : Transcript) (f : Located Span) : Transcript := t.report (.ofFault f)

/-- Writes what an event leaves on the output. A question is shown only if `asking`, and then without
ending the line. -/
def writeEvent (asking : Bool) (t : Transcript) : Event → Transcript
  | .shown line => t.writeLine line
  | .asked prompt _ | .askFailed prompt => if asking then t.write prompt else t

end Transcript

/-- How a tool ends. -/
inductive Exit where
  | success
  /-- Something went wrong and was reported. -/
  | failure
  /-- The input broke off, and the tool with it. -/
  | broken
deriving DecidableEq, Repr

/-- The number that stands for an end. -/
def Exit.status : Exit → Nat
  | success => 0
  | failure => 1
  | broken => 101

end CalcBasic
