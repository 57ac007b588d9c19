import CalcBasic.Report
import CalcBasic.Session

/-!
# The interactive loop

The loop reads lines from a session's console. A line that leaves a block open is kept, and the lines
after it are added until the program is complete. While nothing is kept, a line that starts with a
colon and a small letter is a command to the loop itself: no program starts like that. An
expression that stands alone is shown.

The running program reads its own input from the same lines. If the input does not end after the last
of them but breaks off there, whoever reads on ends the loop, and nothing more is written.
-/

namespace CalcBasic

/-- A command to the loop. -/
inductive ReplCommand where
  | quit
  | help
  | vars
  | reset
  | clear
  | unknown (text : String)
deriving DecidableEq, Repr

/-- The command that a line is, if it is one. -/
def ReplCommand.ofLine? (line : String) : Option ReplCommand :=
  match line.toList with
  | ':' :: c :: _ =>
    if 'a' ≤ c && c ≤ 'z' then
      some <| match line with
        | ":quit" | ":q" | ":exit" => .quit
        | ":help" | ":h" => .help
        | ":vars" => .vars
        | ":reset" => .reset
        | ":clear" => .clear
        | _ => .unknown line
    else none
  | _ => none

/-- The state of the loop. -/
structure Repl where
  session : Session
  /-- Lines of a program that is not complete yet. -/
  pending : String := ""
  /-- Whether the input breaks off after its last line. -/
  breaksOff : Bool := false
  transcript : Transcript := {}

namespace Repl

/-- The greeting. -/
def banner : String := "TI-BASIC REPL v0.1.0\nType :help for help, :quit to exit.\n\n"

/-- The answer to `:help`. -/
def helpText : String :=
  "TI-BASIC REPL Commands:\n" ++
  "  :help, :h       Show this help\n" ++
  "  :quit, :q       Exit the REPL\n" ++
  "  :vars           Show variables that differ from their defaults\n" ++
  "  :reset          Reset all variables\n" ++
  "  :clear          Clear the screen\n" ++
  "\n" ++
  "You can enter:\n" ++
  "  - Expressions: 1+2*3, L₁(1), \x7b1,2,3\x7d\n" ++
  "  - Statements: 5→A, Disp A, Prompt B\n" ++
  "  - Blocks, across several lines: For(I,1,3) ... End\n" ++
  "  - Several statements separated by ':'\n"

/-- Clears the screen and goes to its top left corner. -/
def clearScreen : String := "\x1b[2J\x1b[1;1H"

/-- Changes what has been written. -/
def writing (r : Repl) (f : Transcript → Transcript) : Repl :=
  { r with transcript := f r.transcript }

/-- One line per variable that differs from its first value. -/
def varsLines (s : Store) : List String := s.modified.map fun (name, v) => s!"  {name} = {v.text}"

/-- Shows the variables that differ from their first values. -/
def showVars (r : Repl) : Repl :=
  match varsLines r.session.state.store with
  | [] => r.writing (·.writeLine "All variables have their default values.")
  | lines => r.writing fun t => lines.foldl Transcript.writeLine t

/-- Obeys a command; the result says whether the loop goes on. -/
def obey (r : Repl) : ReplCommand → Bool × Repl
  | .quit => (false, r.writing (·.writeLine "Goodbye!"))
  | .help => (true, r.writing (·.write helpText))
  | .vars => (true, r.showVars)
  | .reset =>
    (true, { r with session := r.session.reset }.writing (·.writeLine "Variables reset."))
  | .clear => (true, r.writing (·.write clearScreen))
  | .unknown text =>
    (true, r.writing fun t =>
      (t.writeLine s!"Unknown command: {text}").writeLine "Type :help for help.")

/-- The expression of a program that consists of one expression alone. -/
def loneExpr? (p : Program Span) : Option (Expr Span) :=
  match p.statements with
  | [.command _ (.evaluate e)] => some e
  | _ => none

/-- Shows the value of an expression. -/
def echo (r : Repl) (e : Expr Span) : Repl :=
  match r.session.eval e with
  | .ok v => r.writing (·.writeLine v.text)
  | .error located => r.writing (·.reportFault located)

/-- Reports a fault of a run, unless the run was waiting for a line where the input broke off. -/
def reportFault (r : Repl) (located : Located Span) : Repl :=
  if r.breaksOff && located.fault.isClosedInput then r else r.writing (·.reportFault located)

/-- Runs a program. -/
def runProgram (r : Repl) (p : Program Span) : Repl :=
  let (outcome, session) := r.session.run p
  let (events, session) := session.takeEvents
  let r := { r with session }.writing fun t => events.foldl (Transcript.writeEvent false) t
  match outcome with
  | .fault located => r.reportFault located
  | .done () | .unfinished => r

/-- Runs a source, or keeps it if a block is left open. -/
def submit (r : Repl) (source : String) : Repl :=
  match Program.parse source with
  | .error e =>
    if e.isIncomplete then { r with pending := source }
    else { r with pending := "" }.writing (·.reportSource e)
  | .ok p =>
    let r := { r with pending := "" }
    match loneExpr? p with
    | some e => r.echo e
    | none => r.runProgram p

/-- Adds a line to the lines kept so far. -/
def feed (r : Repl) (line : String) : Repl :=
  r.submit (if r.pending.isEmpty then line else r.pending ++ "\n" ++ line)

/-- Handles a line; the result says whether the loop goes on. -/
def handle (r : Repl) (line : String) : Bool × Repl :=
  let line := Text.trim line
  if r.pending.isEmpty then
    if line.isEmpty then (true, r)
    else
      match ReplCommand.ofLine? line with
      | some command => r.obey command
      | none => (true, r.feed line)
  else (true, r.feed line)

/-- Takes the next item from the session's input. -/
def next (r : Repl) : Option (Input × Repl) :=
  match r.session.state.console.input with
  | [] => none
  | item :: rest =>
    let console := { r.session.state.console with input := rest }
    some (item, { r with session :=
      { r.session with state := { r.session.state with console } } })

/-- Ends the loop where there are no more lines. -/
def finish (r : Repl) : Exit × Repl :=
  if r.breaksOff then (.broken, r) else (.success, r.writing (·.writeLine "Goodbye!"))

/-- Reads and handles lines up to the end of the input or a command to quit. Every pass takes a line
or ends, so one pass more than there are lines is enough. -/
def loop : Nat → Repl → Exit × Repl
  | 0, r => (.success, r)
  | passes + 1, r =>
    match r.next with
    | none => r.finish
    | some (.failure reason, r) => (.success, r.writing (·.report ⟨reason, none⟩))
    | some (.line text, r) =>
      match r.handle text with
      | (false, r) => (.success, r)
      | (true, r) => loop passes r

/-- A whole interactive session. -/
def run (r : Repl) : Exit × Repl :=
  (r.writing (·.write banner)).loop (r.session.state.console.input.length + 1)

end Repl

end CalcBasic
