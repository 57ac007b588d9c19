import CalcBasic.Arena.Parser
import CalcBasic.Program.View
import CalcBasic.Repl
import CalcBasic.Source
import CalcBasic.Text.Typed

/-!
# The command line tool

The tool runs a program file, shows its tree or its tokens, or starts the interactive loop. Each task
is a function from the source and the text of the standard input to a transcript and an exit
status.
-/

namespace CalcBasic

/-- What the tool is asked to do with a program file. -/
inductive FileTask where
  | run (stepLimit : Option Nat)
  | parse
  | tokens
deriving DecidableEq, Repr

/-- What a task has written, and how it ended. -/
structure Reply where
  transcript : Transcript
  exit : Exit

namespace Tool

/-- The lines of the standard input as a console has them. -/
def inputLines (stdin : String) : List Input := (Text.lines stdin).map Input.line

/-- Runs a program; questions are shown on the output. -/
def runProgram (config : Config) (fuel : Nat) (p : Program Span) (stdin : String) : Reply :=
  let (outcome, session) :=
    (Session.start config fuel { input := inputLines stdin }).run p
  let transcript := session.takeEvents.1.foldl (Transcript.writeEvent true) {}
  match outcome with
  | .done () => ⟨transcript, .success⟩
  | .fault located => ⟨transcript.reportFault located, .failure⟩
  | .unfinished => ⟨transcript, .failure⟩

/-- A line of a token listing. -/
def tokenLine (t : Spanned Token) : String := s!"{t.node.listing} @ {t.span.text}"

/-- Does a task with the source of a program. -/
def withSource (task : FileTask) (fuel : Nat) (source stdin : String) : Except SourceError Reply :=
  match task with
  | .run stepLimit => do
    let p ← Program.parse source
    return runProgram { stepLimit } fuel p stdin
  | .parse => do
    let a ← Arena.parse source
    return ⟨({} : Transcript).writeLine a.view.pretty, .success⟩
  | .tokens =>
    match Token.read source with
    | .error u => .error (.unreadable u)
    | .ok tokens => .ok ⟨(tokens.map tokenLine).foldl Transcript.writeLine {}, .success⟩

/-- Does a task with a program file, given its source or why it has none. -/
def withFile (task : FileTask) (fuel : Nat) (source : Except SourceError String)
    (stdin : String) : Reply :=
  match source.bind fun text => withSource task fuel text stdin with
  | .ok reply => reply
  | .error e => ⟨({} : Transcript).reportSource e, .failure⟩

/-- The lines of the standard input as they are typed to the interactive loop; there is none in the
place of a broken line. -/
def typedLines (stdin : String) : List (Option String) := (Text.lines stdin).map Text.typed

/-- The interactive loop on the standard input, which breaks off at the first broken line. -/
def repl (stepLimit : Option Nat) (fuel : Nat) (stdin : String) : Reply :=
  let lines := typedLines stdin
  let input := (lines.takeWhile Option.isSome).filterMap (Option.map Input.line)
  let session := Session.start { stepLimit } fuel { input }
  let (exit, r) := ({ session, breaksOff := lines.any Option.isNone } : Repl).run
  ⟨r.transcript, exit⟩

end Tool

end CalcBasic
