import CalcBasic.Run

/-!
# Sessions

A session keeps one state over several runs. The variables and the unread input stay from run to run;
the count of statements starts again with each.
-/

namespace CalcBasic

/-- A state with the settings for the runs on it. -/
structure Session where
  config : Config
  /-- The fuel of every run. -/
  fuel : Nat
  state : State

namespace Session

/-- A session with fresh variables. -/
def start (config : Config) (fuel : Nat) (console : Console) : Session :=
  ⟨config, fuel, { store := .fresh, console }⟩

/-- Runs a program from a position. -/
def runFrom (s : Session) (p : Program Span) (start : Option Position) :
    Outcome Span Unit × Session :=
  let (outcome, state) := p.runFrom s.config s.fuel start s.state
  (outcome, { s with state })

/-- Runs a program from its beginning. -/
def run (s : Session) (p : Program Span) : Outcome Span Unit × Session := s.runFrom p p.head?

/-- Gives every variable its first value again. -/
def reset (s : Session) : Session := { s with state := { s.state with store := .fresh } }

/-- Adds to the input to come. -/
def feed (s : Session) (input : List Input) : Session :=
  { s with state := { s.state with
      console := { s.state.console with input := s.state.console.input ++ input } } }

/-- The events so far, and the session without them. -/
def takeEvents (s : Session) : List Event × Session :=
  (s.state.console.events.toList,
    { s with state := { s.state with console := { s.state.console with events := #[] } } })

/-- The value of an expression in the session's variables. -/
def eval (s : Session) (e : Expr Span) : Except (Located Span) Value := e.eval s.state.store

end Session

end CalcBasic
