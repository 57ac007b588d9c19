import CalcBasic.Console
import CalcBasic.Store

/-!
# Actions

A run changes a state: the variables, the console, and the number of statements executed so far. An
action takes a state to an outcome and a state. Running out of fuel is an outcome of its own, apart
from faults: it says nothing about the program.
-/

namespace CalcBasic

/-- The settings of a run. -/
structure Config where
  /-- The number of statements that a run may execute. -/
  stepLimit : Option Nat := none
  /-- The question that an `Input` without a text of its own puts. -/
  prompt : String := "?"
deriving DecidableEq, Repr

/-- What a run changes. -/
structure State where
  store : Store
  console : Console
  steps : Nat := 0

/-- What comes of an action. -/
inductive Outcome (σ α : Type) where
  | done (result : α)
  | fault (fault : Located σ)
  | unfinished
deriving Repr

/-- An action on a state. -/
def Action (σ α : Type) : Type := State → Outcome σ α × State

namespace Action

variable {σ α β : Type}

/-- Does nothing. -/
@[always_inline, inline]
protected def pure (a : α) : Action σ α := fun st => (.done a, st)

/-- Does one action, and then the next if the first was done. -/
@[always_inline, inline]
protected def bind (x : Action σ α) (f : α → Action σ β) : Action σ β := fun st =>
  match x st with
  | (.done a, st) => f a st
  | (.fault e, st) => (.fault e, st)
  | (.unfinished, st) => (.unfinished, st)

instance : Monad (Action σ) where
  pure := Action.pure
  bind := Action.bind

/-- Consults the variables. -/
def consult (f : Store → Except (Located σ) α) : Action σ α := fun st =>
  match f st.store with
  | .ok a => (.done a, st)
  | .error e => (.fault e, st)

/-- Changes the variables; a fault leaves them as they are. -/
def change (span : σ) (f : Store → Except Fault Store) : Action σ Unit := fun st =>
  match f st.store with
  | .ok store => (.done (), { st with store })
  | .error fault => (.fault ⟨fault, span⟩, st)

/-- Counts a statement; the statement after the last one allowed is a fault. -/
def count (config : Config) (span : σ) : Action σ Unit := fun st =>
  let st := { st with steps := st.steps + 1 }
  match config.stepLimit with
  | some limit =>
    if limit < st.steps then (.fault ⟨.stepLimit limit, span⟩, st) else (.done (), st)
  | none => (.done (), st)

/-- Writes a line to the console. -/
def write (span : σ) (line : String) : Action σ Unit := fun st =>
  match st.console.write line with
  | .ok console => (.done (), { st with console })
  | .error reason => (.fault ⟨.console (.failed reason), span⟩, st)

/-- Asks the console for a line on behalf of a variable. -/
def ask (span : σ) (name prompt : String) : Action σ String := fun st =>
  let (answer, console) := st.console.ask prompt
  let st := { st with console }
  match answer with
  | .line s => (.done s, st)
  | .closed => (.fault ⟨.console (.closed name), span⟩, st)
  | .failed reason => (.fault ⟨.console (.failed reason), span⟩, st)

end Action

end CalcBasic
