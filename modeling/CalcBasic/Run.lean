import CalcBasic.Expr.Eval
import CalcBasic.Machine
import CalcBasic.Program
import CalcBasic.Suggest

/-!
# Running programs

A statement is executed to a flow: go on, jump to a label, or end the run. Blocks and loops hand a
jump and an end straight on to whoever executes them, so only the top of a run sees a jump. It then
goes on with the statements from the label to the end of the label's own chain, whichever blocks
were being executed.

Execution recurses on the statements. Fuel bounds the iterations of every single loop and the number
of jumps; a run that is not unfinished has the same outcome with any more fuel.
-/

namespace CalcBasic

/-- How a run goes on after a statement. -/
inductive Flow (σ : Type) where
  | proceed
  | jump (label : String) (span : σ)
  | halt
deriving DecidableEq, Repr

variable {σ : Type}

/-- The value that a typed line has, on behalf of a name. A fault stands at the name, because the
line is no part of the program. -/
def readAnswer (name : Name σ) (line : String) (s : Store) : Except (Located σ) Value :=
  match Expr.parse line with
  | .error reason => .error ⟨.badInput line reason, name.span⟩
  | .ok e =>
    match e.eval s with
    | .error located => .error ⟨located.fault, name.span⟩
    | .ok v => .ok v

/-- Asks for a value and gives it to a variable. -/
def askFor (prompt : String) (name : Name σ) : Action σ Unit := do
  let line ← Action.ask name.span name.text prompt
  let v ← Action.consult (readAnswer name line)
  Action.change name.span (·.assign name.text v)

/-- Stores a value. -/
def Target.put (v : Value) : Target σ → Action σ Unit
  | whole name => Action.change name.span (·.assign name.text v)
  | element span name index => do
    let i ← Action.consult index.eval
    Action.change span (·.setElement name.text v i)

/-- Shows values, each on a line of its own, for a statement. -/
def displayAll (span : σ) : List (Expr σ) → Action σ Unit
  | [] => pure ()
  | e :: es => do
    let v ← Action.consult e.eval
    Action.write span v.text
    displayAll span es

/-- Asks for a value for each name. -/
def promptAll : List (Name σ) → Action σ Unit
  | [] => pure ()
  | name :: names => do
    askFor (name.text ++ "?") name
    promptAll names

/-- Executes a command. -/
def Command.exec (config : Config) (span : σ) : Command σ → Action σ (Flow σ)
  | evaluate e => do
    let _ ← Action.consult e.eval
    return .proceed
  | display es => do
    displayAll span es
    return .proceed
  | store e target => do
    let v ← Action.consult e.eval
    target.put v
    return .proceed
  | prompt names => do
    promptAll names
    return .proceed
  | input text name => do
    askFor (text.getD config.prompt) name
    return .proceed
  | label _ => return .proceed
  | goto name => return .jump name span
  | stop => return .halt

/-- Repeats a body as long as a condition is true. -/
def whileTrue (condition : Expr σ) (body : Action σ (Flow σ)) : Nat → Action σ (Flow σ)
  | 0, st => (.unfinished, st)
  | fuel + 1, st =>
    match condition.evalNumber st.store .whileCondition with
    | .error e => (.fault e, st)
    | .ok x =>
      if isTrue x then
        match body st with
        | (.done .proceed, st) => whileTrue condition body fuel st
        | stopped => stopped
      else (.done .proceed, st)

/-- A range with its end and its step worked out. -/
structure Stride where
  last : Float
  step : Float

namespace Stride

/-- Whether the range still holds the counter. -/
def holds (r : Stride) (counter : Float) : Bool :=
  (r.step > 0 && counter ≤ r.last) || (r.step < 0 && counter ≥ r.last)

end Stride

/-- Repeats a body for the values of a counter. The counter is apart from the variable that shows
it, so what the body does to the variable does not steer the loop. -/
def countThrough (name : Name σ) (r : Stride) (body : Action σ (Flow σ)) :
    Nat → Float → Action σ (Flow σ)
  | 0, _, st => (.unfinished, st)
  | fuel + 1, counter, st =>
    if r.holds counter then
      match Action.change name.span (·.assign name.text (.number counter)) st with
      | (.done (), st) =>
        match body st with
        | (.done .proceed, st) => countThrough name r body fuel (counter + r.step) st
        | stopped => stopped
      | (.fault e, st) => (.fault e, st)
      | (.unfinished, st) => (.unfinished, st)
    else (.done .proceed, st)

/-- Works out the end and the step of a range, which are numbers; the step is not zero. -/
def Range.stride (span : σ) (r : Range σ) (s : Store) : Except (Located σ) Stride := do
  let last ← r.last.evalNumber s .forLast
  let step ← match r.step with
    | some e => e.evalNumber s .forStep
    | none => pure 1
  if step > 0 || step < 0 then return ⟨last, step⟩ else throw ⟨.zeroStep, span⟩

/-- Begins a counting loop: works out its range, and then gives the variable its start value. -/
def Range.enter (span : σ) (r : Range σ) : Action σ (Stride × Float) := do
  let stride ← Action.consult (r.stride span)
  let v ← Action.consult r.start.eval
  Action.change r.counter.span (·.assign r.counter.text v)
  let start ← Action.consult fun _ => v.expectNumber .forCounter r.counter.span
  return (stride, start)

namespace Stmt

mutual

/-- Executes a statement. -/
def exec (config : Config) (fuel : Nat) : Stmt σ → Action σ (Flow σ)
  | command span c => do
    Action.count config span
    c.exec config span
  | ifThen span condition body => do
    Action.count config span
    let x ← Action.consult (condition.evalNumber · .ifCondition)
    if isTrue x then execAll config fuel body else return .proceed
  | ifElse span condition body otherwise => do
    Action.count config span
    let x ← Action.consult (condition.evalNumber · .ifCondition)
    if isTrue x then execAll config fuel body else execAll config fuel otherwise
  | whileLoop span condition body => do
    Action.count config span
    whileTrue condition (execAll config fuel body) fuel
  | forLoop span range body => do
    Action.count config span
    let (stride, start) ← range.enter span
    countThrough range.counter stride (execAll config fuel body) fuel start

/-- Executes statements one after the other, as long as they proceed. -/
def execAll (config : Config) (fuel : Nat) : List (Stmt σ) → Action σ (Flow σ)
  | [], st => (.done .proceed, st)
  | s :: rest, st =>
    match s.exec config fuel st with
    | (.done .proceed, st) => execAll config fuel rest st
    | stopped => stopped

end

end Stmt

/-- The places where a run can go on after a jump. -/
structure Landing (σ : Type) where
  /-- The labels with the statements from there on, in textual order. -/
  targets : List (String × List (Stmt σ))
  /-- The names of the labels, in ascending order. -/
  names : List String

/-- The statements from a label on, or a fault that may name a similar label. -/
def Landing.find (l : Landing σ) (label : String) (span : σ) :
    Except (Located σ) (List (Stmt σ)) :=
  match l.targets.lookup label with
  | some statements => .ok statements
  | none => .error ⟨.undefinedLabel label (similarName? label l.names 1), span⟩

/-- Executes statements and then, after each jump, the statements from its label on. -/
def runChain (config : Config) (fuel : Nat) (landing : Landing σ) :
    Nat → List (Stmt σ) → Action σ Unit
  | 0, _, st => (.unfinished, st)
  | jumps + 1, statements, st =>
    match Stmt.execAll config fuel statements st with
    | (.done (.jump label span), st) =>
      match landing.find label span with
      | .ok target => runChain config fuel landing jumps target st
      | .error e => (.fault e, st)
    | (.done _, st) => (.done (), st)
    | (.fault e, st) => (.fault e, st)
    | (.unfinished, st) => (.unfinished, st)

namespace Program

/-- The places where a run of the program can go on after a jump. -/
def landing (p : Program σ) : Landing σ := ⟨p.targets, p.labelNames⟩

/-- Runs a program from a position; without one there is nothing to run. -/
def runFrom (config : Config) (fuel : Nat) (p : Program σ) (start : Option Position) :
    Action σ Unit := fun st =>
  let st := { st with steps := 0 }
  match start with
  | none => (.done (), st)
  | some pos => runChain config fuel p.landing (fuel + 1) (p.suffix pos) st

/-- Runs a program from its beginning. -/
def run (config : Config) (fuel : Nat) (p : Program σ) : Action σ Unit :=
  p.runFrom config fuel p.head?

end Program

end CalcBasic
