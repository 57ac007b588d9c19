import CalcBasic.Proofs.Chains
import CalcBasic.Run
import Mathlib.Logic.Function.Iterate

/-!
# The flat machine

A machine that runs programs without recursion. Its state is a position, a stack of frames and what
a run changes; a frame says what is left to do once the chain at hand has ended. A jump throws the
whole stack away and moves to the position of its label, and the end of a chain with nothing on the
stack is the end of the run.

The machine shares with `Program.runFrom` what single commands do and how conditions and ranges are
worked out. How statements follow each other is its own.
-/

namespace CalcBasic

variable {σ α : Type}

namespace Program

/-- The statement at a position. -/
def statement? (p : Program σ) (pos : Position) : Option (Stmt σ) :=
  (p.chain pos.chain)[pos.index]?

/-- The position of the next statement of the same chain. -/
def next? (p : Program σ) (pos : Position) : Option Position :=
  let next : Position := ⟨pos.chain, pos.index + 1⟩
  (p.statement? next).map fun _ => next

/-- The statements from a position to the end of its chain; without a position there are none. -/
def rest (p : Program σ) : Option Position → List (Stmt σ)
  | none => []
  | some pos => p.suffix pos

end Program

/-- What is left to do once a chain has ended. -/
inductive Frame (σ : Type) where
  /-- Go on behind the statement at the position. -/
  | resume (pos : Position)
  /-- Test the condition of the `While` statement at the position again. -/
  | whileLoop (pos : Position) (condition : Expr σ)
  /-- Count on in the `For(` statement at the position; its range and counter are its own. -/
  | forLoop (pos : Position) (name : Name σ) (range : Stride) (counter : Float)

/-- A state of the machine. -/
inductive Flat (σ : Type) where
  | running (pos? : Option Position) (stack : List (Frame σ)) (state : State)
  | ended (result : Except (Located σ) Unit) (state : State)

namespace Flat

/-- Goes on with what an action gives, or ends with its fault. An action that is unfinished leaves
the machine where it is. -/
def follow (here : Flat σ) (next : α → State → Flat σ) : Outcome σ α × State → Flat σ
  | (.done a, st) => next a st
  | (.fault e, st) => ended (.error e) st
  | (.unfinished, _) => here

variable (config : Config) (p : Program σ)

/-- Goes on behind a statement. -/
def advance (pos : Position) (stack : List (Frame σ)) (st : State) : Flat σ :=
  running (p.next? pos) stack st

/-- Enters a chain, on whose end the frame waits. -/
def enter (chain : Nat) (frame : Frame σ) (stack : List (Frame σ)) (st : State) : Flat σ :=
  running (p.first? chain) (frame :: stack) st

/-- Jumps to a label and forgets all frames. -/
def jump (label : String) (span : σ) (st : State) : Flat σ :=
  match p.resolve? label with
  | some pos => running (some pos) [] st
  | none => ended (.error ⟨.undefinedLabel label (similarName? label p.labelNames 1), span⟩) st

/-- Goes on as a command says. -/
def flow (pos : Position) (stack : List (Frame σ)) : Flow σ → State → Flat σ
  | .proceed, st => advance p pos stack st
  | .jump label span, st => jump p label span st
  | .halt, st => ended (.ok ()) st

/-- Tests the condition of a `While` statement. -/
def testWhile (pos : Position) (condition : Expr σ) (stack : List (Frame σ)) (st : State) :
    Flat σ :=
  match condition.evalNumber st.store .whileCondition with
  | .error e => ended (.error e) st
  | .ok x =>
    if isTrue x then enter p (p.inner pos) (.whileLoop pos condition) stack st
    else advance p pos stack st

/-- Tests the counter of a `For(` statement and gives the variable its value. -/
def testFor (pos : Position) (name : Name σ) (range : Stride) (counter : Float)
    (stack : List (Frame σ)) (st : State) : Flat σ :=
  if range.holds counter then
    match st.store.assign name.text (.number counter) with
    | .error fault => ended (.error ⟨fault, name.span⟩) st
    | .ok store =>
      enter p (p.inner pos) (.forLoop pos name range counter) stack { st with store }
  else advance p pos stack st

/-- Takes the top frame off the stack when a chain has ended. -/
def unwind (st : State) : List (Frame σ) → Flat σ
  | [] => ended (.ok ()) st
  | .resume pos :: stack => advance p pos stack st
  | .whileLoop pos condition :: stack => testWhile p pos condition stack st
  | .forLoop pos name range counter :: stack =>
    testFor p pos name range (counter + range.step) stack st

/-- Executes what a statement has to do before its blocks, and goes on to a block or behind the
statement. -/
def perform (pos : Position) (stack : List (Frame σ)) (st : State) (here : Flat σ) :
    Stmt σ → Flat σ
  | .command span c => follow here (flow p pos stack) (c.exec config span st)
  | .ifThen _ condition _ =>
    follow here (fun x st =>
      if isTrue x then enter p (p.inner pos) (.resume pos) stack st else advance p pos stack st)
      (Action.consult (condition.evalNumber · .ifCondition) st)
  | .ifElse _ condition body _ =>
    follow here (fun x st =>
      if isTrue x then enter p (p.inner pos) (.resume pos) stack st
      else enter p (p.inner pos + 1 + Stmt.chainCountOf body) (.resume pos) stack st)
      (Action.consult (condition.evalNumber · .ifCondition) st)
  | .whileLoop _ condition _ => testWhile p pos condition stack st
  | .forLoop span range _ =>
    follow here (fun entry st => testFor p pos range.counter entry.1 entry.2 stack st)
      (range.enter span st)

/-- One step of the machine. A statement is counted before it is executed. -/
def step : Flat σ → Flat σ
  | ended result st => ended result st
  | running none stack st => unwind p st stack
  | running (some pos) stack st =>
    match p.statement? pos with
    | none => unwind p st stack
    | some s =>
      follow (running (some pos) stack st)
        (fun _ st' => perform config p pos stack st' (running (some pos) stack st) s)
        (Action.count config s.span st)

/-- The machine at the beginning of a run. -/
def start (pos? : Option Position) (st : State) : Flat σ := running pos? [] { st with steps := 0 }

end Flat

end CalcBasic
