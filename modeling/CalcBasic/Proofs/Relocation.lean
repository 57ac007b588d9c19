import CalcBasic.Proofs.ExecutionRules
import CalcBasic.Proofs.Resuming

/-!
# Relocation

A program does the same wherever it stands. Its annotations show in the annotations of its faults
and nowhere else, and without a limit the number of statements executed before it does not matter.

1. The value of an expression does not depend on annotations, and its fault is annotated as the
   expression is (`Expr.eval_map`).
2. An action is another one moved (`Action.Moves`) if from a later state it comes to the same
   outcome, up to annotations, in the same state, only later. This goes along with composition, and
   holds of the basic actions.
3. So a statement with other annotations is the statement moved (`Stmt.moves_exec`), and a run is
   the run moved, if its jumps land at the statements with the other annotations
   (`runChain_moves`).
-/

namespace CalcBasic

variable {σ τ α α' β β' : Type}

/-- Changes the annotation of a fault. -/
def Located.map (f : σ → τ) (l : Located σ) : Located τ := ⟨l.fault, f l.span⟩

/-- Changes the annotation of a jump. -/
def Flow.map (f : σ → τ) : Flow σ → Flow τ
  | proceed => proceed
  | jump label span => jump label (f span)
  | halt => halt

/-- Changes the annotation of a fault, and the result. -/
def Outcome.map (f : σ → τ) (g : α → β) : Outcome σ α → Outcome τ β
  | done a => done (g a)
  | fault l => fault (l.map f)
  | unfinished => unfinished

/-- Changes every annotation of the statements to land at. -/
def Landing.map (f : σ → τ) (l : Landing σ) : Landing τ :=
  ⟨l.targets.map fun target => (target.1, Stmt.mapAll f target.2), l.names⟩

/-! ## Expressions -/

section Expressions

variable (f : σ → τ)

theorem mapError_bind {ε ε' : Type} (h : ε → ε') (x : Except ε α) (k : α → Except ε β) :
    (x >>= k).mapError h = x.mapError h >>= fun a => (k a).mapError h := by
  cases x <;> rfl

theorem mapError_map {ε ε' : Type} (h : ε → ε') (g : α → β) (x : Except ε α) :
    (g <$> x).mapError h = g <$> x.mapError h := by
  cases x <;> rfl

theorem Fault.locate_map (span : σ) (x : Except Fault α) :
    locate (f span) x = (locate span x).mapError (.map f) := by
  cases x <;> rfl

theorem Value.expectNumber_map (purpose : Purpose) (span : σ) (v : Value) :
    v.expectNumber purpose (f span) = (v.expectNumber purpose span).mapError (.map f) := by
  cases v <;> rfl

namespace Expr

mutual

/-- The value of an expression does not depend on its annotations. -/
theorem eval_map (s : Store) (e : Expr σ) :
    (e.map f).eval s = (e.eval s).mapError (.map f) := by
  cases e with
  | literal span x => rfl
  | var span name => exact Fault.locate_map f span _
  | element span name index =>
    rw [Expr.map, eval, eval, eval_map s index, mapError_bind]
    refine bind_congr fun i => ?_
    rw [mapError_map, Fault.locate_map]
  | list span items => rw [Expr.map, eval, eval, evalItems_map s #[] items, mapError_map]
  | binary span op left right =>
    rw [Expr.map, eval, eval, eval_map s left, eval_map s right, mapError_bind]
    refine bind_congr fun l => ?_
    by_cases hop : op.isLogical = true
    · rw [if_pos hop, if_pos hop, mapError_bind]
      refine bind_congr fun r => ?_
      rw [Value.expectNumber_map, mapError_bind]
      refine bind_congr fun x => ?_
      rw [Value.expectNumber_map, mapError_bind]
      rfl
    · rw [if_neg hop, if_neg hop, span_map, span_map, Value.expectNumber_map, mapError_bind]
      refine bind_congr fun x => ?_
      rw [mapError_bind]
      refine bind_congr fun r => ?_
      rw [Value.expectNumber_map, mapError_bind]
      rfl
  | signed span sign operand =>
    rw [Expr.map, eval, eval, eval_map s operand, mapError_bind]
    refine bind_congr fun v => ?_
    rw [span_map, Value.expectNumber_map, mapError_bind]
    rfl
  | group span inner =>
    rw [Expr.map, eval, eval]
    exact eval_map s inner

theorem evalItems_map (s : Store) (found : Array Float) (es : List (Expr σ)) :
    evalItems s found (mapAll f es) = (evalItems s found es).mapError (.map f) := by
  cases es with
  | nil => rfl
  | cons e es =>
    rw [mapAll, evalItems, evalItems, eval_map s e, mapError_bind]
    refine bind_congr fun v => ?_
    rw [span_map, Value.expectNumber_map, mapError_bind]
    exact bind_congr fun x => evalItems_map s _ es

end

theorem evalNumber_map (s : Store) (purpose : Purpose) (e : Expr σ) :
    (e.map f).evalNumber s purpose = (e.evalNumber s purpose).mapError (.map f) := by
  rw [evalNumber, evalNumber, eval_map, mapError_bind]
  refine bind_congr fun v => ?_
  rw [span_map, Value.expectNumber_map]

end Expr

theorem readAnswer_map (name : Name σ) (line : String) (s : Store) :
    readAnswer (name.map f) line s = (readAnswer name line s).mapError (.map f) := by
  unfold readAnswer
  cases Expr.parse line with
  | error reason => rfl
  | ok e => dsimp only; cases e.eval s <;> rfl

theorem Range.stride_map (span : σ) (r : Range σ) (s : Store) :
    (r.map f).stride (f span) s = (r.stride span s).mapError (.map f) := by
  have hnonzero (last step : Float) :
      (if step > 0 || step < 0 then pure ⟨last, step⟩ else throw ⟨.zeroStep, f span⟩ :
        Except (Located τ) Stride) =
      (if step > 0 || step < 0 then pure ⟨last, step⟩ else throw ⟨.zeroStep, span⟩ :
        Except (Located σ) Stride).mapError (.map f) := by
    by_cases h : (step > 0 || step < 0) = true
    · rw [if_pos h, if_pos h]
      rfl
    · rw [if_neg h, if_neg h]
      rfl
  unfold stride
  rw [Range.map, Expr.evalNumber_map, mapError_bind]
  refine bind_congr fun last => ?_
  cases r.step with
  | none => exact hnonzero last 1
  | some e =>
    dsimp only [Option.map]
    rw [Expr.evalNumber_map, mapError_bind]
    exact bind_congr fun step => hnonzero last step

end Expressions

/-! ## Actions -/

/-- The state after so many more statements, otherwise the same. -/
def State.later (n : Nat) (st : State) : State := { st with steps := st.steps + n }

namespace Action

variable {f : σ → τ} {n : Nat} {g : α → α'} {h : β → β'}

/-- The action `y` is the action `x` moved: from a later state it comes to the same outcome, up to
annotations, and to the same state, as much later. -/
def Moves (f : σ → τ) (n : Nat) (g : α → α') (x : Action σ α) (y : Action τ α') : Prop :=
  ∀ st, y (st.later n) = ((x st).1.map f g, (x st).2.later n)

theorem moves_pure (a : α) : Moves f n g (pure a) (pure (g a)) := fun _ => rfl

theorem Moves.bind {x : Action σ α} {y : Action τ α'} {k : α → Action σ β} {k' : α' → Action τ β'}
    (hx : Moves f n g x y) (hk : ∀ a, Moves f n h (k a) (k' (g a))) :
    Moves f n h (x >>= k) (y >>= k') := by
  intro st
  rw [bind_apply, bind_apply, hx st]
  rcases x st with ⟨(a | l | _), st'⟩
  · exact hk a st'
  · rfl
  · rfl

theorem moves_consult {k : Store → Except (Located σ) α} {k' : Store → Except (Located τ) α'}
    (hk : ∀ s, k' s = ((k s).map g).mapError (.map f)) :
    Moves f n g (consult k) (consult k') := by
  intro st
  unfold consult
  rw [show (st.later n).store = st.store from rfl, hk]
  cases k st.store <;> rfl

theorem moves_read {k : Store → Except (Located σ) α} {k' : Store → Except (Located τ) α}
    (hk : ∀ s, k' s = (k s).mapError (.map f)) : Moves f n id (consult k) (consult k') := by
  refine moves_consult fun s => ?_
  rw [hk]
  cases k s <;> rfl

theorem moves_change (span : σ) (k : Store → Except Fault Store) :
    Moves f n id (change span k) (change (f span) k) := by
  intro st
  unfold change
  rw [show (st.later n).store = st.store from rfl]
  cases k st.store <;> rfl

theorem moves_count {config : Config} (hlimit : config.stepLimit = none) (span : σ) :
    Moves f n id (count config span) (count config (f span)) := by
  intro st
  unfold count
  rw [hlimit]
  show (_, _) = (_, _)
  rw [State.later, State.later, Nat.add_right_comm]
  rfl

theorem moves_write (span : σ) (line : String) :
    Moves f n id (write span line) (write (f span) line) := by
  intro st
  unfold write
  rw [show (st.later n).console = st.console from rfl]
  cases st.console.write line <;> rfl

theorem moves_ask (span : σ) (name prompt : String) :
    Moves f n id (ask span name prompt) (ask (f span) name prompt) := by
  intro st
  unfold ask
  rw [show (st.later n).console = st.console from rfl]
  rcases st.console.ask prompt with ⟨(_ | _ | _), console⟩ <;> rfl

theorem Moves.ite {x x' : Action σ α} {y y' : Action τ α'} (hx : Moves f n g x y)
    (hx' : Moves f n g x' y') (b : Bool) :
    Moves f n g (if b then x else x') (if b then y else y') := by
  cases b with
  | true => exact hx
  | false => exact hx'

theorem Moves.andThen {x x' : Action σ (Flow σ)} {y y' : Action τ (Flow τ)}
    (hx : Moves f n (.map f) x y) (hx' : Moves f n (.map f) x' y') :
    Moves f n (.map f) (Action.andThen x x') (Action.andThen y y') := by
  refine hx.bind fun flow => ?_
  cases flow with
  | proceed => exact hx'
  | jump label span => exact moves_pure (Flow.jump label span)
  | halt => exact moves_pure Flow.halt

end Action

/-! ## Statements -/

section Statements

open CalcBasic.Action

variable {f : σ → τ} {n : Nat} {config : Config}

theorem moves_eval (e : Expr σ) : Moves f n id (consult e.eval) (consult (e.map f).eval) :=
  moves_read fun s => e.eval_map f s

theorem moves_evalNumber (e : Expr σ) (purpose : Purpose) :
    Moves f n id (consult (e.evalNumber · purpose)) (consult ((e.map f).evalNumber · purpose)) :=
  moves_read fun s => e.evalNumber_map f s purpose

theorem moves_askFor (prompt : String) (name : Name σ) :
    Moves f n id (askFor prompt name) (askFor prompt (name.map f)) := by
  refine (moves_ask name.span name.text prompt).bind fun line => ?_
  exact (moves_read fun s => readAnswer_map f name line s).bind fun v => moves_change name.span _

theorem moves_put (v : Value) (target : Target σ) :
    Moves f n id (target.put v) ((target.map f).put v) := by
  cases target with
  | whole name => exact moves_change name.span (·.assign name.text v)
  | element span name index => exact (moves_eval index).bind fun i => moves_change span _

theorem moves_displayAll (span : σ) (es : List (Expr σ)) :
    Moves f n id (displayAll span es) (displayAll (f span) (es.map (Expr.map f))) := by
  induction es with
  | nil => exact moves_pure ()
  | cons e es ih => exact (moves_eval e).bind fun v => (moves_write span _).bind fun _ => ih

theorem moves_promptAll (names : List (Name σ)) :
    Moves f n id (promptAll names) (promptAll (names.map (Name.map f))) := by
  induction names with
  | nil => exact moves_pure ()
  | cons name names ih => exact (moves_askFor _ name).bind fun _ => ih

theorem Command.moves_exec (span : σ) (c : Command σ) :
    Moves f n (.map f) (c.exec config span) ((c.map f).exec config (f span)) := by
  have hproceed : Moves f n (.map f) (pure Flow.proceed) (pure Flow.proceed) :=
    moves_pure Flow.proceed
  cases c with
  | evaluate e => exact (moves_eval e).bind fun _ => hproceed
  | display es => exact (moves_displayAll span es).bind fun _ => hproceed
  | store e target => exact (moves_eval e).bind fun v => (moves_put v target).bind fun _ => hproceed
  | prompt names => exact (moves_promptAll names).bind fun _ => hproceed
  | input text name => exact (moves_askFor _ name).bind fun _ => hproceed
  | label name => exact hproceed
  | goto name => exact moves_pure (Flow.jump name span)
  | stop => exact moves_pure Flow.halt

theorem Range.moves_enter (span : σ) (r : Range σ) :
    Moves f n id (r.enter span) ((r.map f).enter (f span)) := by
  refine (moves_read fun s => r.stride_map f span s).bind fun stride => ?_
  refine (moves_eval r.start).bind fun v => (moves_change r.counter.span _).bind fun _ => ?_
  refine (moves_read fun _ => ?_).bind fun start => moves_pure (stride, start)
  exact v.expectNumber_map f _ r.counter.span

theorem moves_unfinished {g : α → α'} :
    Moves f n g (fun st => (.unfinished, st)) (fun st => (.unfinished, st)) := fun _ => rfl

theorem whileTrue_moves (condition : Expr σ) {body : Action σ (Flow σ)} {body' : Action τ (Flow τ)}
    (hbody : Moves f n (.map f) body body') (fuel : Nat) :
    Moves f n (.map f) (whileTrue condition body fuel)
      (whileTrue (condition.map f) body' fuel) := by
  induction fuel with
  | zero => exact moves_unfinished
  | succ fuel ih =>
    rw [whileTrue_eq, whileTrue_eq]
    refine (moves_evalNumber condition _).bind fun x => ?_
    exact (hbody.andThen ih).ite (moves_pure Flow.proceed) (isTrue x)

theorem countThrough_moves (name : Name σ) (r : Stride) {body : Action σ (Flow σ)}
    {body' : Action τ (Flow τ)} (hbody : Moves f n (.map f) body body') (fuel : Nat)
    (counter : Float) :
    Moves f n (.map f) (countThrough name r body fuel counter)
      (countThrough (name.map f) r body' fuel counter) := by
  induction fuel generalizing counter with
  | zero => exact moves_unfinished
  | succ fuel ih =>
    rw [countThrough_eq, countThrough_eq]
    refine Moves.ite ?_ (moves_pure Flow.proceed) (r.holds counter)
    exact (moves_change name.span _).bind fun _ => hbody.andThen (ih _)

namespace Stmt

mutual

theorem moves_exec (hlimit : config.stepLimit = none) (fuel : Nat) (s : Stmt σ) :
    Moves f n (.map f) (s.exec config fuel) ((s.map f).exec config fuel) := by
  cases s with
  | command span c =>
    rw [Stmt.map, exec, exec]
    exact (moves_count hlimit span).bind fun _ => c.moves_exec span
  | ifThen span condition body =>
    rw [Stmt.map, exec, exec]
    refine (moves_count hlimit span).bind fun _ => (moves_evalNumber condition _).bind fun x => ?_
    exact (moves_execAll hlimit fuel body).ite (moves_pure Flow.proceed) (isTrue x)
  | ifElse span condition body otherwise =>
    rw [Stmt.map, exec, exec]
    refine (moves_count hlimit span).bind fun _ => (moves_evalNumber condition _).bind fun x => ?_
    exact (moves_execAll hlimit fuel body).ite (moves_execAll hlimit fuel otherwise) (isTrue x)
  | whileLoop span condition body =>
    rw [Stmt.map, exec, exec]
    refine (moves_count hlimit span).bind fun _ => ?_
    exact whileTrue_moves condition (moves_execAll hlimit fuel body) fuel
  | forLoop span range body =>
    rw [Stmt.map, exec, exec]
    refine (moves_count hlimit span).bind fun _ => (range.moves_enter span).bind fun entry => ?_
    exact countThrough_moves range.counter entry.1 (moves_execAll hlimit fuel body) fuel entry.2

/-- **Blocks.** Statements with other annotations do what the statements do, moved. -/
theorem moves_execAll (hlimit : config.stepLimit = none) (fuel : Nat) (ss : List (Stmt σ)) :
    Moves f n (.map f) (execAll config fuel ss) (execAll config fuel (mapAll f ss)) := by
  cases ss with
  | nil =>
    rw [mapAll, execAll_nil, execAll_nil]
    exact moves_pure Flow.proceed
  | cons s rest =>
    rw [mapAll, execAll_eq, execAll_eq]
    exact (moves_exec hlimit fuel s).andThen (moves_execAll hlimit fuel rest)

end

end Stmt

end Statements

/-! ## Runs -/

theorem Landing.find_map (f : σ → τ) (l : Landing σ) (label : String) (span : σ) :
    (l.map f).find label (f span) =
      ((l.find label span).map (Stmt.mapAll f)).mapError (.map f) := by
  unfold find
  rw [Landing.map, Program.lookup_map]
  cases l.targets.lookup label <;> rfl

/-- **Runs.** A run of statements with other annotations is the run of the statements moved. -/
theorem runChain_moves {f : σ → τ} {n : Nat} {config : Config} (hlimit : config.stepLimit = none)
    (fuel : Nat) (landing : Landing σ) (jumps : Nat) (ss : List (Stmt σ)) :
    Action.Moves f n id (runChain config fuel landing jumps ss)
      (runChain config fuel (landing.map f) jumps (Stmt.mapAll f ss)) := by
  induction jumps generalizing ss with
  | zero => exact moves_unfinished
  | succ jumps ih =>
    rw [runChain_eq, runChain_eq]
    refine (Stmt.moves_execAll hlimit fuel ss).bind fun flow => ?_
    cases flow with
    | proceed | halt => exact Action.moves_pure ()
    | jump label span =>
      exact (Action.moves_consult fun _ => landing.find_map f label span).bind fun target =>
        ih target

end CalcBasic
