import CalcBasic.Proofs.Sequencing
import CalcBasic.Proofs.UnreadInput

/-!
# Runs that are done again

A session mirrors another one if it has the same variables but no input of its own. It does again
what the other one does, if it is given the lines that the other one reads and no others.

1. A run on lines can be done again on the lines that it reads (`Session.Mirrors.play`).
2. Evaluating an expression alone leaves a session as it is, and displaying it writes its value
   (`Program.run_evaluate`, `Program.run_display`).
-/

namespace CalcBasic

/-! ## Programs of one command -/

namespace Program

variable {σ : Type}

/-- The first statement of a run is counted. -/
theorem count_first (config : Config) (span : σ) (st : State) :
    Action.count config span { st with steps := 0 } =
      (if config.stepLimit = some 0 then .fault ⟨.stepLimit 0, span⟩ else .done (),
        { st with steps := 1 }) := by
  unfold Action.count
  rcases config.stepLimit with _ | _ | limit
  · rfl
  · rfl
  · simp

/-- A run of a single command. -/
theorem run_command {config : Config} (hlimit : config.stepLimit ≠ some 0) (fuel : Nat) (span : σ)
    (c : Command σ) (st : State) :
    (⟨[.command span c]⟩ : Program σ).run config fuel st =
      (c.exec config span >>= Landing.goOn (landing ⟨[.command span c]⟩)
        (runChain config fuel (landing ⟨[.command span c]⟩) fuel)) { st with steps := 1 } := by
  rw [run_eq, runChain_eq, Stmt.execAll_eq, Stmt.execAll_nil, Stmt.exec]
  simp only [Action.bind_apply, Action.andThen_apply, count_first, if_neg hlimit]
  rcases c.exec config span { st with steps := 1 } with ⟨((_ | _ | _) | _ | _), st'⟩ <;> rfl

/-- A run that is not allowed a single statement. -/
theorem run_command_of_limit {config : Config} (hlimit : config.stepLimit = some 0) (fuel : Nat)
    (span : σ) (c : Command σ) (st : State) :
    (⟨[.command span c]⟩ : Program σ).run config fuel st =
      (.fault ⟨.stepLimit 0, span⟩, { st with steps := 1 }) := by
  rw [run_eq, runChain_eq, Stmt.execAll_eq, Stmt.exec]
  simp only [Action.bind_apply, Action.andThen_apply, count_first, if_pos hlimit]
  rfl

/-- Evaluating an expression changes nothing. -/
theorem run_evaluate (config : Config) (fuel : Nat) (span : σ) (e : Expr σ) (st : State) :
    ((⟨[.command span (.evaluate e)]⟩ : Program σ).run config fuel st).2 =
      { st with steps := 1 } := by
  by_cases hlimit : config.stepLimit = some 0
  · rw [run_command_of_limit hlimit]
  · rw [run_command hlimit]
    simp only [Command.exec, Action.bind_apply, Action.consult]
    cases e.eval st.store <;> rfl

/-- Displaying an expression writes its value, if it has one. -/
theorem run_display {config : Config} (hlimit : config.stepLimit ≠ some 0) (fuel : Nat) (span : σ)
    (e : Expr σ) (st : State) (hwrites : st.console.writes = none) :
    (⟨[.command span (.display [e])]⟩ : Program σ).run config fuel st =
      match e.eval st.store with
      | .ok v =>
        (.done (), { st.heard [.shown v.text] st.console.input with steps := 1 })
      | .error located => (.fault located, { st with steps := 1 }) := by
  rw [run_command hlimit]
  simp only [Command.exec, displayAll, Action.bind_apply, Action.consult]
  cases e.eval st.store with
  | error located => rfl
  | ok v =>
    simp only [Action.write, Console.write, hwrites]
    simp only [State.heard, ← Array.push_eq_append, hwrites]
    rfl

end Program

/-! ## Sessions with the lines that they need -/

namespace Session

/-- Runs a program that is given some lines to read: what happens, and the session after it. -/
def play (s : Session) (p : Program Span) (answers : List String) : List Event × Session :=
  ((s.feed (answers.map .line)).run p).2.takeEvents

/-- A session that does the same as another one if it is given the same lines: it has the same
variables, and it differs only in having no input yet and in its count of statements, which every
run begins anew. -/
structure Mirrors (t s : Session) : Prop where
  config : t.config = s.config
  fuel : t.fuel = s.fuel
  store : t.state.store = s.state.store
  console : t.state.console = { s.state.console with input := [] }
  /-- What happened before was taken off the console. -/
  events : s.state.console.events = #[]

/-- What happened up to a state, and the session that goes on from there. -/
def after (s : Session) (st : State) : List Event × Session :=
  (st.console.events.toList,
    { s with state := { st with console := { st.console with events := #[] } } })

theorem takeEvents_run (s : Session) (p : Program Span) :
    (s.run p).2.takeEvents = s.after (p.run s.config s.fuel s.state).2 := rfl

theorem play_eq (s : Session) (p : Program Span) (answers : List String) :
    s.play p answers =
      s.after (p.run s.config s.fuel (s.feed (answers.map .line)).state).2 := rfl

/-- A run does not depend on the statements that were counted before. -/
theorem run_counted (config : Config) (fuel : Nat) (p : Program Span) (st : State) (n : Nat) :
    p.run config fuel { st with steps := n } = p.run config fuel st := by
  rw [Program.run_eq, Program.run_eq]

namespace Mirrors

variable {s t : Session} {q : List String}

/-- What a session does with the lines that are given to it. -/
theorem run_feed (h : t.Mirrors s) (p : Program Span) (answers : List String) :
    p.run t.config t.fuel (t.feed (answers.map .line)).state =
      p.run s.config s.fuel (s.state.withInput (answers.map .line)) := by
  have hstate : (t.feed (answers.map .line)).state =
      { s.state.withInput (answers.map .line) with steps := t.state.steps } := by
    simp [feed, State.withInput, h.store, h.console]
  rw [hstate, run_counted, h.config, h.fuel]

/-- **Runs.** On lines, the run of a program reads some lines from the front. A session that mirrors
this one runs the program on just these lines with the same effect. -/
theorem play (h : t.Mirrors s) (hq : s.state.console.input = q.map .line) (p : Program Span) :
    ∃ answers left, answers ++ left = q ∧ (t.play p answers).1.filterMap Event.line? = answers ∧
      (s.run p).2.takeEvents.2.state.console.input = left.map .line ∧
      (t.play p answers).2.Mirrors (s.run p).2.takeEvents.2 := by
  obtain ⟨es, left, hes, hleft, hlines, hagain⟩ := p.run_on_answers s.config s.fuel s.state hq
  rw [h.events, List.nil_append] at hes
  refine ⟨es.filterMap Event.line?, left, hlines, ?_, hleft, ?_⟩ <;>
    rw [play_eq, h.run_feed, hagain]
  · exact congrArg (List.filterMap Event.line?) hes
  · rw [takeEvents_run]
    exact ⟨h.config, h.fuel, rfl, rfl, rfl⟩

/-- **Expressions that stand alone.** Running one makes no difference. -/
theorem play_evaluate (h : t.Mirrors s) (span : Span) (e : Expr Span) :
    (t.play ⟨[.command span (.evaluate e)]⟩ []).1 = [] ∧
      (t.play ⟨[.command span (.evaluate e)]⟩ []).2.Mirrors s := by
  have hfeed : (t.feed ([].map Input.line)).state = t.state := by simp [feed]
  have hevents : t.state.console.events = #[] := by rw [h.console, h.events]
  rw [play_eq, hfeed, Program.run_evaluate]
  refine ⟨by simp [after, hevents], h.config, h.fuel, h.store, ?_, h.events⟩
  rw [after, h.console]
  dsimp only
  rw [h.events]

/-- Both sessions with their first variables again. -/
theorem reset (h : t.Mirrors s) : t.reset.Mirrors s.reset :=
  ⟨h.config, h.fuel, rfl, h.console, h.events⟩

/-- The session that is mirrored may have other input. -/
theorem withInput (h : t.Mirrors s) (input : List Input) :
    t.Mirrors { s with state := s.state.withInput input } :=
  ⟨h.config, h.fuel, h.store, h.console, h.events⟩

end Mirrors

end Session

end CalcBasic
