import CalcBasic.Proofs.InputQueue
import CalcBasic.Proofs.StepBudget

/-!
# Runs under two step limits

A lower limit cuts a run off and changes nothing before that.

1. No step takes an event back (`recorded_step`), and none takes back what is counted
   (`steps_le_step`).
2. Only the count of statements looks at the limit. So two machines with different limits take the
   same step if neither limit forbids the statement at hand (`step_congr`), and they are in the same
   state as long as the lower limit is kept (`iterate_congr`).
3. A machine that has counted more statements than a number allows stood before the first of them at
   some time (`exists_crossing`).
-/

namespace CalcBasic

variable {σ α : Type}

namespace Flat

variable {config : Config} {p : Program σ} {pos : Position} {stack : List (Frame σ)} {st : State}

/-! ## Events -/

/-- The events of the one console begin those of the other. -/
def Recorded (c c' : Console) : Prop := c.events.toList <+: c'.events.toList

theorem Recorded.refl (c : Console) : Recorded c c := List.prefix_refl _

theorem Recorded.trans {c c' c'' : Console} (h : Recorded c c') (h' : Recorded c' c'') :
    Recorded c c'' := List.IsPrefix.trans h h'

theorem recorded_of_reads {x : Action σ α} {Q : α → Prop} (hx : x.Reads Q) (st : State) :
    Recorded st.console (x st).2.console := by
  obtain ⟨es, htook, -⟩ := hx st
  exact ⟨es, htook.events.symm⟩

theorem traced_recorded (config : Config) :
    Traced σ config fun st st' => Recorded st.console st'.console where
  refl st := .refl st.console
  store _ h := h
  exec _ c st :=
    recorded_of_reads (Action.Logic.command_holds (Action.reading_rules config) trivial c
      fun _ _ => trivial) st
  enter _ _ st :=
    recorded_of_reads (Action.Logic.enter_holds (Action.reading_rules config) trivial
      fun _ _ => trivial) st

theorem recorded_unwind (stack : List (Frame σ)) :
    Recorded st.console (unwind p st stack).state.console := by
  obtain ⟨store, h⟩ := state_unwind p st stack
  rw [h]
  exact .refl _

/-- A step takes no event back. -/
theorem recorded_step (a : Flat σ) : Recorded a.state.console (step config p a).state.console := by
  rcases a with ⟨_ | pos, stack, st⟩ | ⟨result, st⟩
  · exact recorded_unwind stack
  · rw [step]
    cases p.statement? pos with
    | none => exact recorded_unwind stack
    | some s =>
      have hcount := recorded_of_reads (Action.reads_count config s.span) st
      have hfin := Action.finishes_count config s.span st
      dsimp only
      rcases hr : Action.count config s.span st with ⟨(_ | e | _), st'⟩ <;> rw [hr] at hcount hfin
      · exact hcount.trans ((traced_recorded config).perform _ s)
      · exact hcount
      · exact absurd rfl hfin
  · exact .refl _

variable (config p) in
theorem recorded_iterate (a : Flat σ) {k n : Nat} (h : k ≤ n) :
    Recorded ((step config p)^[k] a).state.console ((step config p)^[n] a).state.console := by
  induction n, h using Nat.le_induction with
  | base => exact .refl _
  | succ n _ ih =>
    rw [Function.iterate_succ_apply' _ n]
    exact ih.trans (recorded_step _)

/-! ## Two limits -/

/-- The settings allow this many statements. -/
def Allows (config : Config) (n : Nat) : Prop := ∀ limit ∈ config.stepLimit, n ≤ limit

theorem count_of_allows {span : σ} (h : Allows config (st.steps + 1)) :
    Action.count config span st = (.done (), { st with steps := st.steps + 1 }) := by
  obtain ⟨-, hcount⟩ | ⟨limit, hlimit, hle, -⟩ := Action.count_cases config span st
  · exact hcount
  · exact absurd (h limit hlimit) (Nat.not_le.mpr (Nat.lt_succ_of_le hle))

theorem exec_congr {config' : Config} (h : config.prompt = config'.prompt) (span : σ)
    (c : Command σ) : c.exec config span = c.exec config' span := by
  cases c with
  | input text name => rw [Command.exec, Command.exec, h]
  | _ => rfl

theorem perform_congr {config' : Config} (h : config.prompt = config'.prompt) (here : Flat σ)
    (s : Stmt σ) :
    perform config p pos stack st here s = perform config' p pos stack st here s := by
  cases s with
  | command span c => rw [perform, perform, exec_congr h]
  | _ => rfl

variable (config p) in
theorem steps_le_step (a : Flat σ) : a.steps ≤ (step config p a).steps := by
  rw [steps_step]
  exact Nat.le_add_right _ _

/-- Two limits that allow what a step counts make it the same step. -/
theorem step_congr {config' : Config} (hprompt : config.prompt = config'.prompt) {a : Flat σ}
    (h : Allows config (step config p a).steps) (h' : Allows config' (step config p a).steps) :
    step config' p a = step config p a := by
  rcases a with ⟨_ | pos, stack, st⟩ | ⟨result, st⟩
  · rfl
  · cases hs : p.statement? pos with
    | none => rw [step, step, hs]
    | some s =>
      rw [steps_step_statement hs] at h h'
      rw [step, step, hs]
      dsimp only
      rw [count_of_allows h, count_of_allows h', follow, follow, perform_congr hprompt]
  · rfl

theorem Allows.mono {n m : Nat} (h : Allows config m) (hnm : n ≤ m) : Allows config n :=
  fun limit hl => Nat.le_trans hnm (h limit hl)

/-- **The same run.** As long as two limits allow what the one machine has counted, the other is in
the same state. -/
theorem iterate_congr {config' : Config} (hprompt : config.prompt = config'.prompt) (a : Flat σ)
    (k : Nat) (h : Allows config ((step config p)^[k] a).steps)
    (h' : Allows config' ((step config p)^[k] a).steps) :
    (step config' p)^[k] a = (step config p)^[k] a := by
  induction k with
  | zero => rw [Function.iterate_zero_apply, Function.iterate_zero_apply]
  | succ k ih =>
    have hnext (config : Config) :
        (step config p)^[k + 1] a = step config p ((step config p)^[k] a) :=
      Function.iterate_succ_apply' _ _ _
    rw [hnext config] at h h'
    have hle := steps_le_step config p ((step config p)^[k] a)
    rw [hnext config, hnext config', ih (h.mono hle) (h'.mono hle)]
    exact step_congr hprompt h h'

/-- A lower limit that is kept changes nothing. -/
theorem iterate_lower {prompt : String} {n k : Nat} {m : Option Nat} {a : Flat σ}
    (hnm : ∀ limit ∈ m, n ≤ limit) (h : ((step ⟨m, prompt⟩ p)^[k] a).steps ≤ n) :
    (step ⟨some n, prompt⟩ p)^[k] a = (step ⟨m, prompt⟩ p)^[k] a := by
  have hm : Allows ⟨m, prompt⟩ n := hnm
  have hn : Allows ⟨some n, prompt⟩ n := by
    rintro _ ⟨⟩
    exact Nat.le_refl n
  refine iterate_congr ?_ a k (hm.mono h) (hn.mono h)
  rfl

/-- A machine that has counted more than `n` statements once stood before the statement that it
counted next after `n`. -/
theorem exists_crossing {n : Nat} {a : Flat σ} (ha : a.steps ≤ n) (k : Nat)
    (hk : n < ((step config p)^[k] a).steps) :
    ∃ j < k, ∃ pos stack st s, (step config p)^[j] a = running (some pos) stack st ∧
      p.statement? pos = some s ∧ st.steps = n := by
  induction k with
  | zero => exact absurd hk (Nat.not_lt.mpr ha)
  | succ k ih =>
    rcases Nat.lt_or_ge n ((step config p)^[k] a).steps with hlt | hge
    · obtain ⟨j, hj, h⟩ := ih hlt
      exact ⟨j, Nat.lt_succ_of_lt hj, h⟩
    · -- the step that crosses the bound counts a statement
      rw [Function.iterate_succ_apply', steps_step] at hk
      cases hs : ((step config p)^[k] a).statement? p with
      | none =>
        rw [hs] at hk
        exact absurd hk (Nat.not_lt.mpr hge)
      | some s =>
        obtain ⟨pos, stack, st, hrunning, hpos⟩ := exists_of_statement? hs
        rw [hs, hrunning] at hk
        rw [hrunning] at hge
        exact ⟨k, Nat.lt_succ_self k, pos, stack, st, s, hrunning, hpos,
          Nat.le_antisymm hge (Nat.le_of_lt_succ hk)⟩

/-- A statement beyond the limit is not executed. -/
theorem step_beyond {prompt : String} {s : Stmt σ} (h : p.statement? pos = some s) :
    step ⟨some st.steps, prompt⟩ p (running (some pos) stack st) =
      ended (.error ⟨.stepLimit st.steps, s.span⟩) { st with steps := st.steps + 1 } := by
  rw [step, h]
  simp only [Action.count, Nat.lt_succ_self, if_true, follow]

end Flat

/-- The number of statements that a run under a limit has executed. The statement at which it meets
the limit is counted but not executed. -/
def State.executed (st : State) (limit? : Option Nat) : Nat := limit?.elim st.steps (min st.steps)

theorem State.lt_executed {st : State} {limit? : Option Nat} {n : Nat} :
    n < st.executed limit? ↔ n < st.steps ∧ ∀ limit ∈ limit?, n < limit := by
  cases limit? with
  | none => exact ⟨fun h => ⟨h, nofun⟩, And.left⟩
  | some limit =>
    have hmem : (∀ l ∈ some limit, n < l) ↔ n < limit :=
      ⟨fun h => h limit rfl, by rintro h _ ⟨⟩; exact h⟩
    rw [hmem]
    exact Nat.lt_min

/-- **Truncation.** If a run finishes, then so does the run under a lower limit. It has the same
result and the same state, if it executes all statements that the other does. If not, it ends with
the fault of the limit at the first statement that it does not execute, in the state in which the
other run executes this statement, so its events begin those of the other run. -/
theorem Program.limit_truncates (p : Program σ) (prompt : String) {n : Nat} {m : Option Nat}
    (hnm : ∀ limit ∈ m, n ≤ limit) {fuel : Nat} {start? : Option Position} {st st' : State}
    {result : Except (Located σ) Unit}
    (hrun : p.runFrom ⟨m, prompt⟩ fuel start? st = (.ofResult result, st')) :
    ∃ fuel',
      (st'.executed m ≤ n →
        p.runFrom ⟨some n, prompt⟩ fuel' start? st = (.ofResult result, st')) ∧
      (n < st'.executed m → ∃ k total pos stack before s,
        k < total ∧
        (Flat.step ⟨m, prompt⟩ p)^[total] (Flat.start start? st) = .ended result st' ∧
        (Flat.step ⟨m, prompt⟩ p)^[k] (Flat.start start? st) = .running (some pos) stack before ∧
        p.statement? pos = some s ∧ before.steps = n ∧ (∀ limit ∈ m, n < limit) ∧
        p.runFrom ⟨some n, prompt⟩ fuel' start? st =
          (.fault ⟨.stepLimit n, s.span⟩, { before with steps := n + 1 }) ∧
        before.console.events.toList <+: st'.console.events.toList) := by
  obtain ⟨total, htotal⟩ := Flat.ended_of_runFrom hrun
  rcases Nat.lt_or_ge n (st'.executed m) with hlt | hge
  · obtain ⟨hcount, hm⟩ := State.lt_executed.mp hlt
    have hcounted : n < ((Flat.step ⟨m, prompt⟩ p)^[total] (Flat.start start? st)).steps := by
      rwa [htotal]
    obtain ⟨k, hk, pos, stack, before, s, hbefore, hs, hsteps⟩ :=
      Flat.exists_crossing (Nat.zero_le n) total hcounted
    have hsame : (Flat.step ⟨some n, prompt⟩ p)^[k] (Flat.start start? st) =
        .running (some pos) stack before := by
      rw [← hbefore]
      refine Flat.iterate_lower hnm ?_
      rw [hbefore]
      exact Nat.le_of_eq hsteps
    have hcut : (Flat.step ⟨some n, prompt⟩ p)^[k + 1] (Flat.start start? st) =
        .ended (.error ⟨.stepLimit n, s.span⟩) { before with steps := n + 1 } := by
      rw [Function.iterate_succ_apply', hsame, ← hsteps]
      exact Flat.step_beyond hs
    have hrec := Flat.recorded_iterate ⟨m, prompt⟩ p (Flat.start start? st) (Nat.le_of_lt hk)
    rw [hbefore, htotal] at hrec
    exact ⟨k + 1 + 1, fun h => absurd h (Nat.not_le.mpr hlt), fun _ =>
      ⟨k, total, pos, stack, before, s, hk, htotal, hbefore, hs, hsteps, hm,
        Flat.runFrom_of_ended hcut, hrec⟩⟩
  · refine ⟨total + 1, fun _ => Flat.runFrom_of_ended ?_, fun h => absurd hge (Nat.not_le.mpr h)⟩
    by_cases hm : m = some n
    · exact hm ▸ htotal
    · -- A limit above `n` does not stop a run that executes at most `n` statements.
      have habove : ∀ limit ∈ m, n < limit := fun limit hl =>
        Nat.lt_of_le_of_ne (hnm limit hl) fun h => hm (h ▸ hl)
      have hsteps : st'.steps ≤ n := Nat.not_lt.mp fun h =>
        absurd (State.lt_executed.mpr ⟨h, habove⟩) (Nat.not_lt.mpr hge)
      rw [← htotal]
      refine Flat.iterate_lower hnm ?_
      rwa [htotal]

/-- Whether a program comes to its end on a fresh machine after this many statements, none of them
in more than so many rounds. -/
def Program.endsAfter (steps rounds : Nat) (p : Program Span) : Bool :=
  match p.run ⟨none, "?"⟩ rounds ⟨.fresh, { input := [] }, 0⟩ with
  | (.done (), st) => st.steps == steps
  | _ => false

theorem Program.exists_of_endsAfter {steps rounds : Nat} {p : Program Span}
    (h : p.endsAfter steps rounds = true) :
    ∃ st, p.run ⟨none, "?"⟩ rounds ⟨.fresh, { input := [] }, 0⟩ = (.ofResult (.ok ()), st) ∧
      st.executed none = steps := by
  unfold endsAfter at h
  split at h
  · next st hrun => exact ⟨st, hrun, beq_iff_eq.mp h⟩
  · cases h

/-- A program that executes three statements is cut off before the third by a limit of two. -/
theorem limit_truncates_loop : ∃ p, Program.parse "While 1\nDisp 2\nStop\nEnd" = .ok p ∧
    ∃ st', p.run ⟨none, "?"⟩ 3 ⟨.fresh, { input := [] }, 0⟩ = (.ofResult (.ok ()), st') ∧
      st'.executed none = 3 ∧
      ∃ fuel span, ∃ before : State, before.steps = 2 ∧
        p.run ⟨some 2, "?"⟩ fuel ⟨.fresh, { input := [] }, 0⟩ =
          (.fault ⟨.stepLimit 2, span⟩, { before with steps := 3 }) ∧
        before.console.events.toList <+: st'.console.events.toList := by
  have hends : (Program.parse "While 1\nDisp 2\nStop\nEnd").toOption.any (Program.endsAfter 3 3) =
      true := by
    decide +kernel
  cases hp : Program.parse "While 1\nDisp 2\nStop\nEnd" with
  | error e =>
    rw [hp] at hends
    cases hends
  | ok p =>
    rw [hp] at hends
    obtain ⟨st', hrun, hexecuted⟩ := Program.exists_of_endsAfter hends
    have hnone : ∀ limit ∈ (none : Option Nat), 2 ≤ limit := nofun
    obtain ⟨fuel, -, hcut⟩ := p.limit_truncates "?" hnone hrun
    obtain ⟨_, _, _, _, before, s, -, -, -, -, hsteps, -, hfault, hevents⟩ :=
      hcut (by rw [hexecuted]; decide)
    exact ⟨p, rfl, st', hrun, hexecuted, fuel, s.span, before, hsteps, hfault, hevents⟩

end CalcBasic
