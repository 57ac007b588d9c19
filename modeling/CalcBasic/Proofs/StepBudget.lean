import CalcBasic.Proofs.FlatSimulation
import CalcBasic.Proofs.Variables

/-!
# The step limit

The limit counts statements. A loop with an empty body executes none, so it can go round for ever
under any limit (`Flat.Spins`); nothing else can (`Flat.ends_or_spins`).

1. What a statement does before its blocks keeps to whatever its actions keep to (`Traced.perform`).
   So only the count of statements counts, and every step keeps the count within the limit, or ends
   the run with the fault of the limit (`WithinBudget.step`).
2. A machine that stands at a statement counts it with its next step (`steps_step`). One that stands
   at the end of a chain takes frames off its stack until it ends, comes to a statement or spins; this
   is an induction on the stack (`exists_progress`), with one on the rounds of an empty counting loop
   inside it (`exists_left_for`).
3. So as long as it does not spin the machine ends or counts on, and it can count on only as often
   as the limit allows (`ends_or_spins`). A machine that spins does so for ever (`Spins.step`).
-/

namespace CalcBasic

variable {σ α : Type}

/-! ## The rounds of a counting loop -/

/-- The counter after so many rounds. -/
def Stride.after (r : Stride) (rounds : Nat) (counter : Float) : Float :=
  (· + r.step)^[rounds] counter

/-- Every variable but a built-in list can be given a number. -/
theorem Store.exists_assign_number {name : String} (h : Region.of name ≠ .list) (s : Store)
    (x : Float) : ∃ t, s.assign name (.number x) = .ok t := by
  cases ha : s.assign name (.number x) with
  | ok t => exact ⟨t, rfl⟩
  | error fault =>
    obtain ⟨kind, hkind, hne, -⟩ := (Slots.assign_eq_error s.regular).mp (assign_eq_error.mp ha)
    cases hr : Region.of name <;> rw [hr] at hkind <;> cases hkind
    · exact absurd rfl hne
    · exact absurd hr h

theorem Store.region_of_assign_number {name : String} {s t : Store} {x : Float}
    (h : s.assign name (.number x) = .ok t) : Region.of name ≠ .list := by
  intro hr
  have herror : s.toSlots.assign name (.number x) = .error _ :=
    (Slots.assign_eq_error s.regular).mpr ⟨.list, by rw [hr]; rfl, nofun, rfl⟩
  rw [assign_eq_ok.mp h] at herror
  cases herror

namespace Flat

variable {config : Config} {p : Program σ} {pos : Position} {stack : List (Frame σ)} {st : State}

/-! ## What a step does to the state -/

/-- What the run has changed so far. -/
def state : Flat σ → State
  | running _ _ st | ended _ st => st

theorem state_jump (label : String) (span : σ) : (jump p label span st).state = st := by
  unfold jump
  cases p.resolve? label <;> rfl

theorem state_flow (f : Flow σ) : (flow p pos stack f st).state = st := by
  cases f with
  | proceed => rfl
  | jump label span => exact state_jump label span
  | halt => rfl

theorem state_testWhile (condition : Expr σ) :
    (testWhile p pos condition stack st).state = st := by
  unfold testWhile
  cases condition.evalNumber st.store .whileCondition with
  | error e => rfl
  | ok x => dsimp only; split <;> rfl

theorem state_testFor (name : Name σ) (range : Stride) (counter : Float) :
    ∃ store, (testFor p pos name range counter stack st).state = { st with store } := by
  unfold testFor
  split
  · cases st.store.assign name.text (.number counter) with
    | error fault => exact ⟨st.store, rfl⟩
    | ok store => exact ⟨store, rfl⟩
  · exact ⟨st.store, rfl⟩

variable (p st) in
/-- The end of a chain changes the variables at most. -/
theorem state_unwind (stack : List (Frame σ)) :
    ∃ store, (unwind p st stack).state = { st with store } := by
  rcases stack with _ | ⟨(_ | ⟨pos, condition⟩ | ⟨pos, name, range, counter⟩), stack⟩
  · exact ⟨st.store, rfl⟩
  · exact ⟨st.store, rfl⟩
  · exact ⟨st.store, state_testWhile condition⟩
  · exact state_testFor name range _

/-- A relation between a state and a later one that commands and the entry into a counting loop keep
to, and that does not look at the variables of the later one. -/
structure Traced (σ : Type) (config : Config) (R : State → State → Prop) : Prop where
  refl (st : State) : R st st
  store {st st' : State} (store : Store) : R st st' → R st { st' with store }
  exec (span : σ) (c : Command σ) (st : State) : R st (c.exec config span st).2
  enter (span : σ) (r : Range σ) (st : State) : R st (r.enter span st).2

section Traced

variable {R : State → State → Prop} (hR : Traced σ config R)

include hR

theorem Traced.follow {x : Action σ α} (hfin : x.Finishes) (hx : R st (x st).2) {here : Flat σ}
    {next : α → State → Flat σ}
    (hnext : ∀ v st', ∃ store, (next v st').state = { st' with store }) :
    R st (follow here next (x st)).state := by
  have hfin := hfin st
  rcases hr : x st with ⟨(v | e | _), st'⟩ <;> rw [hr] at hx hfin
  · obtain ⟨store, h⟩ := hnext v st'
    rw [Flat.follow, h]
    exact hR.store store hx
  · exact hx
  · exact absurd rfl hfin

theorem Traced.consult (f : Store → Except (Located σ) α) : R st (Action.consult f st).2 := by
  have hst : (Action.consult f st).2 = st := by
    unfold Action.consult
    cases f st.store <;> rfl
  rw [hst]
  exact hR.refl st

theorem Traced.perform (here : Flat σ) (s : Stmt σ) :
    R st (perform config p pos stack st here s).state := by
  cases s with
  | command span c =>
    exact hR.follow (plain_exec config span c).finishes (hR.exec span c st) fun f st' =>
      ⟨st'.store, state_flow f⟩
  | ifThen span condition body =>
    refine hR.follow (Action.plain_consult _).finishes (hR.consult _) fun x st' => ⟨st'.store, ?_⟩
    split <;> rfl
  | ifElse span condition body otherwise =>
    refine hR.follow (Action.plain_consult _).finishes (hR.consult _) fun x st' => ⟨st'.store, ?_⟩
    split <;> rfl
  | whileLoop span condition body =>
    rw [Flat.perform, state_testWhile]
    exact hR.refl st
  | forLoop span range body =>
    exact hR.follow (plain_enter span range).finishes (hR.enter span range st) fun entry st' =>
      state_testFor range.counter entry.1 entry.2

end Traced

/-! ## The number of statements counted -/

/-- The number of statements counted so far. -/
def steps : Flat σ → Nat
  | running _ _ st | ended _ st => st.steps

theorem steps_eq (a : Flat σ) : a.steps = a.state.steps := by
  cases a <;> rfl

theorem steps_unwind (stack : List (Frame σ)) : (unwind p st stack).steps = st.steps := by
  obtain ⟨store, h⟩ := state_unwind p st stack
  rw [steps_eq, h]

theorem traced_steps (config : Config) :
    Traced σ config fun st st' => st'.steps = st.steps where
  refl _ := rfl
  store _ h := h
  exec span c := (plain_exec config span c).steps
  enter span r := (plain_enter span r).steps

theorem steps_perform (here : Flat σ) (s : Stmt σ) :
    (perform config p pos stack st here s).steps = st.steps := by
  rw [steps_eq]
  exact (traced_steps config).perform here s

/-- A statement is counted by the step that executes it. -/
theorem steps_step_statement {s : Stmt σ} (h : p.statement? pos = some s) :
    (step config p (running (some pos) stack st)).steps = st.steps + 1 := by
  have hfin := Action.finishes_count config s.span st
  have hst := Action.steps_count config s.span st
  rw [step, h]
  dsimp only
  rcases hr : Action.count config s.span st with ⟨(_ | e | _), st'⟩ <;> rw [hr] at hst
  · exact (steps_perform _ s).trans hst
  · exact hst
  · exact absurd (congrArg Prod.fst hr) hfin

/-- The statement at which the machine stands. -/
def statement? (p : Program σ) : Flat σ → Option (Stmt σ)
  | running (some pos) _ _ => p.statement? pos
  | running none _ _ | ended _ _ => none

theorem exists_of_statement? {a : Flat σ} {s : Stmt σ} (h : a.statement? p = some s) :
    ∃ pos stack st, a = running (some pos) stack st ∧ p.statement? pos = some s := by
  rcases a with ⟨_ | pos, stack, st⟩ | ⟨result, st⟩
  · cases h
  · exact ⟨pos, stack, st, rfl, h⟩
  · cases h

variable (config p) in
/-- A step counts the statement at which the machine stands, and nothing else. -/
theorem steps_step (a : Flat σ) :
    (step config p a).steps = a.steps + if (a.statement? p).isSome then 1 else 0 := by
  rcases a with ⟨_ | pos, stack, st⟩ | ⟨result, st⟩
  · exact steps_unwind stack
  · cases hs : p.statement? pos with
    | none =>
      rw [statement?, hs, step, hs]
      exact steps_unwind stack
    | some s =>
      rw [statement?, hs, steps_step_statement hs]
      rfl
  · rfl

/-! ## The budget -/

/-- The statements counted are within the limit, or the run has ended with the fault of the limit
at the first statement beyond it. -/
def WithinBudget (limit : Nat) : Flat σ → Prop
  | running _ _ st => st.steps ≤ limit
  | ended result st => st.steps ≤ limit ∨
      st.steps = limit + 1 ∧ ∃ span, result = .error ⟨.stepLimit limit, span⟩

theorem withinBudget_of_steps {limit : Nat} {a : Flat σ} (h : a.steps ≤ limit) :
    WithinBudget limit a := by
  cases a with
  | running => exact h
  | ended => exact .inl h

/-- **Invariant of the budget.** -/
theorem WithinBudget.step {limit : Nat} {prompt : String} {a : Flat σ} (h : WithinBudget limit a) :
    WithinBudget limit (step ⟨some limit, prompt⟩ p a) := by
  rcases a with ⟨_ | pos, stack, st⟩ | ⟨result, st⟩
  · exact withinBudget_of_steps (by rw [Flat.step, steps_unwind]; exact h)
  · cases hs : p.statement? pos with
    | none =>
      rw [Flat.step, hs]
      exact withinBudget_of_steps (by rw [steps_unwind]; exact h)
    | some s =>
      rcases Nat.lt_or_ge limit (st.steps + 1) with hlt | hge
      · have hle : st.steps ≤ limit := h
        rw [Flat.step, hs]
        simp only [Action.count, hlt, if_true, follow]
        exact .inr ⟨by show st.steps + 1 = limit + 1; omega, s.span, rfl⟩
      · exact withinBudget_of_steps (by rw [steps_step_statement hs]; exact hge)
  · exact h

theorem WithinBudget.iterate {limit : Nat} {a : Flat σ} (h : WithinBudget limit a)
    (prompt : String) (p : Program σ) (n : Nat) :
    WithinBudget limit ((Flat.step ⟨some limit, prompt⟩ p)^[n] a) := by
  induction n generalizing a with
  | zero => exact h
  | succ n ih => exact ih h.step

/-! ## Spinning -/

/-- The machine goes round in a loop with an empty body for ever: a `While` loop whose condition is
true, or a counting loop whose counter never leaves the range. -/
def Spins (p : Program σ) : Flat σ → Prop
  | running pos? (.whileLoop pos condition :: _) st =>
    p.rest pos? = [] ∧ p.chain (p.inner pos) = [] ∧
      ∃ x, condition.evalNumber st.store .whileCondition = .ok x ∧ isTrue x
  | running pos? (.forLoop pos name range counter :: _) _ =>
    p.rest pos? = [] ∧ p.chain (p.inner pos) = [] ∧ Region.of name.text ≠ .list ∧
      ∀ rounds, range.holds (range.after (rounds + 1) counter)
  | _ => False

theorem Spins.isRunning {a : Flat σ} (h : a.Spins p) : a.IsRunning := by
  cases a with
  | running => trivial
  | ended => exact h

theorem rest_enter_empty (h : p.chain (p.inner pos) = []) :
    p.rest (p.first? (p.inner pos)) = [] := by
  rw [Program.rest_first?, h]

theorem testWhile_of_true {condition : Expr σ} {x : Float}
    (hx : condition.evalNumber st.store .whileCondition = .ok x) (ht : isTrue x) :
    testWhile p pos condition stack st =
      enter p (p.inner pos) (.whileLoop pos condition) stack st := by
  rw [testWhile, hx]
  dsimp only
  rw [if_pos ht]

variable (p pos stack st) in
theorem testFor_of_holds {name : Name σ} {range : Stride} {counter : Float}
    (hname : Region.of name.text ≠ .list) (hc : range.holds counter) :
    ∃ store, testFor p pos name range counter stack st =
      enter p (p.inner pos) (.forLoop pos name range counter) stack { st with store } := by
  obtain ⟨store, hs⟩ := Store.exists_assign_number hname st.store counter
  exact ⟨store, by rw [testFor, if_pos hc, hs]⟩

/-- A machine that spins goes on to spin. -/
theorem Spins.step {a : Flat σ} (h : a.Spins p) : (step config p a).Spins p := by
  rcases a with ⟨pos?, _ | ⟨(_ | ⟨pos, condition⟩ | ⟨pos, name, range, counter⟩), stack⟩, st⟩ | _
  · exact h.elim
  · exact h.elim
  · obtain ⟨hend, hempty, x, hx, ht⟩ := h
    rw [step_atEnd ⟨pos?, hend, rfl⟩, unwind, testWhile_of_true hx ht]
    exact ⟨rest_enter_empty hempty, hempty, x, hx, ht⟩
  · obtain ⟨hend, hempty, hname, hc⟩ := h
    obtain ⟨store, e⟩ := testFor_of_holds p pos stack st hname (hc 0)
    rw [step_atEnd ⟨pos?, hend, rfl⟩, unwind]
    rw [show testFor p pos name range (counter + range.step) stack st = _ from e]
    exact ⟨rest_enter_empty hempty, hempty, hname, fun rounds => hc (rounds + 1)⟩
  · exact h.elim

theorem Spins.iterate {a : Flat σ} (h : a.Spins p) (config : Config) (n : Nat) :
    ((Flat.step config p)^[n] a).Spins p := by
  induction n generalizing a with
  | zero => exact h
  | succ n ih => exact ih h.step

/-! ## Progress -/

/-- Sooner or later the machine ends, spins or has counted a statement. -/
def Progresses (config : Config) (p : Program σ) (a : Flat σ) : Prop :=
  ∃ n, let b := (Flat.step config p)^[n] a
    ¬ b.IsRunning ∨ b.Spins p ∨ a.steps < b.steps

theorem Progresses.of_iterate {a : Flat σ} {n : Nat}
    (h : Progresses config p ((Flat.step config p)^[n] a))
    (hs : a.steps ≤ ((Flat.step config p)^[n] a).steps) : Progresses config p a := by
  obtain ⟨m, h⟩ := h
  refine ⟨m + n, ?_⟩
  rw [Function.iterate_add_apply]
  exact h.imp id (Or.imp id (Nat.lt_of_le_of_lt hs))

theorem progresses_ended (result : Except (Located σ) Unit) (st : State) :
    Progresses config p (ended result st) := ⟨0, .inl id⟩

theorem progresses_statement {pos? : Option Position} {s : Stmt σ} {ss : List (Stmt σ)}
    (h : p.rest pos? = s :: ss) : Progresses config p (running pos? stack st) := by
  cases pos? with
  | none => cases h
  | some pos =>
    refine ⟨1, .inr (.inr ?_)⟩
    rw [Function.iterate_one, steps_step_statement (Program.statement?_of_suffix h)]
    exact Nat.lt_succ_self _

theorem progresses_unwind {pos? : Option Position} (hend : p.rest pos? = [])
    (h : Progresses config p (unwind p st stack)) :
    Progresses config p (running pos? stack st) := by
  have hstep : Flat.step config p (running pos? stack st) = unwind p st stack :=
    step_atEnd ⟨pos?, hend, rfl⟩
  refine Progresses.of_iterate (n := 1) ?_ ?_
  · rwa [Function.iterate_one, hstep]
  · rw [Function.iterate_one, hstep, steps_unwind]
    exact Nat.le_refl _

/-- An empty counting loop whose counter leaves the range is left. -/
theorem exists_left_for {name : Name σ} {range : Stride} (hempty : p.chain (p.inner pos) = [])
    (hname : Region.of name.text ≠ .list) :
    ∀ rounds counter pos? st, p.rest pos? = [] → ¬ range.holds (range.after (rounds + 1) counter) →
      ∃ n st', st'.steps = st.steps ∧
        (Flat.step config p)^[n] (running pos? (.forLoop pos name range counter :: stack) st) =
          advance p pos stack st' := by
  intro rounds
  induction rounds with
  | zero =>
    intro counter pos? st hend hc
    have hc' : ¬ range.holds (counter + range.step) := hc
    refine ⟨1, st, rfl, ?_⟩
    rw [Function.iterate_one, step_atEnd ⟨pos?, hend, rfl⟩, unwind, testFor, if_neg hc']
  | succ rounds ih =>
    intro counter pos? st hend hc
    by_cases hnow : range.holds (counter + range.step)
    · obtain ⟨store, e⟩ := testFor_of_holds p pos stack st hname hnow
      obtain ⟨n, st', hst, hn⟩ := ih (counter + range.step) (p.first? (p.inner pos))
        { st with store } (rest_enter_empty hempty) hc
      refine ⟨n + 1, st', hst, ?_⟩
      rw [Function.iterate_succ_apply, step_atEnd ⟨pos?, hend, rfl⟩, unwind, e]
      exact hn
    · refine ⟨1, st, rfl, ?_⟩
      rw [Function.iterate_one, step_atEnd ⟨pos?, hend, rfl⟩, unwind, testFor, if_neg hnow]

section Frames

variable (ih : ∀ pos? st, Progresses config p (running pos? stack st))

include ih

theorem progresses_testWhile (condition : Expr σ) :
    Progresses config p (testWhile p pos condition stack st) := by
  cases hx : condition.evalNumber st.store .whileCondition with
  | error e => rw [testWhile, hx]; exact progresses_ended _ _
  | ok x =>
    by_cases ht : isTrue x
    · rw [testWhile_of_true hx ht]
      cases hbody : p.chain (p.inner pos) with
      | nil => exact ⟨0, .inr (.inl ⟨rest_enter_empty hbody, hbody, x, hx, ht⟩)⟩
      | cons s ss => exact progresses_statement ((p.rest_first? _).trans hbody)
    · rw [testWhile, hx]
      dsimp only
      rw [if_neg ht]
      exact ih _ _

theorem progresses_emptyFor {name : Name σ} (range : Stride) (counter : Float)
    {pos? : Option Position} (hend : p.rest pos? = []) (hempty : p.chain (p.inner pos) = [])
    (hname : Region.of name.text ≠ .list) :
    Progresses config p (running pos? (.forLoop pos name range counter :: stack) st) := by
  by_cases hc : ∀ rounds, range.holds (range.after (rounds + 1) counter)
  · exact ⟨0, .inr (.inl ⟨hend, hempty, hname, hc⟩)⟩
  · obtain ⟨rounds, hc⟩ := Classical.not_forall.1 hc
    obtain ⟨n, st', hst, hn⟩ := exists_left_for hempty hname rounds counter pos? st hend hc
    refine Progresses.of_iterate (n := n) ?_ ?_
    · rw [hn]; exact ih _ _
    · rw [hn]; exact Nat.le_of_eq hst.symm

theorem progresses_testFor (name : Name σ) (range : Stride) (counter : Float) :
    Progresses config p (testFor p pos name range counter stack st) := by
  unfold testFor
  split
  · cases hs : st.store.assign name.text (.number counter) with
    | error fault => exact progresses_ended _ _
    | ok store =>
      cases hbody : p.chain (p.inner pos) with
      | nil =>
        exact progresses_emptyFor ih range counter (rest_enter_empty hbody) hbody
          (Store.region_of_assign_number hs)
      | cons s ss => exact progresses_statement ((p.rest_first? _).trans hbody)
  · exact ih _ _

end Frames

/-- **Progress.** From every state the machine ends, spins or counts a statement. -/
theorem exists_progress (stack : List (Frame σ)) :
    ∀ pos? st, Progresses config p (running pos? stack st) := by
  induction stack with
  | nil =>
    intro pos? st
    cases hrest : p.rest pos? with
    | cons s ss => exact progresses_statement hrest
    | nil => exact progresses_unwind hrest (progresses_ended _ _)
  | cons frame stack ih =>
    intro pos? st
    cases hrest : p.rest pos? with
    | cons s ss => exact progresses_statement hrest
    | nil =>
      refine progresses_unwind hrest ?_
      cases frame with
      | resume pos => exact ih _ _
      | whileLoop pos condition => exact progresses_testWhile ih condition
      | forLoop pos name range counter => exact progresses_testFor ih name range _

/-- A machine within its budget ends or spins, by induction on what is left of the budget. -/
theorem ends_or_spins (limit : Nat) (prompt : String) (p : Program σ) :
    ∀ left (a : Flat σ), limit + 1 - a.steps ≤ left → WithinBudget limit a →
      ∃ n, let b := (Flat.step ⟨some limit, prompt⟩ p)^[n] a
        ¬ b.IsRunning ∨ b.Spins p := by
  intro left
  induction left with
  | zero =>
    intro a hleft hbudget
    refine ⟨0, .inl fun hrun => ?_⟩
    cases a with
    | running pos? stack st =>
      have hle : st.steps ≤ limit := hbudget
      have h0 : limit + 1 - st.steps ≤ 0 := hleft
      omega
    | ended => exact hrun
  | succ left ih =>
    intro a hleft hbudget
    cases a with
    | ended => exact ⟨0, .inl id⟩
    | running pos? stack st =>
      have hprog : Progresses ⟨some limit, prompt⟩ p (running pos? stack st) :=
        exists_progress stack pos? st
      obtain ⟨n, h⟩ := hprog
      rcases h with h | h | h
      · exact ⟨n, .inl h⟩
      · exact ⟨n, .inr h⟩
      · have hlater : WithinBudget limit
            ((Flat.step ⟨some limit, prompt⟩ p)^[n] (running pos? stack st)) :=
          hbudget.iterate prompt p n
        obtain ⟨m, h⟩ := ih _ (by omega) hlater
        exact ⟨m + n, by rwa [Function.iterate_add_apply]⟩

/-- A run that spins has no end. -/
theorem runFrom_of_spins {start? : Option Position} {m : Nat}
    (hspins : ((Flat.step config p)^[m] (start start? st)).Spins p) (fuel : Nat) :
    (p.runFrom config fuel start? st).1 = .unfinished := by
  rcases hr : p.runFrom config fuel start? st with ⟨o, st'⟩
  by_contra hfin
  obtain ⟨result, rfl⟩ := Outcome.exists_ofResult hfin
  obtain ⟨n, hn⟩ := ended_of_runFrom hr
  have hend := iterate_of_ended hn (Nat.le_add_right n m)
  rw [Function.iterate_add_apply] at hend
  have hrun := (hspins.iterate config n).isRunning
  rw [hend] at hrun
  exact hrun

end Flat

end CalcBasic
