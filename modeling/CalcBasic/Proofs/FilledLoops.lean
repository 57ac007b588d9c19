import CalcBasic.Proofs.BoundedRuns

/-!
# Programs without empty loops

A program whose loops all have statements in their bodies comes to an end under every step limit.

1. A frame of a loop on the stack of the flat machine is that of a loop of the program, so its body
   is not empty. Every step keeps this (`Flat.Filled.step`).
2. A machine that spins has the frame of a loop with an empty body on its stack. So a machine of a
   program without such loops does not spin (`Flat.Filled.not_spins`), and under a limit it ends.
-/

namespace CalcBasic

variable {σ α β : Type}

/-- Whether the statement is no loop with an empty body. -/
def Stmt.isFilled : Stmt σ → Bool
  | whileLoop _ _ body | forLoop _ _ body => !body.isEmpty
  | command .. | ifThen .. | ifElse .. => true

/-- Whether every loop of the program has a statement in its body. -/
def Program.isFilled (p : Program σ) : Bool := p.chains.all (·.all Stmt.isFilled)

theorem Program.Contains.isFilled {p : Program σ} {s : Stmt σ} (h : p.Contains s)
    (hp : p.isFilled = true) : s.isFilled = true := by
  obtain ⟨c, hc, hs⟩ := h
  exact List.all_eq_true.mp (List.all_eq_true.mp hp c hc) s hs

/-! ## Loops on the stack -/

/-- The frame is that of no loop with an empty body. -/
def Frame.Filled (p : Program σ) : Frame σ → Prop
  | resume _ => True
  | whileLoop pos _ | forLoop pos _ _ _ => p.chain (p.inner pos) ≠ []

namespace Flat

variable {config : Config} {p : Program σ} {pos : Position} {stack : List (Frame σ)} {st : State}

/-- No frame of the machine is that of a loop with an empty body. -/
def Filled (p : Program σ) (a : Flat σ) : Prop := ∀ frame ∈ a.frames, frame.Filled p

theorem filled_ended (result : Except (Located σ) Unit) (st : State) :
    (ended result st).Filled p := nofun

theorem filled_jump (label : String) (span : σ) : (jump p label span st).Filled p := by
  unfold jump
  cases p.resolve? label <;> exact nofun

theorem Filled.follow {here : Flat σ} {next : α → State → Flat σ} {o : Outcome σ α × State}
    (h : here.Filled p) (hnext : ∀ a st, (next a st).Filled p) :
    (follow here next o).Filled p := by
  rcases o with ⟨(a | e | _), st⟩
  · exact hnext a st
  · exact filled_ended _ st
  · exact h

section Stack

variable (hstack : ∀ frame ∈ stack, frame.Filled p)

include hstack

theorem filled_enter (frame : Frame σ) (h : frame.Filled p) (n : Nat) (st : State) :
    (enter p n frame stack st).Filled p := List.forall_mem_cons.mpr ⟨h, hstack⟩

theorem filled_testWhile (h : p.chain (p.inner pos) ≠ []) (condition : Expr σ) (st : State) :
    (testWhile p pos condition stack st).Filled p := by
  unfold testWhile
  cases condition.evalNumber st.store .whileCondition with
  | error e => exact filled_ended _ st
  | ok x =>
    dsimp only
    by_cases hx : isTrue x
    · rw [if_pos hx]
      exact filled_enter hstack (.whileLoop pos condition) h _ st
    · rw [if_neg hx]
      exact hstack

theorem filled_testFor (h : p.chain (p.inner pos) ≠ []) (name : Name σ) (range : Stride)
    (counter : Float) (st : State) : (testFor p pos name range counter stack st).Filled p := by
  unfold testFor
  by_cases hc : range.holds counter
  · rw [if_pos hc]
    cases st.store.assign name.text (.number counter) with
    | error fault => exact filled_ended _ st
    | ok store => exact filled_enter hstack (.forLoop pos name range counter) h _ _
  · rw [if_neg hc]
    exact hstack

theorem filled_unwind (st : State) : (unwind p st stack).Filled p := by
  cases stack with
  | nil => exact filled_ended _ st
  | cons frame stack =>
    obtain ⟨hframe, hrest⟩ := List.forall_mem_cons.mp hstack
    cases frame with
    | resume pos => exact hrest
    | whileLoop pos condition => exact filled_testWhile hrest hframe condition st
    | forLoop pos name range counter => exact filled_testFor hrest hframe name range _ st

theorem filled_perform {s : Stmt σ} (hs : p.statement? pos = some s) (hfilled : s.isFilled = true)
    {here : Flat σ} (hhere : here.Filled p) : (perform config p pos stack st here s).Filled p := by
  obtain ⟨rest, hsuffix⟩ := Program.suffix_of_statement? hs
  cases s with
  | command span c =>
    refine hhere.follow fun flow st => ?_
    cases flow with
    | proceed => exact hstack
    | jump label span => exact filled_jump label span
    | halt => exact filled_ended _ st
  | ifThen span condition body =>
    refine hhere.follow fun x st => ?_
    by_cases hx : isTrue x
    · rw [if_pos hx]
      exact filled_enter hstack (.resume pos) trivial _ st
    · rw [if_neg hx]
      exact hstack
  | ifElse span condition body otherwise =>
    refine hhere.follow fun x st => ?_
    by_cases hx : isTrue x
    · rw [if_pos hx]
      exact filled_enter hstack (.resume pos) trivial _ st
    · rw [if_neg hx]
      exact filled_enter hstack (.resume pos) trivial _ st
  | whileLoop span condition body =>
    have hbody : p.chain (p.inner pos) = body := Program.chain_inner_zero hsuffix rfl
    refine filled_testWhile hstack ?_ condition st
    rw [hbody]
    rintro rfl
    cases hfilled
  | forLoop span range body =>
    have hbody : p.chain (p.inner pos) = body := Program.chain_inner_zero hsuffix rfl
    refine hhere.follow fun entry st => filled_testFor hstack ?_ range.counter entry.1 entry.2 st
    rw [hbody]
    rintro rfl
    cases hfilled

end Stack

/-- **Invariant of the stack.** -/
theorem Filled.step {a : Flat σ} (h : a.Filled p) (hp : p.isFilled = true) (config : Config) :
    (step config p a).Filled p := by
  rcases a with ⟨_ | pos, stack, st⟩ | ⟨result, st⟩
  · exact filled_unwind h st
  · cases hs : p.statement? pos with
    | none =>
      rw [Flat.step, hs]
      exact filled_unwind h st
    | some s =>
      have hcontains : p.Contains s := Program.contains_of_mem_chain (List.mem_of_getElem? hs)
      rw [Flat.step, hs]
      exact h.follow fun _ st' => filled_perform h hs (hcontains.isFilled hp) h
  · exact h

theorem Filled.iterate {a : Flat σ} (h : a.Filled p) (hp : p.isFilled = true) (config : Config)
    (n : Nat) : ((Flat.step config p)^[n] a).Filled p := by
  induction n generalizing a with
  | zero => exact h
  | succ n ih => exact ih (h.step hp config)

theorem Filled.not_spins {a : Flat σ} (h : a.Filled p) : ¬ a.Spins p := by
  rcases a with ⟨pos?, _ | ⟨(_ | ⟨pos, condition⟩ | ⟨pos, name, range, counter⟩), stack⟩, st⟩ | _
  · exact id
  · exact id
  · rintro ⟨-, hempty, -⟩
    exact h _ List.mem_cons_self hempty
  · rintro ⟨-, hempty, -⟩
    exact h _ List.mem_cons_self hempty
  · exact id

end Flat

/-! ## Runs -/

/-- **Loops with bodies.** Under a step limit every run of a program without empty loops comes to an
end. It counts at most one statement more than the limit allows, and does so exactly if it ends with
the fault of the limit. -/
theorem Program.finishes_within (p : Program σ) (hp : p.isFilled = true) (limit : Nat)
    (prompt : String) (start? : Option Position) (st : State) :
    (∃ fuel, (p.runFrom ⟨some limit, prompt⟩ fuel start? st).1 ≠ .unfinished) ∧
    ∀ fuel result st', p.runFrom ⟨some limit, prompt⟩ fuel start? st = (.ofResult result, st') →
      st'.steps ≤ limit + 1 ∧
      (st'.steps = limit + 1 ↔ ∃ l n, result = .error l ∧ l.fault = .stepLimit n) := by
  have hfilled : (Flat.start start? st).Filled p := nofun
  exact ⟨finishes_of_not_spins fun k => (hfilled.iterate hp _ k).not_spins,
    fun _ _ _ hrun => counted hrun⟩

/-- Whether a program without empty loops meets a fault on a fresh machine, after this many
statements under a limit. -/
def Program.cutAfter (limit steps : Nat) (p : Program Span) : Bool :=
  p.isFilled && p.cutAt limit steps

/-- A loop that never ends by itself is cut off by a limit of five statements. -/
theorem Program.finishes_within_endless : ∃ p, Program.parse "While 1\nDisp 2\nEnd" = .ok p ∧
    p.isFilled = true ∧
    ∃ fuel l st', p.run ⟨some 5, "?"⟩ fuel ⟨.fresh, { input := [] }, 0⟩ =
      (.ofResult (.error l), st') ∧ st'.steps = 6 ∧ ∃ n, l.fault = .stepLimit n := by
  have hcheck : (Program.parse "While 1\nDisp 2\nEnd").toOption.any (Program.cutAfter 5 6) =
      true := by
    decide +kernel
  obtain ⟨p, hp, hcut⟩ := Program.exists_of_parse hcheck
  obtain ⟨hfilled, hcut⟩ := (Bool.and_eq_true _ _).mp hcut
  obtain ⟨l, st', hrun, hsteps⟩ := Program.exists_of_cutAt hcut
  obtain ⟨-, hlimit⟩ := (p.finishes_within hfilled 5 "?" p.head? _).2 6 _ st' hrun
  obtain ⟨_, n, hl, hfault⟩ := hlimit.mp hsteps
  cases hl
  exact ⟨p, hp, hfilled, 6, l, st', hrun, hsteps, n, hfault⟩

end CalcBasic
