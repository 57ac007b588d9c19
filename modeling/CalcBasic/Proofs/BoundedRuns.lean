import CalcBasic.Proofs.LimitFaults
import CalcBasic.Proofs.Truncation

/-!
# Runs under a step limit

Under a limit a run finishes unless it spins, and the number of statements counted says how it ends.

1. The count is that of the statements at which the machine has stood (`Flat.steps_iterate`).
2. A run that does not spin finishes (`Program.finishes_of_not_spins`). It has counted one statement
   more than the limit allows exactly if it has met the limit (`Program.counted`). The limit is met
   at this statement, which is not executed (`Program.refused`).
-/

namespace CalcBasic

variable {σ : Type}

namespace Flat

variable {config : Config} {p : Program σ}

/-! ## Statements that are counted -/

/-- In how many of its first `k` steps the machine stands at a statement. -/
def visited (config : Config) (p : Program σ) (a : Flat σ) (k : Nat) : Nat :=
  (List.range k).countP fun i => (((step config p)^[i] a).statement? p).isSome

/-- The machine counts the statements at which it stands, and nothing else. -/
theorem steps_iterate (a : Flat σ) (k : Nat) :
    ((step config p)^[k] a).steps = a.steps + visited config p a k := by
  induction k with
  | zero => rfl
  | succ k ih =>
    rw [Function.iterate_succ_apply', steps_step, ih, visited, visited,
      List.range_succ, List.countP_append, List.countP_singleton, Nat.add_assoc]

theorem WithinBudget.steps_le {limit : Nat} {a : Flat σ} (h : WithinBudget limit a) :
    a.steps ≤ limit + 1 := by
  cases a with
  | running => exact Nat.le_succ_of_le h
  | ended =>
    obtain hle | ⟨heq, -⟩ := h
    · exact Nat.le_succ_of_le hle
    · exact heq.le

theorem withinBudget_iterate (limit : Nat) (prompt : String) (p : Program σ)
    (start? : Option Position) (st : State) (k : Nat) :
    WithinBudget limit ((step ⟨some limit, prompt⟩ p)^[k] (start start? st)) := by
  have hstart : WithinBudget limit (start start? st : Flat σ) := Nat.zero_le limit
  exact hstart.iterate prompt p k

end Flat

namespace Program

variable {limit : Nat} {prompt : String} {p : Program σ} {start? : Option Position} {st : State}

/-! ## How a run ends -/

/-- A run that does not spin finishes. -/
theorem finishes_of_not_spins
    (h : ∀ k, ¬ ((Flat.step ⟨some limit, prompt⟩ p)^[k] (Flat.start start? st)).Spins p) :
    ∃ fuel, (p.runFrom ⟨some limit, prompt⟩ fuel start? st).1 ≠ .unfinished := by
  obtain ⟨k, hk | hk⟩ := Flat.ends_or_spins limit prompt p _ _ (Nat.le_refl _)
    (Flat.withinBudget_iterate limit prompt p start? st 0)
  · cases hb : (Flat.step ⟨some limit, prompt⟩ p)^[k] (Flat.start start? st) with
    | running =>
      rw [Function.iterate_zero_apply, hb] at hk
      exact absurd trivial hk
    | ended result st' =>
      refine ⟨k + 1, ?_⟩
      rw [Flat.runFrom_of_ended hb]
      cases result <;> exact nofun
  · exact absurd hk (h k)

section Finished

variable {fuel : Nat} {result : Except (Located σ) Unit} {st' : State}
  (hrun : p.runFrom ⟨some limit, prompt⟩ fuel start? st = (.ofResult result, st'))

include hrun

/-- A finished run has counted one statement more than the limit allows exactly if it ends with the
fault of a limit. -/
theorem counted : st'.steps ≤ limit + 1 ∧
    (st'.steps = limit + 1 ↔ ∃ l n, result = .error l ∧ l.fault = .stepLimit n) := by
  obtain ⟨k, hk⟩ := Flat.ended_of_runFrom hrun
  have hbudget := Flat.withinBudget_iterate limit prompt p start? st k
  rw [hk] at hbudget
  obtain hle | ⟨heq, span, rfl⟩ := hbudget
  · -- within the limit there is no fault of a limit
    refine ⟨Nat.le_succ_of_le hle, fun heq => absurd hle (by omega), ?_⟩
    rintro ⟨l, n, rfl, hl⟩
    obtain hordinary | hlt := (p.metered_run limit prompt fuel start?).fault st l st' hrun
    · rw [Located.Ordinary, hl] at hordinary
      exact hordinary.elim
    · exact absurd hle (Nat.not_le.mpr hlt)
  · exact ⟨heq.le, fun _ => ⟨_, limit, rfl, rfl⟩, fun _ => heq⟩

/-- The statement beyond the limit is the place of the fault, and it is not executed. -/
theorem refused (hsteps : st'.steps = limit + 1) :
    ∃ k pos stack before s,
      (Flat.step ⟨some limit, prompt⟩ p)^[k] (Flat.start start? st) =
        .running (some pos) stack before ∧
      p.statement? pos = some s ∧ before.steps = limit ∧
      result = .error ⟨.stepLimit limit, s.span⟩ ∧ st' = { before with steps := limit + 1 } := by
  obtain ⟨total, htotal⟩ := Flat.ended_of_runFrom hrun
  have hcounted : limit < ((Flat.step ⟨some limit, prompt⟩ p)^[total]
      (Flat.start start? st)).steps := by
    rw [htotal]
    show limit < st'.steps
    omega
  obtain ⟨k, hk, pos, stack, before, s, hbefore, hs, rfl⟩ :=
    Flat.exists_crossing (Nat.zero_le limit) total hcounted
  have hcut : (Flat.step ⟨some before.steps, prompt⟩ p)^[k + 1] (Flat.start start? st) =
      .ended (.error ⟨.stepLimit before.steps, s.span⟩)
        { before with steps := before.steps + 1 } := by
    rw [Function.iterate_succ_apply', hbefore]
    exact Flat.step_beyond hs
  have hend := Flat.iterate_of_ended hcut hk
  rw [htotal] at hend
  cases hend
  exact ⟨k, pos, stack, before, s, hbefore, hs, rfl, rfl, rfl⟩

end Finished

end Program

/-- **The step limit.** Under a limit a run finishes unless it comes to a loop with an empty body
that never ends by itself. Meanwhile it counts the statements that it comes to, in a number of 64
bits. A run that finishes has counted no more statements than the limit allows, and one more exactly
if it ends with the fault of the limit. This stands at the first statement beyond the limit, and
nothing is changed by that statement. -/
theorem run_finishes_iff {limit : Nat} (hlimit : limit < 2 ^ 64 - 1) (prompt : String)
    (p : Program σ) (st : State) :
    ((∃ fuel, (p.run ⟨some limit, prompt⟩ fuel st).1 ≠ .unfinished) ↔
      ¬ ∃ k, ((Flat.step ⟨some limit, prompt⟩ p)^[k] (Flat.start p.head? st)).Spins p) ∧
    (∀ k, let a := (Flat.step ⟨some limit, prompt⟩ p)^[k] (Flat.start p.head? st)
      a.steps = Flat.visited ⟨some limit, prompt⟩ p (Flat.start p.head? st) k ∧
        a.steps < 2 ^ 64) ∧
    ∀ fuel result st', p.run ⟨some limit, prompt⟩ fuel st = (.ofResult result, st') →
      st'.steps ≤ limit + 1 ∧
      (st'.steps = limit + 1 ↔ ∃ l n, result = .error l ∧ l.fault = .stepLimit n) ∧
      (st'.steps = limit + 1 → ∃ k pos stack before s,
        (Flat.step ⟨some limit, prompt⟩ p)^[k] (Flat.start p.head? st) =
          .running (some pos) stack before ∧
        p.statement? pos = some s ∧ before.steps = limit ∧
        result = .error ⟨.stepLimit limit, s.span⟩ ∧
        st' = { before with steps := limit + 1 }) := by
  refine ⟨⟨?_, ?_⟩, fun k => ⟨?_, ?_⟩, fun fuel result st' hrun => ?_⟩
  · rintro ⟨fuel, hfin⟩ ⟨k, hspins⟩
    exact hfin (Flat.runFrom_of_spins hspins fuel)
  · intro hspins
    exact Program.finishes_of_not_spins fun k hk => hspins ⟨k, hk⟩
  · exact (Flat.steps_iterate _ k).trans (Nat.zero_add _)
  · have hle := (Flat.withinBudget_iterate limit prompt p p.head? st k).steps_le
    omega
  · obtain ⟨hle, hiff⟩ := Program.counted hrun
    exact ⟨hle, hiff, Program.refused hrun⟩

/-- Whether a program meets a fault on a fresh machine, after this many statements under a limit. -/
def Program.cutAt (limit steps : Nat) (p : Program Span) : Bool :=
  match p.run ⟨some limit, "?"⟩ steps ⟨.fresh, { input := [] }, 0⟩ with
  | (.fault _, st) => st.steps == steps
  | _ => false

theorem Program.exists_of_cutAt {limit steps : Nat} {p : Program Span}
    (h : p.cutAt limit steps = true) :
    ∃ l st', p.run ⟨some limit, "?"⟩ steps ⟨.fresh, { input := [] }, 0⟩ =
      (.ofResult (.error l), st') ∧ st'.steps = steps := by
  unfold cutAt at h
  split at h
  · next l st' hrun => exact ⟨l, st', hrun, beq_iff_eq.mp h⟩
  · cases h

/-- A jump back and forth is cut off by a limit of five statements before the sixth. -/
theorem run_finishes_iff_jumps : ∃ p, Program.parse "Lbl A\nGoto A" = .ok p ∧ 5 < 2 ^ 64 - 1 ∧
    ∃ fuel pos s, ∃ before : State, p.statement? pos = some s ∧ before.steps = 5 ∧
      p.run ⟨some 5, "?"⟩ fuel ⟨.fresh, { input := [] }, 0⟩ =
        (.fault ⟨.stepLimit 5, s.span⟩, { before with steps := 6 }) := by
  have hcheck : (Program.parse "Lbl A\nGoto A").toOption.any (Program.cutAt 5 6) = true := by
    decide +kernel
  obtain ⟨p, hp, hcut⟩ := Program.exists_of_parse hcheck
  obtain ⟨l, st', hrun, hsteps⟩ := Program.exists_of_cutAt hcut
  have hlimit : 5 < 2 ^ 64 - 1 := by decide
  obtain ⟨-, -, hends⟩ := run_finishes_iff hlimit "?" p ⟨.fresh, { input := [] }, 0⟩
  obtain ⟨-, -, hrefused⟩ := hends 6 _ st' hrun
  obtain ⟨_, pos, _, before, s, -, hs, hbefore, hresult, rfl⟩ := hrefused hsteps
  refine ⟨p, hp, hlimit, 6, pos, s, before, hs, hbefore, ?_⟩
  rw [hrun, hresult]
  rfl

/-- Whether a program is one loop with an empty body, its condition a constant that is true. -/
def Program.isEmptyLoop : Program Span → Bool
  | ⟨[.whileLoop _ (.literal _ x) []]⟩ => isTrue x
  | _ => false

theorem Program.exists_of_isEmptyLoop {p : Program Span} (h : p.isEmptyLoop = true) :
    ∃ span span' x, p = ⟨[.whileLoop span (.literal span' x) []]⟩ ∧ isTrue x = true := by
  unfold isEmptyLoop at h
  split at h
  · exact ⟨_, _, _, rfl, h⟩
  · cases h

/-- An empty loop has no end under a limit of five statements, of which it executes one. -/
theorem empty_while_unfinished : ∃ p, Program.parse "While 1\nEnd" = .ok p ∧
    ∀ fuel, (p.run ⟨some 5, "?"⟩ fuel ⟨.fresh, { input := [] }, 0⟩).1 = .unfinished := by
  have hloop : (Program.parse "While 1\nEnd").toOption.any Program.isEmptyLoop = true := by
    decide +kernel
  cases hp : Program.parse "While 1\nEnd" with
  | error e =>
    rw [hp] at hloop
    cases hloop
  | ok p =>
    rw [hp] at hloop
    obtain ⟨span, span', x, rfl, hx⟩ := Program.exists_of_isEmptyLoop hloop
    refine ⟨_, rfl, fun fuel => Flat.runFrom_of_spins (m := 1) ?_ fuel⟩
    show (Flat.testWhile _ ⟨0, 0⟩ (.literal span' x) [] _).Spins _
    rw [Flat.testWhile_of_true rfl hx]
    exact ⟨rfl, rfl, x, rfl, hx⟩

end CalcBasic
