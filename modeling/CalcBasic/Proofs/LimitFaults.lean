import CalcBasic.Proofs.Discipline

/-!
# The fault of the step limit

Only the count of statements has the fault of the step limit: evaluating, storing, showing and
asking have other faults. So a run that ends in this fault has counted more statements than the
limit allows.

1. A fault that is about a variable, a value or the console is ordinary
   (`Fault.ordinary_of_about`, `Fault.ordinary_of_general`).
2. So having ordinary faults, or more statements than the limit allows, is a discipline that all
   runs keep (`Discipline.governs_limited`), and runs are metered (`Program.metered_run`).
-/

namespace CalcBasic

variable {σ α : Type}

/-- The fault is not that of the step limit. -/
def Fault.Ordinary : Fault → Prop
  | stepLimit _ => False
  | _ => True

/-- The fault is not that of the step limit, wherever it stands. -/
def Located.Ordinary (l : Located σ) : Prop := l.fault.Ordinary

theorem Fault.ordinary_of_about {fault : Fault} {name : String} (h : fault.About name) :
    fault.Ordinary := by
  cases fault <;> trivial

theorem Fault.ordinary_of_general {fault : Fault} (h : fault.General) : fault.Ordinary := by
  cases fault <;> trivial

/-- If the action ends in the fault of a step limit, more statements have been counted than this
limit allows. -/
structure Action.Metered (limit : Nat) (x : Action σ α) (Q : α → Prop) : Prop where
  done : ∀ st a st', x st = (.done a, st') → Q a
  fault : ∀ st l st', x st = (.fault l, st') → l.Ordinary ∨ limit < st'.steps

namespace Discipline

/-- Faults are ordinary, or more statements have been counted than the limit allows. -/
def limited (limit : Nat) : Discipline :=
  ofFaults Fault.Ordinary fun st fault => fault.Ordinary ∨ limit < st.steps

theorem governs_limited (limit : Nat) (prompt : String) :
    (limited limit).Governs ⟨some limit, prompt⟩ where
  toLawful := lawful_ofFaults (fun _ => Fault.ordinary_of_general)
    fun _ _ => Fault.ordinary_of_about
  ends _ _ h := .inl h
  limit _ _ hn h := .inr (Option.some.inj hn ▸ h)

end Discipline

/-- **Runs.** A run under a limit that ends in the fault of a step limit has counted more statements
than its limit allows. -/
theorem Program.metered_run (limit : Nat) (prompt : String) (fuel : Nat) (p : Program σ)
    (start? : Option Position) :
    (p.runFrom ⟨some limit, prompt⟩ fuel start?).Metered limit fun _ => True := by
  have hkeeps := (Discipline.governs_limited limit prompt).run (p := p) Discipline.fits_ofFaults
    (fun label span l h st => ?_) fuel start?
  · exact ⟨fun _ _ _ _ => trivial, fun st l st' h => hkeeps.fault st l st' trivial h⟩
  · rw [find_landing] at h
    cases hr : p.resolve? label <;> rw [hr] at h <;> cases h
    exact .inl trivial

end CalcBasic
