import CalcBasic.Run

/-!
# Actions

What the actions of a run do whatever the program is. Only loops and jumps can leave a run
unfinished, and only the count of statements changes the number of statements executed: a single
command, a condition and the entry into a counting loop do neither (`plain_exec`, `plain_enter`).
-/

namespace CalcBasic

variable {σ α β : Type}

namespace Action

theorem bind_apply (x : Action σ α) (f : α → Action σ β) (st : State) :
    (x >>= f) st = match x st with
      | (.done a, st) => f a st
      | (.fault e, st) => (.fault e, st)
      | (.unfinished, st) => (.unfinished, st) := rfl

section Inversion

variable {x : Action σ α} {f : α → Action σ β} {st st' : State} {a : α} {b : β} {e : Located σ}

theorem bind_eq_done : (x >>= f) st = (.done b, st') ↔
    ∃ a mid, x st = (.done a, mid) ∧ f a mid = (.done b, st') := by
  rw [bind_apply]
  rcases hx : x st with ⟨(a | e | _), mid⟩ <;> simp [and_assoc]

theorem bind_eq_fault : (x >>= f) st = (.fault e, st') ↔
    x st = (.fault e, st') ∨ ∃ a mid, x st = (.done a, mid) ∧ f a mid = (.fault e, st') := by
  rw [bind_apply]
  rcases hx : x st with ⟨(a | e | _), mid⟩ <;> simp [and_assoc]

theorem pure_eq_done {a' : α} :
    (pure a : Action σ α) st = (.done a', st') ↔ a = a' ∧ st = st' := by
  show (Outcome.done a, st) = (.done a', st') ↔ _
  rw [Prod.mk.injEq, Outcome.done.injEq]

theorem consult_eq_done {f : Store → Except (Located σ) α} :
    consult f st = (.done a, st') ↔ f st.store = .ok a ∧ st = st' := by
  unfold consult
  cases f st.store <;> simp

theorem consult_eq_fault {f : Store → Except (Located σ) α} :
    consult f st = (.fault e, st') ↔ f st.store = .error e ∧ st = st' := by
  unfold consult
  cases f st.store <;> simp

theorem change_eq_done {span : σ} {f : Store → Except Fault Store} {u : Unit} :
    change span f st = (.done u, st') ↔
      ∃ store, f st.store = .ok store ∧ { st with store } = st' := by
  unfold change
  cases f st.store <;> simp

theorem change_eq_fault {span : σ} {f : Store → Except Fault Store} :
    change span f st = (.fault e, st') ↔
      ∃ fault, f st.store = .error fault ∧ ⟨fault, span⟩ = e ∧ st = st' := by
  unfold change
  cases f st.store <;> simp

end Inversion

/-- Comes to an end from every state. -/
def Finishes (x : Action σ α) : Prop := ∀ st, (x st).1 ≠ .unfinished

/-- Comes to an end from every state, and counts no statement. -/
structure Plain (x : Action σ α) : Prop where
  finishes : x.Finishes
  steps : ∀ st, (x st).2.steps = st.steps

theorem plain_pure (a : α) : Plain (pure a : Action σ α) := ⟨fun _ => nofun, fun _ => rfl⟩

theorem Plain.bind {x : Action σ α} {f : α → Action σ β} (hx : x.Plain)
    (hf : ∀ a, (f a).Plain) : (x >>= f).Plain := by
  constructor
  · intro st
    have h := hx.finishes st
    rw [bind_apply]
    rcases hr : x st with ⟨(a | e | _), st'⟩
    · exact (hf a).finishes st'
    · exact nofun
    · exact absurd (congrArg Prod.fst hr) h
  · intro st
    have h := hx.steps st
    rw [bind_apply]
    rcases hr : x st with ⟨(a | e | _), st'⟩ <;> rw [hr] at h
    · exact ((hf a).steps st').trans h
    · exact h
    · exact h

theorem plain_consult (f : Store → Except (Located σ) α) : (consult f).Plain := by
  constructor <;> intro st <;> unfold consult <;> cases f st.store
  · exact nofun
  · exact nofun
  · rfl
  · rfl

theorem plain_change (span : σ) (f : Store → Except Fault Store) : (change span f).Plain := by
  constructor <;> intro st <;> unfold change <;> cases f st.store
  · exact nofun
  · exact nofun
  · rfl
  · rfl

theorem plain_write (span : σ) (line : String) : (write span line).Plain := by
  constructor <;> intro st <;> unfold write <;> cases st.console.write line
  · exact nofun
  · exact nofun
  · rfl
  · rfl

theorem plain_ask (span : σ) (name prompt : String) : (ask span name prompt).Plain := by
  constructor <;> intro st <;> unfold ask <;> rcases st.console.ask prompt with ⟨(_ | _ | _), _⟩
  · exact nofun
  · exact nofun
  · exact nofun
  · rfl
  · rfl
  · rfl

/-! ## The count of statements -/

/-- A statement is counted, and is a fault if that is one too many. -/
theorem count_cases (config : Config) (span : σ) (st : State) :
    (∀ limit ∈ config.stepLimit, st.steps < limit) ∧
        count config span st = (.done (), { st with steps := st.steps + 1 }) ∨
      ∃ limit ∈ config.stepLimit, limit ≤ st.steps ∧ count config span st =
        (.fault ⟨.stepLimit limit, span⟩, { st with steps := st.steps + 1 }) := by
  unfold count
  cases config.stepLimit with
  | none => exact .inl ⟨nofun, rfl⟩
  | some limit =>
    by_cases h : limit < st.steps + 1
    · exact .inr ⟨limit, rfl, Nat.lt_succ_iff.mp h, if_pos h⟩
    · refine .inl ⟨?_, if_neg h⟩
      rintro _ ⟨⟩
      exact Nat.not_lt.mp h

theorem finishes_count (config : Config) (span : σ) : (count config span).Finishes := by
  intro st
  obtain ⟨-, h⟩ | ⟨_, _, _, h⟩ := count_cases config span st <;> rw [h] <;> exact nofun

theorem state_count (config : Config) (span : σ) (st : State) :
    (count config span st).2 = { st with steps := st.steps + 1 } := by
  obtain ⟨_, h⟩ | ⟨_, _, _, h⟩ := count_cases config span st <;> rw [h]

theorem steps_count (config : Config) (span : σ) (st : State) :
    (count config span st).2.steps = st.steps + 1 := by
  rw [state_count]

end Action

/-! ## Commands -/

open CalcBasic.Action

theorem plain_askFor (prompt : String) (name : Name σ) : (askFor prompt name).Plain :=
  (plain_ask _ _ _).bind fun _ => (plain_consult _).bind fun _ => plain_change _ _

theorem plain_displayAll (span : σ) (es : List (Expr σ)) : (displayAll span es).Plain := by
  induction es with
  | nil => exact plain_pure ()
  | cons e es ih => exact (plain_consult _).bind fun v => (plain_write _ _).bind fun _ => ih

theorem plain_promptAll (names : List (Name σ)) : (promptAll names).Plain := by
  induction names with
  | nil => exact plain_pure ()
  | cons name names ih => exact (plain_askFor _ _).bind fun _ => ih

theorem plain_put (v : Value) (target : Target σ) : (target.put v).Plain := by
  cases target with
  | whole name => exact plain_change name.span (·.assign name.text v)
  | element span name index => exact (plain_consult _).bind fun _ => plain_change _ _

theorem plain_exec (config : Config) (span : σ) (c : Command σ) : (c.exec config span).Plain := by
  cases c with
  | evaluate e => exact (plain_consult _).bind fun _ => plain_pure _
  | display es => exact (plain_displayAll _ _).bind fun _ => plain_pure _
  | store e target =>
    exact (plain_consult _).bind fun v => (plain_put v _).bind fun _ => plain_pure _
  | prompt names => exact (plain_promptAll _).bind fun _ => plain_pure _
  | input text name => exact (plain_askFor _ _).bind fun _ => plain_pure _
  | label _ | goto _ | stop => exact plain_pure _

theorem plain_enter (span : σ) (r : Range σ) : (r.enter span).Plain :=
  (plain_consult _).bind fun _ => (plain_consult _).bind fun _ =>
    (plain_change _ _).bind fun _ => (plain_consult _).bind fun _ => plain_pure _

end CalcBasic
