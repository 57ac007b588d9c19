import CalcBasic.Proofs.CountingLoops
import CalcBasic.Proofs.Discipline

/-!
# Statements that fail

A statement that fails has changed no variable, unless it asks for several values or has executed
statements of its blocks. There is one exception, a counting loop: it stores the start value before it
wants it to be a number, and before the first statement of its body is counted (`Stmt.Started`).

1. What is stored by a command other than `Prompt` is the last thing that it does
   (`Command.cautious_exec`).
2. Statements that are executed are counted (`Stmt.exec_of_idle`). So the statements of a block of
   which none is executed are none at all, or the step limit forbids the first of them
   (`Stmt.execAll_of_idle`).
3. So a `While` loop that has executed no statement has changed nothing (`store_whileTrue_of_idle`).
   A counting loop fails by its head, or at the first statement of its body, which the limit forbids
   (`countThrough_of_idle`).
4. What a head does before it stores the start value has other faults than what comes behind
   (`Range.enter_eq_fault`), so the fault tells whether the start value was stored.
-/

namespace CalcBasic

variable {σ α β : Type}

/-! ## Commands -/

namespace Action

/-- The action leaves the variables as they are. -/
def Observes (x : Action σ α) : Prop := ∀ st, (x st).2.store = st.store

/-- A fault of the action leaves the variables as they were. -/
def Cautious (x : Action σ α) : Prop := ∀ st e st', x st = (.fault e, st') → st'.store = st.store

theorem Observes.cautious {x : Action σ α} (hx : x.Observes) : x.Cautious := by
  intro st e st' h
  have hst := hx st
  rwa [h] at hst

theorem Observes.bind {x : Action σ α} {f : α → Action σ β} (hx : x.Observes)
    (hf : ∀ a, (f a).Observes) : (x >>= f).Observes := by
  intro st
  have hst := hx st
  rw [bind_apply]
  rcases hr : x st with ⟨(a | e | _), mid⟩ <;> rw [hr] at hst
  · exact (hf a mid).trans hst
  · exact hst
  · exact hst

/-- What changes nothing may come before something cautious. -/
theorem Observes.bind_cautious {x : Action σ α} {f : α → Action σ β} (hx : x.Observes)
    (hf : ∀ a, (f a).Cautious) : (x >>= f).Cautious := by
  intro st e st' h
  obtain h | ⟨a, mid, hdone, h⟩ := bind_eq_fault.mp h
  · exact hx.cautious st e st' h
  · have hst := hx st
    rw [hdone] at hst
    exact (hf a mid e st' h).trans hst

/-- What never fails may come behind something cautious. -/
theorem Cautious.bind_pure {x : Action σ α} (hx : x.Cautious) (b : β) :
    (x >>= fun _ => pure b).Cautious := by
  intro st e st' h
  obtain h | ⟨a, mid, -, h⟩ := bind_eq_fault.mp h
  · exact hx st e st' h
  · cases h

theorem cautious_change (span : σ) (f : Store → Except Fault Store) :
    (change span f).Cautious := by
  intro st e st' h
  obtain ⟨_, -, -, rfl⟩ := change_eq_fault.mp h
  rfl

end Action

open CalcBasic.Action

theorem cautious_askFor (prompt : String) (name : Name σ) : (askFor prompt name).Cautious :=
  Observes.bind_cautious (store_ask _ _ _) fun _ =>
    Observes.bind_cautious (store_consult _) fun _ => cautious_change _ _

theorem cautious_put (v : Value) (target : Target σ) : (target.put v).Cautious := by
  cases target with
  | whole name => exact cautious_change name.span (·.assign name.text v)
  | element span name index =>
    exact Observes.bind_cautious (store_consult _) fun _ => cautious_change _ _

theorem observes_displayAll (span : σ) (es : List (Expr σ)) : (displayAll span es).Observes := by
  induction es with
  | nil => exact fun _ => rfl
  | cons e es ih =>
    exact Observes.bind (store_consult _) fun _ => Observes.bind (store_write _ _) fun _ => ih

/-- A command that fails has changed no variable, unless it asks for several values. -/
theorem Command.cautious_exec (config : Config) (span : σ) {c : Command σ}
    (hc : ∀ names, c ≠ .prompt names) : (c.exec config span).Cautious := by
  cases c with
  | evaluate e => exact (Observes.cautious (store_consult _)).bind_pure _
  | display es => exact (observes_displayAll span es).cautious.bind_pure _
  | store e target =>
    exact Observes.bind_cautious (store_consult _) fun v => (cautious_put v target).bind_pure _
  | prompt names => exact absurd rfl (hc names)
  | input text name => exact (cautious_askFor _ name).bind_pure _
  | label _ | goto _ | stop => exact Observes.cautious fun _ => rfl

/-! ## Statements that are not executed -/

/-- The number of statements counted does not go down. -/
structure Action.Ascends (x : Action σ α) (Q : α → Prop) : Prop where
  steps : ∀ st, st.steps ≤ (x st).2.steps
  done : ∀ st a st', x st = (.done a, st') → Q a

theorem Action.Ascends.bind {x : Action σ α} {f : α → Action σ β} {Q : α → Prop} {R : β → Prop}
    (hx : x.Ascends Q) (hf : ∀ a, Q a → (f a).Ascends R) : (x >>= f).Ascends R where
  steps st := by
    have hle := hx.steps st
    rw [bind_apply]
    rcases hr : x st with ⟨(a | e | _), mid⟩ <;> rw [hr] at hle
    · exact hle.trans ((hf a (hx.done st a mid hr)).steps mid)
    · exact hle
    · exact hle
  done st b st' h := by
    obtain ⟨a, mid, hdone, h⟩ := bind_eq_done.mp h
    exact (hf a (hx.done st a mid hdone)).done mid b st' h

theorem Action.ascends_pure {a : α} {Q : α → Prop} (ha : Q a) :
    (pure a : Action σ α).Ascends Q where
  steps _ := Nat.le_refl _
  done _ _ _ h := (pure_eq_done.mp h).1 ▸ ha

/-- That the count does not go down goes along with composition. -/
def Action.ascending (σ : Type) : Action.Logic σ where
  Holds := Ascends
  pure := ascends_pure
  bind := Ascends.bind
  unfinished := ⟨fun _ => Nat.le_refl _, fun _ _ _ h => (by cases h)⟩

theorem Action.Plain.ascends {x : Action σ α} (hx : x.Plain) : x.Ascends fun _ => True :=
  ⟨fun st => (hx.steps st).ge, fun _ _ _ _ => trivial⟩

theorem Action.ascending_rules (config : Config) :
    (Action.ascending σ).Rules config fun _ => True where
  consult _ := (plain_consult _).ascends
  change _ f := (plain_change _ f).ascends
  count _ := ⟨fun st => (steps_count config _ st).symm ▸ Nat.le_succ _, fun _ _ _ _ => trivial⟩
  write _ line := (plain_write _ line).ascends
  ask _ name prompt := (plain_ask _ name prompt).ascends

theorem Outcome.steps_onward {next : Action σ (Flow σ)} {Q : Flow σ → Prop}
    (h : next.Ascends Q) (o : Outcome σ (Flow σ) × State) :
    o.2.steps ≤ (onward next o).2.steps := by
  rcases o with ⟨((_ | _ | _) | _ | _), st⟩
  · exact h.steps st
  all_goals exact Nat.le_refl _

theorem State.executed_mono {st st' : State} (h : st.steps ≤ st'.steps) (limit? : Option Nat) :
    st.executed limit? ≤ st'.executed limit? := by
  cases limit? with
  | none => exact h
  | some limit => exact min_le_min_right limit h

section Idle

variable {config : Config} {fuel : Nat} {s : Stmt σ} {ss body : List (Stmt σ)} {st st' : State}
  {e : Located σ} {o : Outcome σ (Flow σ)}

theorem Stmt.ascends_execAll (config : Config) (fuel : Nat) (ss : List (Stmt σ)) :
    (execAll config fuel ss).Ascends (Flow.Allowed fun _ _ => True) :=
  Action.Logic.execAll_holds (Action.Logic.covers_of_rules (Action.ascending_rules config)) ss
    fun _ _ => trivial

theorem Stmt.ascends_perform (config : Config) (fuel : Nat) (s : Stmt σ) :
    (s.perform config fuel).Ascends (Flow.Allowed fun _ _ => True) :=
  Action.Logic.perform_holds (Action.Logic.covers_of_rules (Action.ascending_rules config)) s
    trivial

theorem ascends_whileTrue (config : Config) (fuel : Nat) (condition : Expr σ)
    (body : List (Stmt σ)) (n : Nat) :
    (whileTrue condition (Stmt.execAll config fuel body) n).Ascends
      (Flow.Allowed fun _ _ => True) :=
  Action.Logic.whileTrue_holds (L := ascending σ) (plain_consult _).ascends
    (Stmt.ascends_execAll config fuel body) n

theorem ascends_countThrough (config : Config) (fuel : Nat) (name : Name σ) (r : Stride)
    (body : List (Stmt σ)) (n : Nat) (counter : Float) :
    (countThrough name r (Stmt.execAll config fuel body) n counter).Ascends
      (Flow.Allowed fun _ _ => True) :=
  Action.Logic.countThrough_holds (L := ascending σ) r (fun _ => (plain_change _ _).ascends)
    (Stmt.ascends_execAll config fuel body) n counter

/-- What executes no statement from a state on: the statements that are counted meanwhile are beyond
the limit. -/
def Idle (config : Config) (st st' : State) : Prop :=
  st'.executed config.stepLimit ≤ st.steps

/-- The step limit forbids a statement, which is counted nevertheless. -/
def Refused (config : Config) (st : State) (s : Stmt σ) (o : Outcome σ (Flow σ) × State) : Prop :=
  ∃ limit ∈ config.stepLimit, limit ≤ st.steps ∧
    o = (.fault ⟨.stepLimit limit, s.span⟩, { st with steps := st.steps + 1 })

theorem Idle.of_le {mid : State} (h : Idle config st st') (hle : mid.steps ≤ st'.steps) :
    Idle config st mid := (State.executed_mono hle _).trans h

/-- A statement is executed unless the limit forbids it. -/
theorem Stmt.exec_of_idle (h : s.exec config fuel st = (o, st')) (hidle : Idle config st st') :
    Refused config st s (o, st') := by
  rw [exec_eq] at h
  obtain ⟨hallows, hcount⟩ | ⟨limit, hlimit, hle, hcount⟩ := Action.count_cases config s.span st
  · have hperform := (ascends_perform config fuel s).steps { st with steps := st.steps + 1 }
    rw [Action.bind_apply, hcount] at h
    dsimp only at h
    rw [h] at hperform
    exact absurd (State.lt_executed.mpr ⟨hperform, hallows⟩) (Nat.not_lt.mpr hidle)
  · rw [Action.bind_apply, hcount] at h
    exact ⟨limit, hlimit, hle, h.symm⟩

/-- **Blocks.** A block of which no statement is executed has none, or the limit forbids its first
one. -/
theorem Stmt.execAll_of_idle (h : execAll config fuel ss st = (o, st'))
    (hidle : Idle config st st') :
    ss = [] ∧ o = .done .proceed ∧ st' = st ∨
      ∃ s rest, ss = s :: rest ∧ Refused config st s (o, st') := by
  cases ss with
  | nil =>
    rw [execAll] at h
    cases h
    exact .inl ⟨rfl, rfl, rfl⟩
  | cons s rest =>
    rw [execAll_cons] at h
    have hle := Outcome.steps_onward (ascends_execAll config fuel rest) (s.exec config fuel st)
    rw [h] at hle
    rcases hs : s.exec config fuel st with ⟨o, mid⟩
    rw [hs] at h hle
    obtain ⟨limit, hlimit, hsteps, hrefused⟩ := exec_of_idle hs (hidle.of_le hle)
    cases hrefused
    exact .inr ⟨s, rest, rfl, limit, hlimit, hsteps, h.symm⟩

/-! ## Loops that execute nothing -/

/-- A `While` loop that executes no statement changes no variable, by induction on the rounds. -/
theorem store_whileTrue_of_idle {condition : Expr σ} {n : Nat}
    (h : whileTrue condition (Stmt.execAll config fuel body) n st = (o, st'))
    (hidle : Idle config st st') : st'.store = st.store := by
  induction n with
  | zero =>
    cases h
    rfl
  | succ n ih =>
    rw [whileTrue_succ] at h
    cases hcondition : condition.evalNumber st.store .whileCondition with
    | error e =>
      rw [hcondition] at h
      cases h
      rfl
    | ok x =>
      rw [hcondition] at h
      dsimp only at h
      by_cases hx : isTrue x
      · rw [if_pos hx] at h
        have hle := Outcome.steps_onward (ascends_whileTrue config fuel condition body n)
          (Stmt.execAll config fuel body st)
        rw [h] at hle
        rcases hbody : Stmt.execAll config fuel body st with ⟨o, mid⟩
        rw [hbody] at h hle
        obtain ⟨-, rfl, rfl⟩ | ⟨_, _, -, limit, _, _, hrefused⟩ :=
          Stmt.execAll_of_idle hbody (hidle.of_le hle)
        · exact ih h
        · cases hrefused
          cases h
          rfl
      · rw [if_neg hx] at h
        cases h
        rfl

/-- A counting loop without statements does not fail. -/
theorem countThrough_nil_ne_fault {name : Name σ} (hname : Region.of name.text ≠ .list)
    (r : Stride) (n : Nat) (counter : Float) (st : State) :
    (countThrough name r (Stmt.execAll config fuel []) n counter st).1 ≠ .fault e := by
  induction n generalizing counter st with
  | zero => exact nofun
  | succ n ih =>
    by_cases hc : r.holds counter
    · obtain ⟨store, hstore⟩ := Store.exists_assign_number hname st.store counter
      rw [countThrough_of_holds hc hstore]
      exact ih _ _
    · rw [countThrough_succ, if_neg hc]
      exact nofun

/-- A counting loop that fails and executes no statement does so in its first round, at the first
statement of its body. -/
theorem countThrough_of_idle {name : Name σ} (hname : Region.of name.text ≠ .list) {r : Stride}
    {n : Nat} {counter : Float}
    (hfault : countThrough name r (Stmt.execAll config fuel body) n counter st = (.fault e, st'))
    (hidle : Idle config st st') :
    ∃ s rest store, body = s :: rest ∧
      st.store.assign name.text (.number counter) = .ok store ∧
      Refused config { st with store } s (.fault e, st') := by
  cases n with
  | zero => cases hfault
  | succ n =>
    by_cases hc : r.holds counter
    · obtain ⟨store, hstore⟩ := Store.exists_assign_number hname st.store counter
      rw [countThrough_of_holds hc hstore] at hfault
      have hle := Outcome.steps_onward (ascends_countThrough config fuel name r body n
        (counter + r.step)) (Stmt.execAll config fuel body { st with store })
      rw [hfault] at hle
      rcases hround : Stmt.execAll config fuel body { st with store } with ⟨o, mid⟩
      rw [hround] at hfault hle
      have hidle : Idle config { st with store } st' := hidle
      obtain ⟨rfl, rfl, rfl⟩ | ⟨s, rest, rfl, limit, hlimit, hsteps, hrefused⟩ :=
        Stmt.execAll_of_idle hround (hidle.of_le hle)
      · exact absurd (congrArg Prod.fst hfault) (countThrough_nil_ne_fault hname r n _ _)
      · cases hrefused
        exact ⟨s, rest, store, rfl, hstore, limit, hlimit, hsteps, hfault.symm⟩
    · rw [countThrough_succ, if_neg hc] at hfault
      cases hfault

end Idle

/-! ## Heads of counting loops -/

/-- The fault is neither that of a start value which is a list nor that of the step limit. -/
def Fault.Preliminary : Fault → Prop
  | wrongKind .forCounter _ _ | stepLimit _ => False
  | _ => True

theorem Fault.preliminary_of_about {fault : Fault} {name : String} (h : fault.About name) :
    fault.Preliminary := by
  cases fault with
  | wrongKind purpose expected got => cases purpose <;> trivial
  | stepLimit limit => exact h
  | _ => trivial

/-- Having preliminary faults. -/
def Discipline.preliminary : Discipline := ofFaults Fault.Preliminary fun _ => Fault.Preliminary

theorem Discipline.evaluates_preliminary : preliminary.Evaluates where
  get s name _ _ := (s.get_about name).mono (fun _ => Fault.preliminary_of_about) fun _ _ => trivial
  element s name i _ _ :=
    (s.element_about name i).mono (fun _ => Fault.preliminary_of_about) fun _ _ => trivial
  operand _ := trivial
  signed _ := trivial
  listItem := trivial

theorem Expr.preliminary_of_eval {e : Expr σ} {s : Store} {l : Located σ}
    (h : e.eval s = .error l) : l.fault.Preliminary := by
  have heval := Discipline.evaluates_preliminary.eval (s := s) trivial e Discipline.fits_ofFaults
  rw [h] at heval
  exact heval

theorem Range.preliminary_of_stride {r : Range σ} {span : σ} {s : Store} {l : Located σ}
    (h : r.stride span s = .error l) : l.fault.Preliminary := by
  have hstride := Discipline.evaluates_preliminary.stride (s := s) trivial span (r := r)
    Discipline.fits_ofFaults trivial trivial trivial
  rw [h] at hstride
  exact hstride

theorem Store.preliminary_of_assign {s : Store} {name : String} {v : Value} {fault : Fault}
    (h : s.assign name v = .error fault) : fault.Preliminary := by
  have hassign := s.assign_about name v
  rw [h] at hassign
  exact Fault.preliminary_of_about hassign

/-- The head of a counting loop fails before it stores anything, or because the value that it has
stored is a list. The fault tells which it is. -/
theorem Range.enter_eq_fault {r : Range σ} {span : σ} {st st' : State} {e : Located σ}
    (h : r.enter span st = (.fault e, st')) :
    st' = st ∧ e.fault.Preliminary ∨ ∃ l, r.start.eval st.store = .ok (.list l) ∧
      st.store.assign r.counter.text (.list l) = .ok st'.store ∧
      e = ⟨.wrongKind .forCounter .number .list, r.counter.span⟩ := by
  simp only [enter, bind_eq_fault, consult_eq_fault, consult_eq_done, change_eq_fault,
    change_eq_done] at h
  obtain ⟨hstride, rfl⟩ | ⟨stride, _, ⟨-, rfl⟩, h⟩ := h
  · exact .inl ⟨rfl, preliminary_of_stride hstride⟩
  obtain ⟨hstart, rfl⟩ | ⟨v, _, ⟨hstart, rfl⟩, h⟩ := h
  · exact .inl ⟨rfl, Expr.preliminary_of_eval hstart⟩
  obtain ⟨_, hassign, rfl, rfl⟩ | ⟨_, _, ⟨store, hassign, rfl⟩, h⟩ := h
  · exact .inl ⟨rfl, Store.preliminary_of_assign hassign⟩
  obtain ⟨hnumber, rfl⟩ | ⟨_, _, -, h⟩ := h
  · cases v with
    | number x => cases hnumber
    | list l =>
      cases hnumber
      exact .inr ⟨l, hstart, hassign, rfl⟩
  · cases h

/-! ## Statements -/

namespace Stmt

variable {config : Config} {fuel : Nat} {s : Stmt σ} {st st' : State} {e : Located σ}

/-- The statement, which is the `n`-th one counted, is a counting loop with this variable and this
start value, and it has met the fault behind the assignment of the start value: the value is a list,
or the step limit allows the loop and forbids the first statement of its body. -/
inductive Started (config : Config) (vars : Store) (n : Nat) (e : Located σ) :
    Stmt σ → Name σ → Value → Prop
  | list {span : σ} {range : Range σ} {body : List (Stmt σ)} {l : Numbers}
      (start : range.start.eval vars = .ok (.list l))
      (fault : e = ⟨.wrongKind .forCounter .number .list, range.counter.span⟩) :
      Started config vars n e (forLoop span range body) range.counter (.list l)
  | number {span : σ} {range : Range σ} {first : Stmt σ} {rest : List (Stmt σ)} {x : Float}
      (start : range.start.eval vars = .ok (.number x)) (limit : config.stepLimit = some n)
      (fault : e = ⟨.stepLimit n, first.span⟩) :
      Started config vars n e (forLoop span range (first :: rest)) range.counter (.number x)

theorem Started.start {vars : Store} {n : Nat} {name : Name σ} {v : Value}
    (h : Started config vars n e s name v) : ∃ span range body, s = forLoop span range body ∧
      name = range.counter ∧ range.start.eval vars = .ok v := by
  cases h with
  | list start _ | number start _ _ => exact ⟨_, _, _, rfl, rfl, start⟩

theorem Started.unique {vars : Store} {n : Nat} {name name' : Name σ} {v v' : Value}
    (h : Started config vars n e s name v) (h' : Started config vars n e s name' v') :
    name' = name ∧ v' = v := by
  obtain ⟨_, _, _, rfl, rfl, hv⟩ := h.start
  obtain ⟨_, _, _, hs, rfl, hv'⟩ := h'.start
  cases hs
  exact ⟨rfl, Except.ok.inj (hv'.symm.trans hv)⟩

theorem Started.not_preliminary {vars : Store} {n : Nat} {name : Name σ} {v : Value}
    (h : Started config vars n e s name v) : ¬ e.fault.Preliminary := by
  cases h with
  | list _ fault | number _ _ fault =>
    rw [fault]
    exact id

/-- A statement that has been counted fails: nothing has changed, or it has met the fault behind the
assignment of its start value, and its variable has this value. -/
def Fails (config : Config) (st st' : State) (e : Located σ) (s : Stmt σ) : Prop :=
  st'.store = st.store ∧ (∀ name v, ¬ Started config st.store st.steps e s name v) ∨
    ∃ name v, Started config st.store st.steps e s name v ∧ st'.store.get name.text = .ok v ∧
      st.store.AgreesBut [name.text] st'.store

/-- A counting loop that fails before it executes a statement. -/
theorem perform_forLoop_of_idle {span : σ} {range : Range σ} {body : List (Stmt σ)}
    (hallows : Flat.Allows config st.steps)
    (h : (forLoop span range body).perform config fuel st = (.fault e, st'))
    (hidle : Idle config st st') : Fails config st st' e (forLoop span range body) := by
  have hcounter : range.counter.text ∈ [range.counter.text] := List.mem_cons_self
  obtain henter | ⟨⟨stride, start⟩, entered, henter, hrounds⟩ := bind_eq_fault.mp h
  · obtain ⟨rfl, hfault⟩ | ⟨l, hstart, hassign, he⟩ := Range.enter_eq_fault henter
    · exact .inl ⟨rfl, fun _ _ hstarted => hstarted.not_preliminary hfault⟩
    · exact .inr ⟨range.counter, .list l, .list hstart he, Store.get_assign hassign,
        Store.agreesBut_assign hassign hcounter⟩
  · obtain ⟨-, hstart, hassign, hentered⟩ := Range.enter_eq_done henter
    have hname : Region.of range.counter.text ≠ .list := Store.region_of_assign_number hassign
    have hsteps : entered.steps = st.steps := by rw [hentered]
    have hidle' : Idle config entered st' := by
      unfold Idle
      rw [hsteps]
      exact hidle
    obtain ⟨first, rest, store, rfl, hagain, limit, hlimit, hle, hrefused⟩ :=
      countThrough_of_idle hname hrounds hidle'
    cases hrefused
    obtain rfl : limit = st.steps := Nat.le_antisymm (hsteps ▸ hle) (hallows limit hlimit)
    exact .inr ⟨range.counter, .number start, .number hstart hlimit rfl, Store.get_assign hagain,
      (Store.agreesBut_assign hassign hcounter).trans (Store.agreesBut_assign hagain hcounter)⟩

/-- A block that executes no statement changes no variable. -/
theorem store_execAll_of_idle {ss : List (Stmt σ)} {o : Outcome σ (Flow σ)}
    (h : execAll config fuel ss st = (o, st')) (hidle : Idle config st st') :
    st'.store = st.store := by
  obtain ⟨-, -, rfl⟩ | ⟨_, _, -, _, _, _, hrefused⟩ := execAll_of_idle h hidle
  · rfl
  · cases hrefused
    rfl

/-- A condition changes no variable, so what follows it decides. -/
theorem store_of_consult {f : Store → Except (Located σ) α} {next : α → Action σ β}
    (h : (consult f >>= next) st = (.fault e, st'))
    (hnext : ∀ a, next a st = (.fault e, st') → st'.store = st.store) : st'.store = st.store := by
  obtain h | ⟨a, mid, hdone, h⟩ := bind_eq_fault.mp h
  · exact Observes.cautious (store_consult f) st e st' h
  · obtain ⟨-, rfl⟩ := consult_eq_done.mp hdone
    exact hnext a h

theorem fails_of_store (hs : ∀ span range body, s ≠ .forLoop span range body)
    (h : st'.store = st.store) : Fails config st st' e s :=
  .inl ⟨h, fun _ _ hstarted => by cases hstarted <;> exact hs _ _ _ rfl⟩

/-- A statement that is counted and then fails before it executes a statement. -/
theorem perform_of_idle (hprompt : ∀ span names, s ≠ .command span (.prompt names))
    (hallows : Flat.Allows config st.steps) (h : s.perform config fuel st = (.fault e, st'))
    (hidle : Idle config st st') : Fails config st st' e s := by
  cases s with
  | command span c =>
    have hc : ∀ names, c ≠ .prompt names := fun names hc => hprompt span names (hc ▸ rfl)
    exact fails_of_store nofun (Command.cautious_exec config span hc _ e st' h)
  | ifThen span condition body =>
    refine fails_of_store nofun (store_of_consult h fun x h => ?_)
    by_cases hx : isTrue x
    · rw [if_pos hx] at h
      exact store_execAll_of_idle h hidle
    · rw [if_neg hx] at h
      cases h
  | ifElse span condition body otherwise =>
    refine fails_of_store nofun (store_of_consult h fun x h => ?_)
    rw [← apply_ite (execAll config fuel)] at h
    exact store_execAll_of_idle h hidle
  | whileLoop span condition body => exact fails_of_store nofun (store_whileTrue_of_idle h hidle)
  | forLoop span range body => exact perform_forLoop_of_idle hallows h hidle

theorem exec_of_fault (hprompt : ∀ span names, s ≠ .command span (.prompt names))
    (hfault : s.exec config fuel st = (.fault e, st'))
    (hfirst : st'.executed config.stepLimit ≤ st.steps + 1) :
    Fails config { st with steps := st.steps + 1 } st' e s := by
  rw [exec_eq, bind_apply] at hfault
  obtain ⟨hallows, hcount⟩ | ⟨limit, hlimit, hle, hcount⟩ := count_cases config s.span st
  · rw [hcount] at hfault
    exact perform_of_idle hprompt hallows hfault hfirst
  · -- a limit that forbids the statement itself is lower than one that forbids its body
    rw [hcount] at hfault
    cases hfault
    refine .inl ⟨rfl, fun name v hstarted => ?_⟩
    cases hstarted with
    | list _ fault => cases fault
    | number _ hstep _ =>
      rw [hstep] at hlimit
      cases hlimit
      exact absurd hle (Nat.not_succ_le_self _)

/-- **Failing statements.** Let a statement other than `Prompt` fail before a statement of one of its
blocks is executed. If it is a counting loop that has met the fault behind the assignment of its start
value, then its variable has this value and no other variable has changed. Otherwise no variable has
changed. -/
theorem store_of_fault (config : Config) (fuel : Nat) {s : Stmt σ} {st st' : State} {e : Located σ}
    (hprompt : ∀ span names, s ≠ .command span (.prompt names))
    (hfault : s.exec config fuel st = (.fault e, st'))
    (hfirst : st'.executed config.stepLimit ≤ st.steps + 1) :
    (∀ name v, Started config st.store (st.steps + 1) e s name v →
      st'.store.get name.text = .ok v ∧ st.store.AgreesBut [name.text] st'.store) ∧
    ((∀ name v, ¬ Started config st.store (st.steps + 1) e s name v) → st'.store = st.store) := by
  obtain ⟨hstore, hnot⟩ | ⟨name, v, hstarted, hkept⟩ := exec_of_fault hprompt hfault hfirst
  · exact ⟨fun name v hstarted => absurd hstarted (hnot name v), fun _ => hstore⟩
  · refine ⟨fun name' v' hstarted' => ?_, fun hnot => absurd hstarted (hnot name v)⟩
    obtain ⟨rfl, rfl⟩ := hstarted.unique hstarted'
    exact hkept

end Stmt

/-- Whether a program is one store that fails on a fresh machine. -/
def Program.failsStoring : Program Span → Bool
  | ⟨[.command span (.store value target)]⟩ =>
    match (Stmt.command span (.store value target)).exec ⟨none, "?"⟩ 1
      ⟨.fresh, { input := [] }, 0⟩ with
    | (.fault _, st) => st.executed none ≤ 1
    | _ => false
  | _ => false

/-- Whether a program is a counting loop that, on a fresh machine, meets the fault behind the
assignment of its start value. -/
def Program.failsStarted (limit? : Option Nat) : Program Span → Bool
  | ⟨[.forLoop span range body]⟩ =>
    match (Stmt.forLoop span range body).exec ⟨limit?, "?"⟩ 1 ⟨.fresh, { input := [] }, 0⟩ with
    | (.fault e, st) =>
      st.executed limit? ≤ 1 &&
        match range.start.eval Store.fresh, body with
        | .ok (.list _), _ => e = ⟨.wrongKind .forCounter .number .list, range.counter.span⟩
        | .ok (.number _), first :: _ => limit? = some 1 && e = ⟨.stepLimit 1, first.span⟩
        | _, _ => false
    | _ => false
  | _ => false

theorem Program.exists_of_failsStarted (source : String) (limit? : Option Nat)
    (h : (Program.parse source).toOption.any (Program.failsStarted limit?) = true) :
    ∃ span range body, Program.parse source = .ok ⟨[.forLoop span range body]⟩ ∧
      ∃ e st' v, (Stmt.forLoop span range body).exec ⟨limit?, "?"⟩ 1
          ⟨.fresh, { input := [] }, 0⟩ = (.fault e, st') ∧ st'.executed limit? ≤ 1 ∧
        Stmt.Started ⟨limit?, "?"⟩ .fresh 1 e (.forLoop span range body) range.counter v := by
  obtain ⟨p, hp, h⟩ := Program.exists_of_parse h
  unfold failsStarted at h
  split at h
  · split at h
    · next e st hexec =>
      obtain ⟨hfirst, hcause⟩ := (Bool.and_eq_true _ _).mp h
      refine ⟨_, _, _, hp, e, st, ?_⟩
      clear h
      split at hcause
      · next hstart =>
        exact ⟨_, hexec, of_decide_eq_true hfirst, .list hstart (of_decide_eq_true hcause)⟩
      · next hstart =>
        obtain ⟨hlimit, he⟩ := (Bool.and_eq_true _ _).mp hcause
        exact ⟨_, hexec, of_decide_eq_true hfirst,
          .number hstart (of_decide_eq_true hlimit) (of_decide_eq_true he)⟩
      · cases hcause
    · cases h
  · cases h

/-- A store into an element that is not there fails and changes nothing. A counting loop fails with
its start value in the variable if this is a list, or if the limit allows the loop alone. -/
theorem Stmt.store_of_fault_cases :
    (∃ span value target,
      Program.parse "7→L₁(3)" = .ok ⟨[.command span (.store value target)]⟩ ∧
      ∃ e st', (command span (.store value target)).exec ⟨none, "?"⟩ 1
          ⟨.fresh, { input := [] }, 0⟩ = (.fault e, st') ∧
        st'.executed none ≤ 1 ∧ st'.store = .fresh) ∧
    (∃ span range body, Program.parse "For(⌊X,\x7b1\x7d,5)\nEnd" =
        .ok ⟨[.forLoop span range body]⟩ ∧
      ∃ e st' v, (forLoop span range body).exec ⟨none, "?"⟩ 1 ⟨.fresh, { input := [] }, 0⟩ =
          (.fault e, st') ∧
        range.start.eval Store.fresh = .ok v ∧ st'.store.get range.counter.text = .ok v ∧
        Store.fresh.AgreesBut [range.counter.text] st'.store) ∧
    ∃ span range body, Program.parse "For(A,1,5)\nDisp A\nEnd" =
        .ok ⟨[.forLoop span range body]⟩ ∧
      ∃ e st' v, (forLoop span range body).exec ⟨some 1, "?"⟩ 1 ⟨.fresh, { input := [] }, 0⟩ =
          (.fault e, st') ∧
        range.start.eval Store.fresh = .ok v ∧ st'.store.get range.counter.text = .ok v ∧
        Store.fresh.AgreesBut [range.counter.text] st'.store := by
  refine ⟨?_, ?_, ?_⟩
  · have hcheck : (Program.parse "7→L₁(3)").toOption.any Program.failsStoring = true := by
      decide +kernel
    obtain ⟨p, hp, hfails⟩ := Program.exists_of_parse hcheck
    unfold Program.failsStoring at hfails
    split at hfails
    · split at hfails
      · next st' hexec =>
        have hfirst : st'.executed none ≤ 1 := of_decide_eq_true hfails
        refine ⟨_, _, _, hp, _, st', hexec, hfirst, ?_⟩
        exact (Stmt.store_of_fault ⟨none, "?"⟩ 1 (by rintro _ _ ⟨⟩) hexec hfirst).2 nofun
      · cases hfails
    · cases hfails
  · obtain ⟨span, range, body, hp, e, st', v, hexec, hfirst, hstarted⟩ :=
      Program.exists_of_failsStarted "For(⌊X,\x7b1\x7d,5)\nEnd" none (by decide +kernel)
    obtain ⟨_, _, _, ⟨⟩, -, hstart⟩ := hstarted.start
    exact ⟨span, range, body, hp, e, st', v, hexec, hstart,
      (Stmt.store_of_fault ⟨none, "?"⟩ 1 (by rintro _ _ ⟨⟩) hexec hfirst).1 _ v hstarted⟩
  · obtain ⟨span, range, body, hp, e, st', v, hexec, hfirst, hstarted⟩ :=
      Program.exists_of_failsStarted "For(A,1,5)\nDisp A\nEnd" (some 1) (by decide +kernel)
    obtain ⟨_, _, _, ⟨⟩, -, hstart⟩ := hstarted.start
    exact ⟨span, range, body, hp, e, st', v, hexec, hstart,
      (Stmt.store_of_fault ⟨some 1, "?"⟩ 1 (by rintro _ _ ⟨⟩) hexec hfirst).1 _ v hstarted⟩

/-- Whether a program is a counting loop that, on a fresh machine, fails before it executes a
statement of its body and leaves a variable with another value. -/
def Program.failsChanging (limit? : Option Nat) (name : String) : Program Span → Bool
  | ⟨[.forLoop span range body]⟩ =>
    match (Stmt.forLoop span range body).exec ⟨limit?, "?"⟩ 1 ⟨.fresh, { input := [] }, 0⟩ with
    | (.fault _, st) => st.executed limit? ≤ 1 && st.store.get name ≠ Store.fresh.get name
    | _ => false
  | _ => false

theorem Program.exists_of_failsChanging {source : String} {limit? : Option Nat} (name : String)
    (h : (Program.parse source).toOption.any (Program.failsChanging limit? name) = true) :
    ∃ span range body, Program.parse source = .ok ⟨[.forLoop span range body]⟩ ∧
      ∃ e st', (Stmt.forLoop span range body).exec ⟨limit?, "?"⟩ 1
          ⟨.fresh, { input := [] }, 0⟩ = (.fault e, st') ∧
        st'.executed limit? ≤ 1 ∧ st'.store ≠ .fresh := by
  obtain ⟨p, hp, h⟩ := Program.exists_of_parse h
  unfold failsChanging at h
  split at h
  · split at h
    · next st hexec =>
      rw [Bool.and_eq_true, decide_eq_true_eq, decide_eq_true_eq] at h
      exact ⟨_, _, _, hp, _, st, hexec, h.1, fun hst => h.2 (hst ▸ rfl)⟩
    · cases h
  · cases h

/-- A counting loop that starts at a list fails and leaves its variable with the list. One whose
first statement is beyond the step limit leaves its variable at the start value. -/
theorem Stmt.fault_changes_counter :
    (∃ span range body, Program.parse "For(⌊X,\x7b1\x7d,5)\nEnd" =
        .ok ⟨[.forLoop span range body]⟩ ∧
      ∃ e st', (forLoop span range body).exec ⟨none, "?"⟩ 1 ⟨.fresh, { input := [] }, 0⟩ =
          (.fault e, st') ∧
        st'.executed none ≤ 1 ∧ st'.store ≠ .fresh) ∧
    ∃ span range body, Program.parse "For(A,1,5)\nDisp A\nEnd" =
        .ok ⟨[.forLoop span range body]⟩ ∧
      ∃ e st', (forLoop span range body).exec ⟨some 1, "?"⟩ 1 ⟨.fresh, { input := [] }, 0⟩ =
          (.fault e, st') ∧
        st'.executed (some 1) ≤ 1 ∧ st'.store ≠ .fresh :=
  ⟨Program.exists_of_failsChanging "⌊X" (by decide +kernel),
    Program.exists_of_failsChanging "A" (by decide +kernel)⟩

end CalcBasic
