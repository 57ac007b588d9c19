import CalcBasic.Proofs.FlatSimulation
import CalcBasic.Proofs.Places

/-!
# Rules for execution

What single actions do carries over to whole runs. A logic (`Action.Logic`) states something of an
action and of the results it gives, in a way that goes along with composition.

1. If it holds of the basic actions at some places (`Rules`), it holds of what a statement with
   these places does by itself (`obeyed_of_places`).
2. Then it holds of the statements with their blocks (`perform_holds`, `execAll_holds`), by
   induction on the statements and, for a loop, on its fuel.
3. Then it holds of executing statements jump after jump (`runChain_holds`), by induction on the
   jumps.
-/

namespace CalcBasic

variable {σ α β : Type}

/-- Something that can be stated of actions and of their results, and that goes along with
composition. -/
structure Action.Logic (σ : Type) where
  Holds {α : Type} : Action σ α → (α → Prop) → Prop
  pure {α : Type} {a : α} {Q : α → Prop} : Q a → Holds (pure a) Q
  bind {α β : Type} {x : Action σ α} {f : α → Action σ β} {Q : α → Prop} {R : β → Prop} :
    Holds x Q → (∀ a, Q a → Holds (f a) R) → Holds (x >>= f) R
  unfinished {α : Type} {Q : α → Prop} : Holds (fun st => (.unfinished, st)) Q

/-- One action and, if it proceeds, the next. -/
def Action.andThen (x y : Action σ (Flow σ)) : Action σ (Flow σ) := do
  match ← x with
  | .proceed => y
  | stopped => return stopped

theorem Action.andThen_apply (x y : Action σ (Flow σ)) (st : State) :
    andThen x y st = Outcome.onward y (x st) := by
  unfold andThen
  rw [bind_apply]
  rcases x st with ⟨((_ | _ | _) | e | _), st'⟩ <;> rfl

/-! ## Statements, loops and blocks as compositions -/

/-- What a statement does once it is counted. -/
def Stmt.perform (config : Config) (fuel : Nat) : Stmt σ → Action σ (Flow σ)
  | command span c => c.exec config span
  | ifThen _ condition body =>
    Action.consult (condition.evalNumber · .ifCondition) >>= fun x =>
      if isTrue x then execAll config fuel body else pure .proceed
  | ifElse _ condition body otherwise =>
    Action.consult (condition.evalNumber · .ifCondition) >>= fun x =>
      if isTrue x then execAll config fuel body else execAll config fuel otherwise
  | whileLoop _ condition body => whileTrue condition (execAll config fuel body) fuel
  | forLoop span range body =>
    range.enter span >>= fun entry =>
      countThrough range.counter entry.1 (execAll config fuel body) fuel entry.2

theorem Stmt.exec_eq (config : Config) (fuel : Nat) (s : Stmt σ) :
    s.exec config fuel = Action.count config s.span >>= fun _ => s.perform config fuel := by
  cases s <;> rw [exec] <;> rfl

theorem Stmt.execAll_nil (config : Config) (fuel : Nat) :
    execAll config fuel ([] : List (Stmt σ)) = pure .proceed := by
  funext st
  rw [execAll]
  rfl

theorem Stmt.execAll_eq (config : Config) (fuel : Nat) (s : Stmt σ) (rest : List (Stmt σ)) :
    execAll config fuel (s :: rest) = Action.andThen (s.exec config fuel) (execAll config fuel rest)
    := by
  funext st
  rw [execAll_cons, Action.andThen_apply]

theorem whileTrue_eq (condition : Expr σ) (body : Action σ (Flow σ)) (fuel : Nat) :
    whileTrue condition body (fuel + 1) =
      Action.consult (condition.evalNumber · .whileCondition) >>= fun x =>
        if isTrue x then Action.andThen body (whileTrue condition body fuel)
        else pure .proceed := by
  funext st
  rw [whileTrue_succ, Action.bind_apply, Action.consult]
  cases condition.evalNumber st.store .whileCondition with
  | error e => rfl
  | ok x =>
    dsimp only
    by_cases hx : isTrue x
    · rw [if_pos hx, if_pos hx, Action.andThen_apply]
    · rw [if_neg hx, if_neg hx]
      rfl

theorem countThrough_eq (name : Name σ) (r : Stride) (body : Action σ (Flow σ)) (fuel : Nat)
    (counter : Float) :
    countThrough name r body (fuel + 1) counter =
      if r.holds counter then
        Action.change name.span (·.assign name.text (.number counter)) >>= fun _ =>
          Action.andThen body (countThrough name r body fuel (counter + r.step))
      else pure .proceed := by
  funext st
  rw [countThrough_succ]
  by_cases hc : r.holds counter
  · rw [if_pos hc, if_pos hc, Action.bind_apply, Action.change]
    cases st.store.assign name.text (.number counter) with
    | error fault => rfl
    | ok store =>
      dsimp only
      rw [Action.andThen_apply]
  · rw [if_neg hc, if_neg hc]
    rfl

/-- Goes on after the statements of a chain are executed: at a label, if they end in a jump. -/
def Landing.goOn (landing : Landing σ) (next : List (Stmt σ) → Action σ Unit) :
    Flow σ → Action σ Unit
  | .jump label span => Action.consult (fun _ => landing.find label span) >>= next
  | _ => pure ()

theorem runChain_eq (config : Config) (fuel : Nat) (landing : Landing σ) (jumps : Nat)
    (statements : List (Stmt σ)) :
    runChain config fuel landing (jumps + 1) statements =
      Stmt.execAll config fuel statements >>= landing.goOn (runChain config fuel landing jumps)
    := by
  funext st
  rw [runChain, Action.bind_apply]
  rcases Stmt.execAll config fuel statements st with ⟨((_ | ⟨label, span⟩ | _) | e | _), st'⟩
  · rfl
  · dsimp only [Landing.goOn]
    rw [Action.bind_apply, Action.consult]
    cases landing.find label span <;> rfl
  · rfl
  · rfl
  · rfl

theorem Program.runFrom_eq (config : Config) (fuel : Nat) (p : Program σ)
    (start? : Option Position) (st : State) :
    p.runFrom config fuel start? st =
      runChain config fuel p.landing (fuel + 1) (p.rest start?) { st with steps := 0 } := by
  cases start? <;> rfl

/-! ## The rules -/

/-- The flows with a jump only where it is allowed. -/
def Flow.Allowed (jumps : String → σ → Prop) : Flow σ → Prop
  | .jump label span => jumps label span
  | _ => True

namespace Action.Logic

variable (L : Action.Logic σ) (config : Config) (jumps : String → σ → Prop)

/-- The logic holds of what a statement does by itself, apart from its blocks. -/
def Obeyed (s : Stmt σ) : Prop :=
  L.Holds (Action.count config s.span) (fun _ => True) ∧
    match s with
    | .command span c => L.Holds (c.exec config span) (Flow.Allowed jumps)
    | .ifThen _ condition _ | .ifElse _ condition _ _ =>
      L.Holds (Action.consult (condition.evalNumber · .ifCondition)) fun _ => True
    | .whileLoop _ condition _ =>
      L.Holds (Action.consult (condition.evalNumber · .whileCondition)) fun _ => True
    | .forLoop span range _ =>
      L.Holds (range.enter span) (fun _ => True) ∧ ∀ x, L.Holds
        (Action.change range.counter.span (·.assign range.counter.text (.number x))) fun _ => True

/-- The logic holds of the basic actions at places with the property `P`. -/
structure Rules (P : σ → Prop) : Prop where
  consult {α : Type} {f : Store → Except (Located σ) α} (h : ∀ s l, f s = .error l → P l.span) :
    L.Holds (Action.consult f) fun _ => True
  change {span : σ} (h : P span) (f : Store → Except Fault Store) :
    L.Holds (Action.change span f) fun _ => True
  count {span : σ} (h : P span) : L.Holds (Action.count config span) fun _ => True
  write {span : σ} (h : P span) (line : String) : L.Holds (Action.write span line) fun _ => True
  ask {span : σ} (h : P span) (name prompt : String) :
    L.Holds (Action.ask span name prompt) fun _ => True

/-! ## Statements by themselves -/

section Statements

variable {L config} {P : σ → Prop} (hL : L.Rules config P)

include hL

theorem consult_eval {e : Expr σ} (he : ∀ place ∈ e.places, P place) :
    L.Holds (Action.consult e.eval) fun _ => True :=
  hL.consult fun _ l h => he l.span (e.eval_error h)

theorem consult_evalNumber {e : Expr σ} (he : ∀ place ∈ e.places, P place) (purpose : Purpose) :
    L.Holds (Action.consult (e.evalNumber · purpose)) fun _ => True :=
  hL.consult fun _ l h => he l.span (e.evalNumber_error h)

theorem askFor_holds {name : Name σ} (hname : P name.span) (prompt : String) :
    L.Holds (askFor prompt name) fun _ => True := by
  refine L.bind (hL.ask hname name.text prompt) fun line _ => ?_
  refine L.bind (hL.consult fun s l h => ?_) fun v _ => hL.change hname _
  rw [readAnswer_error h]
  exact hname

theorem put_holds {target : Target σ} (htarget : ∀ place ∈ target.places, P place) (v : Value) :
    L.Holds (target.put v) fun _ => True := by
  cases target with
  | whole name => exact hL.change (htarget _ List.mem_cons_self) (·.assign name.text v)
  | element span name index =>
    have hindex : ∀ place ∈ index.places, P place := fun place h =>
      htarget place (List.mem_cons_of_mem _ (List.mem_cons_of_mem _ h))
    exact L.bind (consult_eval hL hindex) fun i _ => hL.change (htarget _ List.mem_cons_self) _

theorem displayAll_holds {span : σ} (hspan : P span) (es : List (Expr σ))
    (hes : ∀ place ∈ Expr.placesAll es, P place) :
    L.Holds (displayAll span es) fun _ => True := by
  induction es with
  | nil => exact L.pure trivial
  | cons e es ih =>
    rw [Expr.placesAll, List.forall_mem_append] at hes
    refine L.bind (consult_eval hL hes.1) fun v _ => ?_
    exact L.bind (hL.write hspan _) fun _ _ => ih hes.2

theorem promptAll_holds (names : List (Name σ)) (hnames : ∀ name ∈ names, P name.span) :
    L.Holds (promptAll names) fun _ => True := by
  induction names with
  | nil => exact L.pure trivial
  | cons name names ih =>
    obtain ⟨hname, hnames⟩ := List.forall_mem_cons.mp hnames
    exact L.bind (askFor_holds hL hname _) fun _ _ => ih hnames

theorem command_holds {span : σ} (hspan : P span) (c : Command σ)
    (hc : ∀ place ∈ c.places, P place) :
    L.Holds (c.exec config span) (Flow.Allowed fun _ place => P place) := by
  cases c with
  | evaluate e => exact L.bind (consult_eval hL hc) fun _ _ => L.pure trivial
  | display es => exact L.bind (displayAll_holds hL hspan es hc) fun _ _ => L.pure trivial
  | store e target =>
    obtain ⟨he, htarget⟩ := List.forall_mem_append.mp hc
    refine L.bind (consult_eval hL he) fun v _ => ?_
    exact L.bind (put_holds hL htarget v) fun _ _ => L.pure trivial
  | prompt names =>
    have hnames : ∀ name ∈ names, P name.span := fun name h => hc _ (List.mem_map_of_mem h)
    exact L.bind (promptAll_holds hL names hnames) fun _ _ => L.pure trivial
  | input text name =>
    exact L.bind (askFor_holds hL (hc _ List.mem_cons_self) _) fun _ _ => L.pure trivial
  | label name => exact L.pure trivial
  | goto name => exact L.pure hspan
  | stop => exact L.pure trivial

theorem enter_holds {span : σ} (hspan : P span) {r : Range σ} (hr : ∀ place ∈ r.places, P place) :
    L.Holds (r.enter span) fun _ => True := by
  have hcounter : P r.counter.span := hr _ List.mem_cons_self
  have hstart : ∀ place ∈ r.start.places, P place := fun place h => hr place (by
    simp [Range.places, h])
  refine L.bind (hL.consult fun s l h => ?_) fun stride _ => ?_
  · obtain h | h := Range.stride_error h
    · rwa [h]
    · exact hr _ h
  · refine L.bind (consult_eval hL hstart) fun v _ => L.bind (hL.change hcounter _) fun _ _ => ?_
    refine L.bind (hL.consult fun s l h => ?_) fun start _ => L.pure trivial
    rwa [Value.expectNumber_error h]

/-- What holds of the basic actions at the places of a statement holds of what it does by itself. -/
theorem obeyed_of_places {s : Stmt σ} (hs : ∀ place ∈ s.places, P place) :
    L.Obeyed config (fun _ place => P place) s := by
  cases s with
  | command span c =>
    obtain ⟨hspan, hc⟩ := List.forall_mem_cons.mp hs
    exact ⟨hL.count hspan, command_holds hL hspan c hc⟩
  | ifThen span condition _ | ifElse span condition _ _ | whileLoop span condition _ =>
    obtain ⟨hspan, hc⟩ := List.forall_mem_cons.mp hs
    exact ⟨hL.count hspan, consult_evalNumber hL hc _⟩
  | forLoop span range _ =>
    obtain ⟨hspan, hr⟩ := List.forall_mem_cons.mp hs
    have hcounter : P range.counter.span := hr _ List.mem_cons_self
    exact ⟨hL.count hspan, enter_holds hL hspan hr, fun x => hL.change hcounter _⟩

end Statements

/-! ## Statements with their blocks -/

/-- The logic holds of some statements by themselves, and with a statement these include the
statements of its blocks. -/
structure Covers (P : Stmt σ → Prop) : Prop where
  obeyed : ∀ s, P s → L.Obeyed config jumps s
  inner : ∀ s, P s → ∀ b ∈ s.blocks, ∀ t ∈ b, P t

variable {L config jumps} {P : Stmt σ → Prop} {fuel : Nat}

theorem andThen_holds {x y : Action σ (Flow σ)} (hx : L.Holds x (Flow.Allowed jumps))
    (hy : L.Holds y (Flow.Allowed jumps)) : L.Holds (Action.andThen x y) (Flow.Allowed jumps) := by
  refine L.bind hx fun flow hflow => ?_
  cases flow with
  | proceed => exact hy
  | jump label span => exact L.pure hflow
  | halt => exact L.pure hflow

theorem whileTrue_holds {condition : Expr σ} {body : Action σ (Flow σ)}
    (hc : L.Holds (Action.consult (condition.evalNumber · .whileCondition)) fun _ => True)
    (hbody : L.Holds body (Flow.Allowed jumps)) (fuel : Nat) :
    L.Holds (whileTrue condition body fuel) (Flow.Allowed jumps) := by
  induction fuel with
  | zero => exact L.unfinished
  | succ fuel ih =>
    rw [whileTrue_eq]
    refine L.bind hc fun x _ => ?_
    by_cases hx : isTrue x
    · rw [if_pos hx]
      exact andThen_holds hbody ih
    · rw [if_neg hx]
      exact L.pure trivial

theorem countThrough_holds {name : Name σ} {body : Action σ (Flow σ)} (r : Stride)
    (hassign : ∀ x, L.Holds (Action.change name.span (·.assign name.text (.number x)))
      fun _ => True)
    (hbody : L.Holds body (Flow.Allowed jumps)) (fuel : Nat) (counter : Float) :
    L.Holds (countThrough name r body fuel counter) (Flow.Allowed jumps) := by
  induction fuel generalizing counter with
  | zero => exact L.unfinished
  | succ fuel ih =>
    rw [countThrough_eq]
    by_cases hc : r.holds counter
    · rw [if_pos hc]
      exact L.bind (hassign counter) fun _ _ => andThen_holds hbody (ih _)
    · rw [if_neg hc]
      exact L.pure trivial

mutual

theorem perform_holds (hP : L.Covers config jumps P) (s : Stmt σ) (hs : P s) :
    L.Holds (s.perform config fuel) (Flow.Allowed jumps) := by
  obtain ⟨-, hself⟩ := hP.obeyed s hs
  have hinner := hP.inner s hs
  cases s with
  | command span c => exact hself
  | ifThen span condition body =>
    have hbody : ∀ t ∈ body, P t := hinner body List.mem_cons_self
    refine L.bind hself fun x _ => ?_
    by_cases hx : isTrue x
    · rw [if_pos hx]
      exact execAll_holds hP body hbody
    · rw [if_neg hx]
      exact L.pure trivial
  | ifElse span condition body otherwise =>
    have hbody : ∀ t ∈ body, P t := hinner body List.mem_cons_self
    have hotherwise : ∀ t ∈ otherwise, P t :=
      hinner otherwise (List.mem_cons_of_mem _ List.mem_cons_self)
    refine L.bind hself fun x _ => ?_
    by_cases hx : isTrue x
    · rw [if_pos hx]
      exact execAll_holds hP body hbody
    · rw [if_neg hx]
      exact execAll_holds hP otherwise hotherwise
  | whileLoop span condition body =>
    have hbody : ∀ t ∈ body, P t := hinner body List.mem_cons_self
    exact whileTrue_holds hself (execAll_holds hP body hbody) fuel
  | forLoop span range body =>
    have hbody : ∀ t ∈ body, P t := hinner body List.mem_cons_self
    refine L.bind hself.1 fun entry _ => ?_
    exact countThrough_holds entry.1 hself.2 (execAll_holds hP body hbody) fuel entry.2

/-- **Blocks.** What holds of statements by themselves holds of executing them. -/
theorem execAll_holds (hP : L.Covers config jumps P) (ss : List (Stmt σ)) (hss : ∀ s ∈ ss, P s) :
    L.Holds (Stmt.execAll config fuel ss) (Flow.Allowed jumps) := by
  cases ss with
  | nil =>
    rw [Stmt.execAll_nil]
    exact L.pure trivial
  | cons s rest =>
    obtain ⟨hs, hrest⟩ := List.forall_mem_cons.mp hss
    rw [Stmt.execAll_eq, Stmt.exec_eq]
    refine andThen_holds ?_ (execAll_holds hP rest hrest)
    exact L.bind (hP.obeyed s hs).1 fun _ _ => perform_holds hP s hs

end

/-- **Runs.** What holds of statements by themselves holds of executing them jump after jump, if the
jumps lead to such statements again. -/
theorem runChain_holds (hP : L.Covers config jumps P) {landing : Landing σ}
    (hland : ∀ label span, jumps label span →
      L.Holds (Action.consult fun _ => landing.find label span) fun target => ∀ t ∈ target, P t)
    (n : Nat) {statements : List (Stmt σ)} (hss : ∀ s ∈ statements, P s) :
    L.Holds (runChain config fuel landing n statements) fun _ => True := by
  induction n generalizing statements with
  | zero => exact L.unfinished
  | succ n ih =>
    rw [runChain_eq]
    refine L.bind (execAll_holds hP statements hss) fun flow hflow => ?_
    cases flow with
    | proceed => exact L.pure trivial
    | halt => exact L.pure trivial
    | jump label span => exact L.bind (hland label span hflow) fun target htarget => ih htarget

/-- What holds of the basic actions at all places holds of all statements by themselves. -/
theorem covers_of_rules (hL : L.Rules config fun _ => True) :
    L.Covers config (fun _ (_ : σ) => True) fun _ => True :=
  ⟨fun _ _ => obeyed_of_places hL fun _ _ => trivial, fun _ _ _ _ _ _ => trivial⟩

/-- What holds of the basic actions at all places holds of the runs of all programs. -/
theorem runChain_holds_of_rules (hL : L.Rules config fun _ => True) (landing : Landing σ) (n : Nat)
    (statements : List (Stmt σ)) :
    L.Holds (runChain config fuel landing n statements) fun _ => True := by
  refine runChain_holds (covers_of_rules hL) (fun label span _ => ?_) n fun _ _ => trivial
  simpa using hL.consult (f := fun _ => landing.find label span) fun _ _ _ => trivial

end Action.Logic

end CalcBasic
