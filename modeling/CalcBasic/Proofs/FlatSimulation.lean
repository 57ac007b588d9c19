import CalcBasic.Proofs.Actions
import CalcBasic.Proofs.FlatMachine

/-!
# Nested execution and the flat machine

`Program.runFrom` recurses into blocks and hands jumps up to the top; the flat machine keeps frames
on a stack. They end alike (`runFrom_iff_flat`).

1. `Meets` relates an outcome of nested execution to a run of the machine: a finished outcome is
   reached, and an unfinished one means that the machine is still running after at least as many
   steps as there was fuel.
2. The statements of a chain meet the machine whatever is on its stack (`execAll_meets`), by
   induction on the statements; a loop meets it by induction on its own fuel.
3. After each jump the machine has an empty stack, as at the beginning, so whole runs meet it by
   induction on the number of jumps (`runChain_meets`).
4. The machine is a function, and it stays where it has ended. So a run of the machine that ends
   in `n` steps leaves nested execution with more fuel than `n` no choice but to finish, and with
   the same end.
-/

namespace CalcBasic

variable {σ α : Type}

/-! ## Executing as long as statements proceed -/

/-- Goes on from an outcome that proceeds; any other outcome stands. -/
def Outcome.onward (next : State → Outcome σ (Flow σ) × State) :
    Outcome σ (Flow σ) × State → Outcome σ (Flow σ) × State
  | (.done .proceed, st) => next st
  | stopped => stopped

theorem Stmt.execAll_cons (config : Config) (fuel : Nat) (s : Stmt σ) (rest : List (Stmt σ))
    (st : State) :
    execAll config fuel (s :: rest) st =
      Outcome.onward (execAll config fuel rest) (s.exec config fuel st) := by
  rw [execAll]
  rcases s.exec config fuel st with ⟨(flow | e | _), st⟩
  · cases flow <;> rfl
  · rfl
  · rfl

theorem whileTrue_succ (condition : Expr σ) (body : Action σ (Flow σ)) (fuel : Nat) (st : State) :
    whileTrue condition body (fuel + 1) st =
      match condition.evalNumber st.store .whileCondition with
      | .error e => (.fault e, st)
      | .ok x =>
        if isTrue x then Outcome.onward (whileTrue condition body fuel) (body st)
        else (.done .proceed, st) := by
  rw [whileTrue]
  cases condition.evalNumber st.store .whileCondition with
  | error e => rfl
  | ok x =>
    dsimp only
    by_cases hx : isTrue x
    · rw [if_pos hx, if_pos hx]
      rcases body st with ⟨(flow | e | _), st⟩
      · cases flow <;> rfl
      · rfl
      · rfl
    · rw [if_neg hx, if_neg hx]

theorem countThrough_succ (name : Name σ) (r : Stride) (body : Action σ (Flow σ)) (fuel : Nat)
    (counter : Float) (st : State) :
    countThrough name r body (fuel + 1) counter st =
      if r.holds counter then
        match st.store.assign name.text (.number counter) with
        | .error fault => (.fault ⟨fault, name.span⟩, st)
        | .ok store =>
          Outcome.onward (countThrough name r body fuel (counter + r.step)) (body { st with store })
      else (.done .proceed, st) := by
  rw [countThrough]
  by_cases hc : r.holds counter
  · rw [if_pos hc, if_pos hc, Action.change]
    cases st.store.assign name.text (.number counter) with
    | error _ => rfl
    | ok store =>
      dsimp only
      rcases body { st with store } with ⟨(flow | e | _), st⟩
      · cases flow <;> rfl
      · rfl
      · rfl
  · rw [if_neg hc, if_neg hc]

theorem countThrough_of_holds {name : Name σ} {r : Stride} {counter : Float} {st : State}
    {store : Store} (hc : r.holds counter)
    (hstore : st.store.assign name.text (.number counter) = .ok store)
    (body : Action σ (Flow σ)) (fuel : Nat) :
    countThrough name r body (fuel + 1) counter st =
      Outcome.onward (countThrough name r body fuel (counter + r.step))
        (body { st with store }) := by
  rw [countThrough_succ, if_pos hc, hstore]

/-! ## Positions and the statements behind them -/

namespace Program

variable {p : Program σ} {pos : Position} {s : Stmt σ} {ss : List (Stmt σ)}

theorem statement?_of_suffix (h : p.suffix pos = s :: ss) : p.statement? pos = some s := by
  rw [statement?, ← List.head?_drop, show (p.chain pos.chain).drop pos.index = s :: ss from h]
  rfl

theorem statement?_eq_none (h : p.suffix pos = []) : p.statement? pos = none := by
  rw [statement?, ← List.head?_drop, show (p.chain pos.chain).drop pos.index = [] from h]
  rfl

theorem suffix_of_statement? (h : p.statement? pos = some s) : ∃ ss, p.suffix pos = s :: ss := by
  obtain ⟨hlt, rfl⟩ := List.getElem?_eq_some_iff.mp h
  exact ⟨_, List.drop_eq_getElem_cons hlt⟩

theorem rest_next? (h : p.suffix pos = s :: ss) : p.rest (p.next? pos) = ss := by
  have htail : (p.chain pos.chain).drop (pos.index + 1) = ss := by
    rw [← List.drop_drop, show (p.chain pos.chain).drop pos.index = s :: ss from h]
    rfl
  rw [next?, statement?, ← List.head?_drop, htail]
  cases ss with
  | nil => rfl
  | cons _ _ => exact htail

theorem rest_first? (p : Program σ) (n : Nat) : p.rest (p.first? n) = p.chain n := by
  rw [first?]
  cases h : (p.chain n).isEmpty with
  | true => exact (List.isEmpty_iff.1 h).symm
  | false => exact List.drop_zero

theorem lookup_map {β : Type} (f : α → β) (label : String) (labels : List (String × α)) :
    (labels.map fun l => (l.1, f l.2)).lookup label = (labels.lookup label).map f := by
  induction labels with
  | nil => rfl
  | cons l labels ih =>
    obtain ⟨name, a⟩ := l
    rw [List.map_cons, List.lookup_cons, List.lookup_cons]
    cases label == name with
    | true => rfl
    | false => exact ih

/-- A jump lands at the statements from the label's position on. -/
theorem find_landing (p : Program σ) (label : String) (span : σ) :
    p.landing.find label span =
      match p.resolve? label with
      | some pos => .ok (p.suffix pos)
      | none => .error ⟨.undefinedLabel label (similarName? label p.labelNames 1), span⟩ := by
  have h : p.landing.targets.lookup label = (p.resolve? label).map p.suffix :=
    lookup_map p.suffix label p.labels
  rw [Landing.find, h]
  cases p.resolve? label <;> rfl

end Program

/-! ## Runs of the machine -/

namespace Flat

variable {config : Config} {p : Program σ}

/-- The machine has not ended. -/
def IsRunning : Flat σ → Prop
  | running .. => True
  | ended .. => False

theorem iterate_ended (result : Except (Located σ) Unit) (st : State) (n : Nat) :
    (step config p)^[n] (ended result st) = ended result st :=
  Function.iterate_fixed rfl n

/-- Where the machine has ended, it is at every later time. -/
theorem iterate_of_ended {a : Flat σ} {result : Except (Located σ) Unit} {st : State} {n m : Nat}
    (h : (step config p)^[n] a = ended result st) (hm : n ≤ m) :
    (step config p)^[m] a = ended result st := by
  obtain ⟨k, rfl⟩ := Nat.exists_eq_add_of_le hm
  rw [Nat.add_comm, Function.iterate_add_apply, h, iterate_ended]

theorem ended_unique {a : Flat σ} {r r' : Except (Located σ) Unit} {st st' : State} {n m : Nat}
    (h : (step config p)^[n] a = ended r st) (h' : (step config p)^[m] a = ended r' st') :
    r = r' ∧ st = st' := by
  have e := (iterate_of_ended h (Nat.le_max_left n m)).symm.trans
    (iterate_of_ended h' (Nat.le_max_right n m))
  exact ⟨(Flat.ended.inj e).1, (Flat.ended.inj e).2⟩

/-- The machine stands at the end of a chain. -/
def AtEnd (p : Program σ) (stack : List (Frame σ)) (st : State) (a : Flat σ) : Prop :=
  ∃ pos?, p.rest pos? = [] ∧ a = running pos? stack st

theorem step_atEnd {stack : List (Frame σ)} {st : State} {a : Flat σ}
    (h : AtEnd p stack st a) : step config p a = unwind p st stack := by
  obtain ⟨pos?, hrest, rfl⟩ := h
  cases pos? with
  | none => rfl
  | some pos => rw [step, Program.statement?_eq_none hrest]

theorem AtEnd.isRunning {stack : List (Frame σ)} {st : State} {a : Flat σ}
    (h : AtEnd p stack st a) : a.IsRunning := by
  obtain ⟨pos?, -, rfl⟩ := h
  trivial

/-! ## Outcomes that the machine meets -/

/-- What an outcome looks like on the machine; `exit` is for an outcome that proceeds. -/
def Shows (p : Program σ) (exit : State → Flat σ → Prop) :
    Outcome σ (Flow σ) × State → Flat σ → Prop
  | (.done .proceed, st), b => exit st b
  | (.done (.jump label span), st), b => b = jump p label span st
  | (.done .halt, st), b => b = ended (.ok ()) st
  | (.fault e, st), b => b = ended (.error e) st
  | (.unfinished, _), b => b.IsRunning

/-- How many steps the machine takes at least. A jump is a step, so that jumps can be counted. -/
def leastSteps (fuel : Nat) : Outcome σ (Flow σ) → Nat
  | .unfinished => fuel
  | .done (.jump ..) => 1
  | _ => 0

variable (config p) in
/-- The machine gets from `a` to where it shows the outcome. -/
def Meets (exit : State → Flat σ → Prop) (fuel : Nat) (a : Flat σ)
    (o : Outcome σ (Flow σ) × State) : Prop :=
  ∃ n, leastSteps fuel o.1 ≤ n ∧ Shows p exit o ((step config p)^[n] a)

variable (config p) in
/-- The machine meets the outcome from every state that it leaves for `c` next. -/
def MeetsAfter (exit : State → Flat σ → Prop) (fuel : Nat) (c : Flat σ)
    (o : Outcome σ (Flow σ) × State) : Prop :=
  ∀ a : Flat σ, a.IsRunning → step config p a = c → Meets config p exit fuel a o

variable {exit exit' : State → Flat σ → Prop} {fuel : Nat} {a b c : Flat σ}
  {o : Outcome σ (Flow σ) × State} {st : State}

theorem leastSteps_le {fuel' k : Nat} (hf : fuel' ≤ fuel + k) (o : Outcome σ (Flow σ)) :
    leastSteps fuel' o ≤ leastSteps fuel o + k := by
  rcases o with (_ | _ | _) | _ | _ <;> simp only [leastSteps] <;> omega

theorem Meets.of_iterate {fuel' k : Nat} (h : Meets config p exit fuel b o)
    (hk : (step config p)^[k] a = b) (hf : fuel' ≤ fuel + k) :
    Meets config p exit fuel' a o := by
  obtain ⟨n, hn, hs⟩ := h
  refine ⟨n + k, Nat.le_trans (leastSteps_le hf o.1) (by omega), ?_⟩
  rwa [Function.iterate_add_apply, hk]

theorem Meets.meetsAfter {fuel' : Nat} (h : Meets config p exit fuel c o)
    (hf : fuel' ≤ fuel + 1) : MeetsAfter config p exit fuel' c o :=
  fun _ _ hstep => h.of_iterate (k := 1) hstep hf

theorem meetsAfter_exit (h : exit st c) : MeetsAfter config p exit fuel c (.done .proceed, st) :=
  fun _ _ hstep => ⟨1, Nat.zero_le _, by rwa [Function.iterate_one, hstep]⟩

theorem meetsAfter_fault (e : Located σ) :
    MeetsAfter config p exit fuel (ended (.error e) st) (.fault e, st) :=
  fun _ _ hstep => ⟨1, Nat.zero_le _, hstep⟩

theorem meets_unfinished (h : a.IsRunning) : Meets config p exit 0 a (.unfinished, st) :=
  ⟨0, Nat.le_refl _, h⟩

/-- What proceeds, and what comes next, meet the machine together. -/
theorem Meets.onward {next : State → Outcome σ (Flow σ) × State} {fuel' : Nat}
    (h : Meets config p exit fuel a o) (hf : fuel' ≤ fuel)
    (hnext : ∀ st b, exit st b → Meets config p exit' fuel' b (next st)) :
    Meets config p exit' fuel' a (Outcome.onward next o) := by
  obtain ⟨n, hn, hs⟩ := h
  rcases o with ⟨((_ | ⟨label, span⟩ | _) | e | _), st⟩
  · exact (hnext st _ hs).of_iterate rfl (Nat.le_add_right _ _)
  · exact ⟨n, hn, hs⟩
  · exact ⟨n, hn, hs⟩
  · exact ⟨n, hn, hs⟩
  · exact ⟨n, Nat.le_trans hf hn, hs⟩

theorem Meets.weaken (h : Meets config p exit fuel a o)
    (hexit : ∀ st b, exit st b → Meets config p exit' fuel b (.done .proceed, st)) :
    Meets config p exit' fuel a o := by
  have hid : Outcome.onward (fun st => (.done .proceed, st)) o = o := by
    rcases o with ⟨((_ | _ | _) | _ | _), _⟩ <;> rfl
  rw [← hid]
  exact h.onward (Nat.le_refl _) hexit

/-- An action that always finishes, and what comes after it, meet the machine together. -/
theorem meetsAfter_follow {x : Action σ α} (hx : x.Finishes) {next : α → State → Flat σ}
    {f : α → Action σ (Flow σ)} (here : Flat σ)
    (h : ∀ v st', x st = (.done v, st') → MeetsAfter config p exit fuel (next v st') (f v st')) :
    MeetsAfter config p exit fuel (follow here next (x st)) ((x >>= f) st) := by
  have hfin := hx st
  rw [Action.bind_apply]
  rcases hr : x st with ⟨(v | e | _), st'⟩
  · exact h v st' hr
  · exact meetsAfter_fault e
  · exact absurd (congrArg Prod.fst hr) hfin

/-! ## Loops -/

section Loops

variable {pos : Position} {s : Stmt σ} {ss body : List (Stmt σ)} {stack : List (Frame σ)}

/-- The machine has come to the statement behind a position. -/
def Behind (p : Program σ) (pos : Position) (stack : List (Frame σ)) (st : State) (a : Flat σ) :
    Prop :=
  a = advance p pos stack st

variable (config p fuel body) in
/-- The statements of a block meet the machine whatever it has on its stack. -/
def BodyMeets : Prop :=
  ∀ pos? stack st, p.rest pos? = body →
    Meets config p (AtEnd p stack) fuel (running pos? stack st) (Stmt.execAll config fuel body st)

theorem BodyMeets.enter (h : BodyMeets config p fuel body) {n : Nat} (hn : p.chain n = body)
    (frame : Frame σ) (stack : List (Frame σ)) (st : State) :
    Meets config p (AtEnd p (frame :: stack)) fuel (enter p n frame stack st)
      (Stmt.execAll config fuel body st) :=
  h _ _ _ ((p.rest_first? n).trans hn)

/-- A chosen block of a conditional meets the machine. -/
theorem BodyMeets.branch (h : BodyMeets config p fuel body) {n : Nat} (hn : p.chain n = body) :
    MeetsAfter config p (Behind p pos stack) fuel (Flat.enter p n (.resume pos) stack st)
      (Stmt.execAll config fuel body st) := by
  refine ((h.enter hn (.resume pos) stack st).weaken fun st b hb => ?_).meetsAfter (by omega)
  exact meetsAfter_exit rfl b hb.isRunning (step_atEnd hb)

/-- Repeating meets the machine, by induction on the fuel of the loop. -/
theorem whileTrue_meets {condition : Expr σ} (hbody : BodyMeets config p fuel body)
    (hinner : p.chain (p.inner pos) = body) :
    ∀ k ≤ fuel, ∀ st, MeetsAfter config p (Behind p pos stack) k
      (testWhile p pos condition stack st)
      (whileTrue condition (Stmt.execAll config fuel body) k st) := by
  intro k
  induction k with
  | zero => intro _ st a ha _; exact meets_unfinished ha
  | succ k ih =>
    intro hk st
    rw [whileTrue_succ, testWhile]
    cases condition.evalNumber st.store .whileCondition with
    | error e => exact meetsAfter_fault e
    | ok x =>
      dsimp only
      by_cases hx : isTrue x
      · rw [if_pos hx, if_pos hx]
        refine Meets.meetsAfter ?_ (Nat.le_refl _)
        refine (hbody.enter hinner _ stack st).onward (by omega) fun st' b hb => ?_
        exact ih (by omega) st' b hb.isRunning (step_atEnd hb)
      · rw [if_neg hx, if_neg hx]
        exact meetsAfter_exit rfl

/-- Counting meets the machine, by induction on the fuel of the loop. -/
theorem countThrough_meets {name : Name σ} {range : Stride} (hbody : BodyMeets config p fuel body)
    (hinner : p.chain (p.inner pos) = body) :
    ∀ k ≤ fuel, ∀ counter st, MeetsAfter config p (Behind p pos stack) k
      (testFor p pos name range counter stack st)
      (countThrough name range (Stmt.execAll config fuel body) k counter st) := by
  intro k
  induction k with
  | zero => intro _ counter st a ha _; exact meets_unfinished ha
  | succ k ih =>
    intro hk counter st
    rw [countThrough_succ, testFor]
    by_cases hc : range.holds counter
    · rw [if_pos hc, if_pos hc]
      cases st.store.assign name.text (.number counter) with
      | error fault => exact meetsAfter_fault _
      | ok store =>
        dsimp only
        refine Meets.meetsAfter ?_ (Nat.le_refl _)
        refine (hbody.enter hinner _ stack _).onward (by omega) fun st' b hb => ?_
        exact ih (by omega) _ st' b hb.isRunning (step_atEnd hb)
    · rw [if_neg hc, if_neg hc]
      exact meetsAfter_exit rfl

end Loops

/-! ## Statements -/

section Statements

variable {pos : Position} {ss : List (Stmt σ)} {stack : List (Frame σ)}

theorem flow_meets (x : Action σ (Flow σ)) (hx : x.Finishes) {here : Flat σ} :
    MeetsAfter config p (Behind p pos stack) fuel (follow here (flow p pos stack) (x st))
      (x st) := by
  have hfin := hx st
  rcases hr : x st with ⟨((_ | ⟨label, span⟩ | _) | e | _), st'⟩
  · exact meetsAfter_exit rfl
  · exact fun _ _ hstep => ⟨1, Nat.le_refl _, hstep⟩
  · exact fun _ _ hstep => ⟨1, Nat.zero_le _, hstep⟩
  · exact meetsAfter_fault e
  · exact absurd (congrArg Prod.fst hr) hfin

/-- A statement meets the machine once its blocks do. -/
theorem meets_of_perform {s : Stmt σ} {f : Action σ (Flow σ)} (h : p.suffix pos = s :: ss)
    (hexec : s.exec config fuel = Action.count config s.span >>= fun _ => f)
    (hperform : ∀ here st, MeetsAfter config p (Behind p pos stack) fuel
      (perform config p pos stack st here s) (f st)) :
    Meets config p (Behind p pos stack) fuel (running (some pos) stack st)
      (s.exec config fuel st) := by
  rw [hexec]
  refine meetsAfter_follow (Action.finishes_count config s.span) (running (some pos) stack st)
    (fun _ st' _ => hperform (running (some pos) stack st) st') _ trivial ?_
  rw [step, Program.statement?_of_suffix h]

mutual

theorem exec_meets (s : Stmt σ) : ∀ {pos ss stack st}, p.suffix pos = s :: ss →
    Meets config p (Behind p pos stack) fuel (running (some pos) stack st)
      (s.exec config fuel st) := by
  intro pos ss stack st h
  cases s with
  | command span c =>
    exact meets_of_perform h (by rw [Stmt.exec]; rfl) fun _ _ =>
      flow_meets _ (plain_exec config span c).finishes
  | ifThen span condition body =>
    refine meets_of_perform h (by rw [Stmt.exec]; rfl) fun here st => ?_
    refine meetsAfter_follow (Action.plain_consult _).finishes here fun x st' _ => ?_
    by_cases hx : isTrue x
    · rw [if_pos hx, if_pos hx]
      exact (bodyMeets body).branch (Program.chain_inner_zero h rfl)
    · rw [if_neg hx, if_neg hx]
      exact meetsAfter_exit rfl
  | ifElse span condition body otherwise =>
    refine meets_of_perform h (by rw [Stmt.exec]; rfl) fun here st => ?_
    refine meetsAfter_follow (Action.plain_consult _).finishes here fun x st' _ => ?_
    by_cases hx : isTrue x
    · rw [if_pos hx, if_pos hx]
      exact (bodyMeets body).branch (Program.chain_inner_zero h rfl)
    · rw [if_neg hx, if_neg hx]
      exact (bodyMeets otherwise).branch (Program.chain_inner_otherwise h)
  | whileLoop span condition body =>
    refine meets_of_perform h (by rw [Stmt.exec]; rfl) fun here st => ?_
    exact whileTrue_meets (bodyMeets body) (Program.chain_inner_zero h rfl) fuel (Nat.le_refl _) st
  | forLoop span range body =>
    refine meets_of_perform h (by rw [Stmt.exec]; rfl) fun here st => ?_
    refine meetsAfter_follow (plain_enter span range).finishes here fun entry st' _ => ?_
    exact countThrough_meets (bodyMeets body) (Program.chain_inner_zero h rfl) fuel (Nat.le_refl _)
      entry.2 st'

/-- **Blocks.** The statements of a block meet the machine. -/
theorem bodyMeets (body : List (Stmt σ)) : BodyMeets config p fuel body := by
  intro pos? stack st hrest
  cases body with
  | nil => exact ⟨0, Nat.le_refl _, pos?, hrest, rfl⟩
  | cons s ss =>
    cases pos? with
    | none => cases hrest
    | some pos =>
      rw [Stmt.execAll_cons]
      refine (exec_meets s hrest).onward (Nat.le_refl _) fun st' b hb => ?_
      rw [show b = advance p pos stack st' from hb]
      exact bodyMeets ss _ _ _ (Program.rest_next? hrest)

end

end Statements

/-! ## Whole runs -/

variable (config p) in
/-- The machine gets from `a` to the end of a run. -/
def MeetsRun (fuel : Nat) (a : Flat σ) : Outcome σ Unit × State → Prop
  | (.done (), st) => ∃ n, (step config p)^[n] a = ended (.ok ()) st
  | (.fault e, st) => ∃ n, (step config p)^[n] a = ended (.error e) st
  | (.unfinished, _) => ∃ n, fuel ≤ n ∧ ((step config p)^[n] a).IsRunning

theorem MeetsRun.of_iterate {o : Outcome σ Unit × State} {fuel' k : Nat}
    (h : MeetsRun config p fuel b o) (hk : (step config p)^[k] a = b) (hf : fuel' ≤ fuel + k) :
    MeetsRun config p fuel' a o := by
  rcases o with ⟨(_ | e | _), st⟩
  · obtain ⟨n, hn⟩ := h
    exact ⟨n + k, by rw [Function.iterate_add_apply, hk, hn]⟩
  · obtain ⟨n, hn⟩ := h
    exact ⟨n + k, by rw [Function.iterate_add_apply, hk, hn]⟩
  · obtain ⟨n, hle, hn⟩ := h
    exact ⟨n + k, by omega, by rwa [Function.iterate_add_apply, hk]⟩

/-- Executing chains one jump after the other meets the machine, by induction on the jumps. -/
theorem runChain_meets :
    ∀ jumps pos? st, MeetsRun config p (min jumps fuel) (running pos? [] st)
      (runChain config fuel p.landing jumps (p.rest pos?) st) := by
  intro jumps
  induction jumps with
  | zero => intro pos? st; exact ⟨0, by omega, trivial⟩
  | succ jumps ih =>
    intro pos? st
    have hbody : BodyMeets config p fuel (p.rest pos?) := bodyMeets _
    obtain ⟨n, hn, hs⟩ := hbody pos? [] st rfl
    rw [runChain]
    generalize Stmt.execAll config fuel (p.rest pos?) st = o at hn hs ⊢
    rcases o with ⟨((_ | ⟨label, span⟩ | _) | e | _), st'⟩
    · exact ⟨n + 1, by rw [Function.iterate_succ_apply', step_atEnd hs]; rfl⟩
    · -- the stack is empty again, so the rest of the run is like a run of its own
      have hpos : 1 ≤ n := hn
      have hjump : (step config p)^[n] (running pos? [] st) = jump p label span st' := hs
      dsimp only
      rw [Program.find_landing]
      rw [jump] at hjump
      cases hres : p.resolve? label with
      | none => rw [hres] at hjump; exact ⟨n, hjump⟩
      | some pos =>
        rw [hres] at hjump
        exact (ih (some pos) st').of_iterate hjump (by omega)
    · exact ⟨n, hs⟩
    · exact ⟨n, hs⟩
    · exact ⟨n, Nat.le_trans (Nat.min_le_right _ _) hn, hs⟩

theorem runFrom_meets (config : Config) (p : Program σ) (fuel : Nat) (start? : Option Position)
    (st : State) :
    MeetsRun config p fuel (start start? st) (p.runFrom config fuel start? st) := by
  cases start? with
  | none => exact ⟨1, rfl⟩
  | some pos =>
    exact (runChain_meets (fuel + 1) (some pos) _).of_iterate (k := 0) rfl (by omega)

end Flat

/-- A result as an outcome. -/
def Outcome.ofResult : Except (Located σ) α → Outcome σ α
  | .ok a => .done a
  | .error e => .fault e

theorem Outcome.exists_ofResult {o : Outcome σ α} (h : o ≠ .unfinished) :
    ∃ result, o = .ofResult result := by
  cases o with
  | done a => exact ⟨.ok a, rfl⟩
  | fault e => exact ⟨.error e, rfl⟩
  | unfinished => exact absurd rfl h

namespace Flat

variable {config : Config} {p : Program σ} {start? : Option Position} {st st' : State}
  {result : Except (Located σ) Unit}

theorem ended_of_runFrom {fuel : Nat}
    (h : p.runFrom config fuel start? st = (.ofResult result, st')) :
    ∃ n, (step config p)^[n] (start start? st) = ended result st' := by
  have hmeets := runFrom_meets config p fuel start? st
  rw [h] at hmeets
  cases result <;> exact hmeets

/-- If the machine ends, nested execution with more fuel than the machine takes steps is finished,
and in the same way. -/
theorem runFrom_of_ended {n : Nat} (h : (step config p)^[n] (start start? st) = ended result st') :
    p.runFrom config (n + 1) start? st = (.ofResult result, st') := by
  have hmeets := runFrom_meets config p (n + 1) start? st
  rcases hr : p.runFrom config (n + 1) start? st with ⟨o, st''⟩
  have hfin : o ≠ .unfinished := by
    rintro rfl
    rw [hr] at hmeets
    obtain ⟨m, hm, hrun⟩ := hmeets
    rw [iterate_of_ended h (by omega)] at hrun
    exact hrun
  obtain ⟨result', rfl⟩ := Outcome.exists_ofResult hfin
  obtain ⟨m, hm⟩ := ended_of_runFrom hr
  obtain ⟨rfl, rfl⟩ := ended_unique h hm
  rfl

end Flat

/-- The frames that a state of the machine still has. -/
def Flat.frames : Flat σ → List (Frame σ)
  | .running _ stack _ => stack
  | .ended _ _ => []

/-- A jump and an end of the run leave no frame. -/
theorem Flat.frames_step {config : Config} {p : Program σ} {pos : Position} {span : σ}
    {c : Command σ} (hs : p.statement? pos = some (.command span c))
    (hc : c = .stop ∨ ∃ label, c = .goto label) (stack : List (Frame σ)) (st : State) :
    (step config p (running (some pos) stack st)).frames = [] := by
  have hfin := Action.finishes_count config span st
  rw [step, hs]
  dsimp only [Stmt.span]
  rcases hr : Action.count config span st with ⟨(_ | e | _), st'⟩
  · obtain rfl | ⟨label, rfl⟩ := hc
    · rfl
    · show (jump p label span st').frames = []
      unfold jump
      cases p.resolve? label <;> rfl
  · rfl
  · exact absurd (congrArg Prod.fst hr) hfin

/-- **Nested execution refines the flat machine.** A run of a program finishes with a result and a
state exactly when the machine ends with them. A jump and a `Stop` leave no frame of the blocks
around them, and without a frame the end of a chain is the end of the run. -/
theorem runFrom_iff_flat (config : Config) (p : Program σ) (start? : Option Position)
    (st : State) :
    (∀ result st', (∃ fuel, p.runFrom config fuel start? st = (.ofResult result, st')) ↔
      ∃ n, (Flat.step config p)^[n] (Flat.start start? st) = .ended result st') ∧
    (∀ pos stack st span c, p.statement? pos = some (.command span c) →
      (c = .stop ∨ ∃ label, c = .goto label) →
      (Flat.step config p (.running (some pos) stack st)).frames = []) ∧
    (∀ pos? st, p.rest pos? = [] →
      Flat.step config p (.running pos? [] st) = .ended (.ok ()) st) := by
  refine ⟨fun result st' => ⟨?_, ?_⟩,
    fun pos stack st span c hs hc => Flat.frames_step hs hc stack st,
    fun pos? st h => Flat.step_atEnd ⟨pos?, h, rfl⟩⟩
  · rintro ⟨fuel, hrun⟩
    exact Flat.ended_of_runFrom hrun
  · rintro ⟨n, hn⟩
    exact ⟨n + 1, Flat.runFrom_of_ended hn⟩

end CalcBasic
