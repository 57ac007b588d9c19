import CalcBasic.Proofs.ExactNumbers
import CalcBasic.Proofs.Frame
import CalcBasic.Proofs.Truncation

/-!
# Counting loops

How often a counting loop goes round is settled by its range, its start value and how the rounds
end, and by nothing that a round does to the variables.

1. The head of the loop works out its parts in the variables that it meets, and then stores the
   start value (`Range.enter_eq_done`). A step that is zero or NaN is a fault before that
   (`Range.stride_eq_zeroStep`).
2. `Counting.Rounds` says which rounds take place, and `Counting.Ends` what comes of the loop. Both
   take the value of a round from its number, and neither looks at how the loop is executed.
3. After rounds that took place the loop is one that counts on from the value of the next round
   (`Counting.countThrough_of_rounds`), by induction on the rounds. So the loop has the end that the
   rounds give it (`Counting.countThrough_eq_iff`).
4. If no round changes the variable of the loop, it still shows the value of the last one
   (`Counting.get_of_rounds`).
-/

namespace CalcBasic

variable {σ : Type}

/-! ## Heads -/

/-- The step of a range, worked out in some variables; without one in the text it is one. -/
def Range.stepIn (r : Range σ) (s : Store) : Except (Located σ) Float :=
  match r.step with
  | some e => e.evalNumber s .forStep
  | none => .ok 1

/-- The head of a counting loop: the statement is counted, and the loop is begun. -/
def Range.head (config : Config) (span : σ) (r : Range σ) : Action σ (Stride × Float) := do
  Action.count config span
  r.enter span

namespace Range

variable {r : Range σ} {span : σ} {s : Store} {stride : Stride} {start : Float}
  {st entered : State}

theorem stride_eq (span : σ) (r : Range σ) (s : Store) :
    r.stride span s = r.last.evalNumber s .forLast >>= fun last => r.stepIn s >>= fun step =>
      if step > 0 || step < 0 then .ok ⟨last, step⟩ else .error ⟨.zeroStep, span⟩ := by
  rw [stride, stepIn]
  cases r.step <;> rfl

theorem stride_eq_ok (h : r.stride span s = .ok stride) :
    r.last.evalNumber s .forLast = .ok stride.last ∧ r.stepIn s = .ok stride.step := by
  rw [stride_eq] at h
  cases hlast : r.last.evalNumber s .forLast with
  | error l =>
    rw [hlast] at h
    cases h
  | ok last =>
    cases hstep : r.stepIn s with
    | error l =>
      rw [hlast, hstep] at h
      cases h
    | ok step =>
      rw [hlast, hstep] at h
      dsimp only [bind, Except.bind] at h
      split at h
      · cases h
        exact ⟨rfl, rfl⟩
      · cases h

theorem stride_eq_zeroStep {last step : Float} (hlast : r.last.evalNumber s .forLast = .ok last)
    (hstep : r.stepIn s = .ok step) (hzero : step.isNaN = true ∨ (step == 0) = true) :
    r.stride span s = .error ⟨.zeroStep, span⟩ := by
  rw [stride_eq, hlast, hstep]
  dsimp only [bind, Except.bind]
  rw [Number.pos_or_neg_eq_false.mpr hzero]
  exact if_neg Bool.false_ne_true

/-- A counting loop that is begun has worked out its parts in the variables from before, and its
variable has the start value. -/
theorem enter_eq_done (h : r.enter span st = (.done (stride, start), entered)) :
    r.stride span st.store = .ok stride ∧ r.start.eval st.store = .ok (.number start) ∧
      st.store.assign r.counter.text (.number start) = .ok entered.store ∧
      entered = { st with store := entered.store } := by
  simp only [enter, Action.bind_eq_done, Action.consult_eq_done, Action.change_eq_done,
    Action.pure_eq_done] at h
  obtain ⟨_, _, ⟨hstride, rfl⟩, v, _, ⟨hstart, rfl⟩, _, _, ⟨store, hassign, rfl⟩, _, _,
    ⟨hnumber, rfl⟩, heq, rfl⟩ := h
  cases heq
  cases v with
  | list l => cases hnumber
  | number x =>
    cases hnumber
    exact ⟨hstride, hstart, hassign, rfl⟩

end Range

/-! ## Rounds -/

/-- A loop that counts from a start value through a range and shows the count in a variable. -/
structure Counting (σ : Type) where
  name : Name σ
  range : Stride
  start : Float
  body : Action σ (Flow σ)

namespace Counting

variable (L : Counting σ)

/-- The value that the loop has counted to in a round; the rounds are numbered from zero. -/
def value (k : Nat) : Float := L.range.after k L.start

/-- The value of the round has not passed the end of the range. -/
def Within (k : Nat) : Prop :=
  0 < L.range.step ∧ L.value k ≤ L.range.last ∨ L.range.step < 0 ∧ L.range.last ≤ L.value k

/-- The round begins: its value is within the range, and the variable is given the value. -/
structure Begins (k : Nat) (before begun : State) : Prop where
  within : L.Within k
  assigned : before.store.assign L.name.text (.number (L.value k)) = .ok begun.store
  others : begun = { before with store := begun.store }

/-- So many rounds take place one after the other, and each of them proceeds. -/
inductive Rounds (entered : State) : Nat → State → Prop where
  | none : Rounds entered 0 entered
  | next {k : Nat} {before begun after : State} (earlier : Rounds entered k before)
    (begins : L.Begins k before begun) (proceeds : L.body begun = (.done .proceed, after)) :
    Rounds entered (k + 1) after

/-- What comes of the loop: it is left before the first round whose value is not within the range,
or stopped in the first round that does not proceed. With the fuel used up it is unfinished. -/
inductive Ends (entered : State) (fuel : Nat) : Outcome σ (Flow σ) × State → Prop where
  | left {k : Nat} {after : State} (hk : k < fuel) (rounds : L.Rounds entered k after)
    (outside : ¬ L.Within k) : Ends entered fuel (.done .proceed, after)
  | stopped {k : Nat} {before begun : State} (hk : k < fuel) (rounds : L.Rounds entered k before)
    (begins : L.Begins k before begun) (stops : (L.body begun).1 ≠ .done .proceed) :
    Ends entered fuel (L.body begun)
  | unfinished {after : State} (rounds : L.Rounds entered fuel after) :
    Ends entered fuel (.unfinished, after)

/-- The value of the last round before the one with this number; without one, the start value. -/
def shown : Nat → Float
  | 0 => L.start
  | k + 1 => L.value k

variable {L} {k fuel : Nat} {entered before begun after : State}
  {result : Outcome σ (Flow σ) × State}

theorem value_succ (k : Nat) : L.value (k + 1) = L.value k + L.range.step :=
  Function.iterate_succ_apply' _ _ _

theorem holds_eq_true : L.range.holds (L.value k) = true ↔ L.Within k := by
  simp only [Stride.holds, Within, Bool.or_eq_true, Bool.and_eq_true, decide_eq_true_eq, gt_iff_lt,
    ge_iff_le]

/-- A round whose value is within the range does begin. -/
theorem exists_begins (hname : Region.of L.name.text ≠ .list) (h : L.Within k) (before : State) :
    ∃ begun, L.Begins k before begun := by
  obtain ⟨store, hstore⟩ := Store.exists_assign_number hname before.store (L.value k)
  exact ⟨{ before with store }, h, hstore, rfl⟩

theorem Begins.get (h : L.Begins k before begun) :
    begun.store.get L.name.text = .ok (.number (L.value k)) := Store.get_assign h.assigned

/-! ## The loop that is executed -/

/-- Executes the loop from a round on. -/
theorem countThrough_of_begins (h : L.Begins k before begun) (m : Nat) :
    countThrough L.name L.range L.body (m + 1) (L.value k) before =
      Outcome.onward (countThrough L.name L.range L.body m (L.value (k + 1))) (L.body begun) := by
  rw [countThrough_of_holds (holds_eq_true.mpr h.within) h.assigned, value_succ, ← h.others]

/-- After rounds that took place the loop counts on from the value of the next. -/
theorem countThrough_of_rounds (h : L.Rounds entered k before) (m : Nat) :
    countThrough L.name L.range L.body (k + m) L.start entered =
      countThrough L.name L.range L.body m (L.value k) before := by
  induction h generalizing m with
  | none =>
    rw [Nat.zero_add]
    rfl
  | @next k before begun after earlier begins proceeds ih =>
    rw [Nat.add_assoc, Nat.add_comm 1, ih, countThrough_of_begins begins, proceeds]
    rfl

theorem Ends.countThrough_eq (h : L.Ends entered fuel result) :
    countThrough L.name L.range L.body fuel L.start entered = result := by
  cases h with
  | @left k after hk rounds outside =>
    obtain ⟨m, rfl⟩ := Nat.exists_eq_add_of_lt hk
    rw [Nat.add_assoc, countThrough_of_rounds rounds, countThrough_succ,
      if_neg (mt holds_eq_true.mp outside)]
  | @stopped k before begun hk rounds begins stops =>
    obtain ⟨m, rfl⟩ := Nat.exists_eq_add_of_lt hk
    rw [Nat.add_assoc, countThrough_of_rounds rounds, countThrough_of_begins begins]
    rcases hbody : L.body begun with ⟨((_ | _ | _) | _ | _), after⟩
    · rw [hbody] at stops
      exact absurd rfl stops
    · rfl
    · rfl
    · rfl
    · rfl
  | unfinished rounds =>
    rw [← Nat.add_zero fuel, countThrough_of_rounds rounds]
    rfl

/-- With so much fuel left after some rounds the loop comes to an end or uses up its fuel. -/
theorem exists_ends (hname : Region.of L.name.text ≠ .list) (m : Nat)
    (h : L.Rounds entered k before) : ∃ result, L.Ends entered (k + m) result := by
  induction m generalizing k before with
  | zero => exact ⟨_, .unfinished h⟩
  | succ m ih =>
    have hk : k < k + (m + 1) := Nat.lt_add_of_pos_right (Nat.succ_pos m)
    by_cases hwithin : L.Within k
    · obtain ⟨begun, hbegins⟩ := exists_begins hname hwithin before
      by_cases hproceeds : (L.body begun).1 = .done .proceed
      · obtain ⟨result, hends⟩ := ih (.next h hbegins (Prod.ext hproceeds rfl))
        exact ⟨result, by rwa [Nat.add_right_comm, Nat.add_assoc] at hends⟩
      · exact ⟨_, .stopped hk h hbegins hproceeds⟩
    · exact ⟨_, .left hk h hwithin⟩

/-- **Counting.** What comes of executing the loop is what its rounds give. -/
theorem countThrough_eq_iff (hname : Region.of L.name.text ≠ .list) :
    countThrough L.name L.range L.body fuel L.start entered = result ↔
      L.Ends entered fuel result := by
  refine ⟨fun h => ?_, Ends.countThrough_eq⟩
  obtain ⟨result', hends⟩ := exists_ends hname fuel (.none : L.Rounds entered 0 entered)
  rw [Nat.zero_add] at hends
  rwa [← h, hends.countThrough_eq]

/-- A loop that goes on behind its end has been left. -/
theorem Ends.of_proceeds (h : L.Ends entered fuel (.done .proceed, after)) :
    ∃ k, L.Rounds entered k after ∧ ¬ L.Within k := by
  generalize hresult : ((.done .proceed, after) : Outcome σ (Flow σ) × State) = result at h
  cases h with
  | @left k after' hk rounds outside =>
    cases hresult
    exact ⟨k, rounds, outside⟩
  | stopped hk rounds begins stops => exact absurd (congrArg Prod.fst hresult.symm) stops
  | unfinished rounds => cases hresult

/-! ## The variable of the loop -/

/-- No round that takes place changes what the variable of the loop has. -/
def Keeps (L : Counting σ) (entered : State) : Prop :=
  ∀ k before begun, L.Rounds entered k before → L.Begins k before begun →
    (L.body begun).2.store.get L.name.text = begun.store.get L.name.text

/-- A variable that no round changes shows the value of the last round. -/
theorem get_of_rounds (hentered : entered.store.get L.name.text = .ok (.number L.start))
    (hkeeps : L.Keeps entered) (h : L.Rounds entered k after) :
    after.store.get L.name.text = .ok (.number (L.shown k)) := by
  cases h with
  | none => exact hentered
  | @next k before begun after earlier begins proceeds =>
    have hbody := hkeeps k before begun earlier begins
    rw [proceeds] at hbody
    exact hbody.trans begins.get

end Counting

/-! ## Statements -/

/-- A head that is not a fault has counted the statement and begun the loop. -/
theorem Range.head_eq_done {config : Config} {range : Range σ} {span : σ} {stride : Stride}
    {start : Float} {st entered : State}
    (h : range.head config span st = (.done (stride, start), entered)) :
    Action.count config span st = (.done (), { st with steps := st.steps + 1 }) ∧
      range.enter span { st with steps := st.steps + 1 } = (.done (stride, start), entered) := by
  obtain ⟨_, mid, hcount, henter⟩ := Action.bind_eq_done.mp h
  have hmid := Action.state_count config span st
  rw [hcount] at hmid
  obtain rfl : mid = { st with steps := st.steps + 1 } := hmid
  exact ⟨hcount, henter⟩

namespace Stmt

variable {config : Config} {fuel : Nat} {range : Range σ} {span : σ} {stride : Stride}
  {start : Float} {body : List (Stmt σ)} {st entered : State}

theorem exec_forLoop_of_head
    (h : range.head config span st = (.done (stride, start), entered)) :
    (forLoop span range body).exec config fuel st =
      countThrough range.counter stride (execAll config fuel body) fuel start entered := by
  obtain ⟨hcount, henter⟩ := Range.head_eq_done h
  rw [exec_eq, Action.bind_apply, Stmt.span, hcount]
  dsimp only
  rw [perform, Action.bind_apply, henter]

/-- **Counting loops.** A loop that is begun has worked out its end, its step and its start value in
the variables from before any of it. Its rounds take place exactly as long as the ones before
proceed and the value is within the range, whatever they do to the variables, and the variable has
the value of each round at its beginning. Nothing else comes of the loop than what its rounds give;
if it is left and no round changes the variable, this shows the value of the last round. A step that
is zero or NaN is a fault that leaves everything but the count of statements as it was. -/
theorem forLoop_counts (config : Config) (fuel : Nat) (span : σ) (range : Range σ)
    (body : List (Stmt σ)) (st : State) :
    (∀ stride start entered, range.head config span st = (.done (stride, start), entered) →
      let L : Counting σ := ⟨range.counter, stride, start, execAll config fuel body⟩
      (range.last.evalNumber st.store .forLast = .ok stride.last ∧
        range.stepIn st.store = .ok stride.step ∧
        range.start.eval st.store = .ok (.number start) ∧
        ∃ store, st.store.assign range.counter.text (.number start) = .ok store ∧
          entered = { st with store, steps := st.steps + 1 }) ∧
      (∀ k before, L.Rounds entered k before →
        ((∃ begun, L.Begins k before begun) ↔ L.Within k) ∧
        ∀ begun, L.Begins k before begun →
          begun.store.get range.counter.text = .ok (.number (L.value k))) ∧
      (∀ result, (forLoop span range body).exec config fuel st = result ↔
        L.Ends entered fuel result) ∧
      (range.counter.text ∉ (Program.mk body).written → L.Keeps entered) ∧
      (L.Keeps entered → ∀ after,
        (forLoop span range body).exec config fuel st = (.done .proceed, after) →
        ∃ k, L.Rounds entered k after ∧ ¬ L.Within k ∧
          after.store.get range.counter.text = .ok (.number (L.shown k)))) ∧
    ∀ last step, range.last.evalNumber st.store .forLast = .ok last →
      range.stepIn st.store = .ok step → (step.isNaN = true ∨ (step == 0) = true) →
      ∃ fault, (forLoop span range body).exec config fuel st =
          (.fault ⟨fault, span⟩, { st with steps := st.steps + 1 }) ∧
        (Flat.Allows config (st.steps + 1) → fault = .zeroStep) := by
  refine ⟨fun stride start entered h => ?_, fun last step hlast hstep hzero => ?_⟩
  · intro L
    obtain ⟨hstride, hstart, hassign, hentered⟩ := Range.enter_eq_done (Range.head_eq_done h).2
    obtain ⟨hlast, hstep⟩ := Range.stride_eq_ok hstride
    have hname : Region.of range.counter.text ≠ .list := Store.region_of_assign_number hassign
    have hends (result : Outcome σ (Flow σ) × State) :
        (forLoop span range body).exec config fuel st = result ↔ L.Ends entered fuel result := by
      rw [exec_forLoop_of_head h]
      exact L.countThrough_eq_iff hname
    refine ⟨⟨hlast, hstep, hstart, entered.store, hassign, hentered⟩,
      fun k before _ => ⟨⟨?_, ?_⟩, ?_⟩, hends, fun hwritten k before begun _ _ => ?_,
      fun hkeeps after hafter => ?_⟩
    · rintro ⟨begun, hbegins⟩
      exact hbegins.within
    · exact fun hwithin => Counting.exists_begins hname hwithin before
    · exact fun begun hbegins => hbegins.get
    · exact ((Program.mk body).writes_execAll config fuel begun).1 _ hwritten
    · obtain ⟨k, hrounds, houtside⟩ := ((hends _).mp hafter).of_proceeds
      exact ⟨k, hrounds, houtside, Counting.get_of_rounds (Store.get_assign hassign) hkeeps hrounds⟩
  · rw [exec_eq]
    obtain ⟨-, h⟩ | ⟨limit, hlimit, hle, h⟩ := Action.count_cases config span st
    · have hstride : range.stride span st.store = .error ⟨.zeroStep, span⟩ :=
        Range.stride_eq_zeroStep hlast hstep hzero
      refine ⟨.zeroStep, Action.bind_eq_fault.mpr (.inr ⟨(), _, h, ?_⟩), fun _ => rfl⟩
      refine Action.bind_eq_fault.mpr (.inl (Action.bind_eq_fault.mpr (.inl ?_)))
      exact Action.consult_eq_fault.mpr ⟨hstride, rfl⟩
    · refine ⟨.stepLimit limit, Action.bind_eq_fault.mpr (.inl h), fun hallows => ?_⟩
      exact absurd (hallows limit hlimit) (Nat.not_le.mpr (Nat.lt_succ_of_le hle))

end Stmt

/-- Whether a program is one counting loop that does not write its variable, and that is begun on a
fresh machine and left within so many rounds, with the variable at a number. -/
def Program.countsTo (last : Float) (rounds : Nat) : Program Span → Bool
  | ⟨[.forLoop span range body]⟩ =>
    match range.head ⟨none, "?"⟩ span ⟨.fresh, { input := [] }, 0⟩,
      (Stmt.forLoop span range body).exec ⟨none, "?"⟩ rounds ⟨.fresh, { input := [] }, 0⟩ with
    | (.done _, _), (.done .proceed, after) =>
      range.counter.text ∉ (Program.mk body).written &&
        after.store.get range.counter.text = .ok (.number last)
    | _, _ => false
  | _ => false

theorem Program.exists_of_countsTo {last : Float} {rounds : Nat} {p : Program Span}
    (h : p.countsTo last rounds = true) :
    ∃ span range body stride start entered after, p = ⟨[.forLoop span range body]⟩ ∧
      range.head ⟨none, "?"⟩ span ⟨.fresh, { input := [] }, 0⟩ =
        (.done (stride, start), entered) ∧
      (Stmt.forLoop span range body).exec ⟨none, "?"⟩ rounds ⟨.fresh, { input := [] }, 0⟩ =
        (.done .proceed, after) ∧
      range.counter.text ∉ (Program.mk body).written ∧
      after.store.get range.counter.text = .ok (.number last) := by
  unfold countsTo at h
  split at h
  · split at h
    · next hhead hexec =>
      rw [Bool.and_eq_true, decide_eq_true_eq, decide_eq_true_eq] at h
      exact ⟨_, _, _, _, _, _, _, rfl, hhead, hexec, h.1, h.2⟩
    · cases h
  · cases h

/-- A loop through odd numbers up to five is left with its variable at five, the value of its last
round. -/
theorem Stmt.forLoop_counts_odd : ∃ span range body,
    Program.parse "For(A,1,5,2)\nA→B\nEnd" = .ok ⟨[.forLoop span range body]⟩ ∧
    ∃ stride start entered after,
      range.head ⟨none, "?"⟩ span ⟨.fresh, { input := [] }, 0⟩ =
        (.done (stride, start), entered) ∧
      (Stmt.forLoop span range body).exec ⟨none, "?"⟩ 4 ⟨.fresh, { input := [] }, 0⟩ =
        (.done .proceed, after) ∧
      let L : Counting Span := ⟨range.counter, stride, start, execAll ⟨none, "?"⟩ 4 body⟩
      ∃ k, L.Rounds entered k after ∧ ¬ L.Within k ∧ L.shown k = 5 := by
  have hcheck : (Program.parse "For(A,1,5,2)\nA→B\nEnd").toOption.any (Program.countsTo 5 4) =
      true := by
    decide +kernel
  obtain ⟨p, hp, hcounts⟩ := Program.exists_of_parse hcheck
  obtain ⟨span, range, body, stride, start, entered, after, rfl, hhead, hexec, hwritten, hlast⟩ :=
    Program.exists_of_countsTo hcounts
  obtain ⟨-, -, -, hkeeps, hleft⟩ := (Stmt.forLoop_counts ⟨none, "?"⟩ 4 span range body
    ⟨.fresh, { input := [] }, 0⟩).1 stride start entered hhead
  obtain ⟨k, hrounds, houtside, hshown⟩ := hleft (hkeeps hwritten) after hexec
  refine ⟨span, range, body, hp, stride, start, entered, after, hhead, hexec, k, hrounds,
    houtside, ?_⟩
  rw [hlast] at hshown
  exact (Value.number.inj (Except.ok.inj hshown)).symm

end CalcBasic
