import CalcBasic.Proofs.ExecutionRules
import CalcBasic.Proofs.Spans
import CalcBasic.Proofs.Variables

/-!
# Where faults stand

A fault of a run stands at a node of the program that is run, also if it comes from a line that was
typed.

1. A fault of a basic action stands at the place that the action is given (`Action.standing_rules`).
   So a fault of a run stands at a place in some statement of the program (`Program.fault_place`).
2. The places in a statement stand inside its span, and the spans of statements stand in the source
   (`Program.parse_stands`).
-/

namespace CalcBasic

variable {σ α β : Type}

/-! ## Actions -/

/-- A result has the property `Q`, and a fault stands at a place with the property `P`. -/
def Outcome.Stands (P : σ → Prop) (Q : α → Prop) : Outcome σ α → Prop
  | .done a => Q a
  | .fault l => P l.span
  | .unfinished => True

namespace Action

/-- All outcomes of the action stand. -/
def Stands (P : σ → Prop) (x : Action σ α) (Q : α → Prop) : Prop := ∀ st, (x st).1.Stands P Q

variable {P : σ → Prop}

theorem Stands.bind {x : Action σ α} {f : α → Action σ β} {Q : α → Prop} {R : β → Prop}
    (hx : x.Stands P Q) (hf : ∀ a, Q a → (f a).Stands P R) : (x >>= f).Stands P R := by
  intro st
  have h := hx st
  rw [bind_apply]
  rcases hr : x st with ⟨(a | l | _), st'⟩ <;> rw [hr] at h
  · exact hf a h st'
  · exact h
  · exact h

/-- Where faults stand goes along with composition. -/
def standing (P : σ → Prop) : Action.Logic σ where
  Holds := Stands P
  pure h := fun _ => h
  bind := Stands.bind
  unfinished := fun _ => trivial

theorem stands_consult {f : Store → Except (Located σ) α} {Q : α → Prop}
    (hok : ∀ s a, f s = .ok a → Q a) (herror : ∀ s l, f s = .error l → P l.span) :
    (consult f).Stands P Q := by
  intro st
  unfold consult
  cases hf : f st.store with
  | ok a => exact hok st.store a hf
  | error l => exact herror st.store l hf

theorem stands_change {span : σ} (h : P span) (f : Store → Except Fault Store) :
    (change span f).Stands P fun _ => True := by
  intro st
  unfold change
  cases f st.store with
  | ok store => trivial
  | error fault => exact h

theorem stands_count (config : Config) {span : σ} (h : P span) :
    (count config span).Stands P fun _ => True := by
  intro st
  obtain ⟨-, hcount⟩ | ⟨_, _, _, hcount⟩ := count_cases config span st
  · rw [hcount]
    trivial
  · rw [hcount]
    exact h

theorem stands_write {span : σ} (h : P span) (line : String) :
    (write span line).Stands P fun _ => True := by
  intro st
  unfold write
  cases st.console.write line with
  | ok console => trivial
  | error reason => exact h

theorem stands_ask {span : σ} (h : P span) (name prompt : String) :
    (ask span name prompt).Stands P fun _ => True := by
  intro st
  unfold ask
  rcases st.console.ask prompt with ⟨(_ | _ | _), console⟩
  · trivial
  · exact h
  · exact h

variable (P) in
theorem standing_rules (config : Config) : (standing P).Rules config P where
  consult h := stands_consult (fun _ _ _ => trivial) h
  change h f := stands_change h f
  count h := stands_count config h
  write h line := stands_write h line
  ask h name prompt := stands_ask h name prompt

end Action

/-! ## Statements of a program -/

namespace Program

variable {p : Program σ} {s : Stmt σ} {c : List (Stmt σ)}

/-- The statement stands somewhere in the program. -/
def Contains (p : Program σ) (s : Stmt σ) : Prop := ∃ c ∈ p.chains, s ∈ c

theorem exists_position (h : p.Contains s) : ∃ pos, p.statement? pos = some s := by
  obtain ⟨c, hc, hs⟩ := h
  obtain ⟨n, hn⟩ := List.mem_iff_getElem?.mp hc
  obtain ⟨i, hi⟩ := List.mem_iff_getElem?.mp hs
  refine ⟨⟨n, i⟩, ?_⟩
  rw [statement?, chain, hn]
  exact hi

theorem contains_of_mem_chain {n : Nat} (h : s ∈ p.chain n) : p.Contains s := by
  unfold chain at h
  cases hn : p.chains[n]? with
  | none =>
    rw [hn] at h
    cases h
  | some c =>
    rw [hn] at h
    exact ⟨c, List.mem_of_getElem? hn, h⟩

theorem contains_of_mem_rest {start? : Option Position} (h : s ∈ p.rest start?) :
    p.Contains s := by
  cases start? with
  | none => cases h
  | some pos => exact contains_of_mem_chain (List.mem_of_mem_drop h)

/-- The statements of the blocks of a statement stand in the program with it. -/
theorem contains_inner (h : p.Contains s) (hc : c ∈ s.blocks) {t : Stmt σ} (ht : t ∈ c) :
    p.Contains t := by
  obtain ⟨d, hd, hs⟩ := h
  obtain ⟨n, hn⟩ := List.mem_iff_getElem?.mp hd
  obtain ⟨after, hafter⟩ := (Stmt.preordered_chainsOf p.statements).block n d hn
  have hinner : c ∈ Stmt.chainsOf d := Stmt.mem_chainsOf.mpr ⟨s, hs, Stmt.blocks_subset_chains s hc⟩
  refine ⟨c, List.mem_of_mem_drop (i := n) ?_, ht⟩
  rw [show p.chains.drop n = _ from hafter]
  exact List.mem_cons_of_mem _ (List.mem_append_left _ hinner)

/-! ## Faults of a run -/

theorem exists_of_find_ok {label : String} {span : σ} {target : List (Stmt σ)}
    (h : p.landing.find label span = .ok target) : ∃ start?, target = p.rest start? := by
  rw [find_landing] at h
  cases hr : p.resolve? label with
  | none =>
    rw [hr] at h
    cases h
  | some pos =>
    rw [hr] at h
    cases h
    exact ⟨some pos, rfl⟩

theorem span_of_find_error {label : String} {span : σ} {l : Located σ}
    (h : p.landing.find label span = .error l) : l.span = span := by
  rw [find_landing] at h
  cases hr : p.resolve? label with
  | none =>
    rw [hr] at h
    cases h
    rfl
  | some pos =>
    rw [hr] at h
    cases h

/-- A fault of a run stands at a place in a statement of the program. -/
theorem fault_place {config : Config} {fuel : Nat} {start? : Option Position} {st st' : State}
    {l : Located σ} (h : p.runFrom config fuel start? st = (.fault l, st')) :
    ∃ s, p.Contains s ∧ l.span ∈ s.places := by
  let P (place : σ) : Prop := ∃ s, p.Contains s ∧ place ∈ s.places
  have hcovers : (Action.standing P).Covers config (fun _ place => P place) p.Contains := by
    refine ⟨fun s hs => ?_, fun s hs c hc t ht => contains_inner hs hc ht⟩
    exact Action.Logic.obeyed_of_places (Action.standing_rules P config) fun place hplace =>
      ⟨s, hs, hplace⟩
  have hland (label : String) (span : σ) (hspan : P span) :
      (Action.consult fun _ => p.landing.find label span).Stands P fun target =>
        ∀ t ∈ target, p.Contains t := by
    refine Action.stands_consult (fun _ target htarget t ht => ?_) fun _ l hl => ?_
    · obtain ⟨pos, rfl⟩ := exists_of_find_ok htarget
      exact contains_of_mem_rest ht
    · rwa [span_of_find_error hl]
  have hrun : (runChain config fuel p.landing (fuel + 1) (p.rest start?)).Stands P fun _ => True :=
    Action.Logic.runChain_holds hcovers hland _ fun s hs => contains_of_mem_rest hs
  rw [runFrom_eq] at h
  have hfault := hrun { st with steps := 0 }
  rw [h] at hfault
  exact hfault

end Program

/-! ## The start of a counting loop -/

/-- What a variable has been given can be read back. -/
theorem Store.get_assign {s t : Store} {name : String} {v : Value}
    (h : s.assign name v = .ok t) : t.get name = .ok v :=
  (Slots.get_puts (Slots.puts_of_assign (assign_eq_ok.mp h))).1

/-- Begins a counting loop, and takes the start value from the variable that was given it. A fault
of this reading stands at `place`. -/
def Range.enterReading (span place : σ) (r : Range σ) : Action σ (Stride × Float) := do
  let stride ← Action.consult (r.stride span)
  let v ← Action.consult r.start.eval
  Action.change r.counter.span (·.assign r.counter.text v)
  let v ← Action.consult fun s => Fault.locate place (s.get r.counter.text)
  let start ← Action.consult fun _ => v.expectNumber .forCounter r.counter.span
  return (stride, start)

/-- The variable of a counting loop has its start value, so reading it back is no source of faults
and its place does not matter. -/
theorem Range.enter_eq_enterReading (span place : σ) (r : Range σ) :
    r.enter span = r.enterReading span place := by
  unfold enter enterReading
  refine bind_congr fun stride => bind_congr fun v => funext fun st => ?_
  simp only [Action.bind_apply, Action.change]
  cases h : st.store.assign r.counter.text v with
  | error fault => rfl
  | ok store =>
    simp only [Action.consult, Store.get_assign h, Fault.locate]

/-! ## Faults in the source -/

/-- **Faults are located.** A fault of a run stands in the source, inside the span of a statement of
the program. The one reading that is given no place of its own, at the start of a counting loop, is
no source of faults. -/
theorem Program.faults_located {source : String} {p : Program Span}
    (hparse : Program.parse source = .ok p) :
    (∀ (config : Config) (fuel : Nat) (start? : Option Position) (st : State) (l : Located Span)
      (st' : State), p.runFrom config fuel start? st = (.fault l, st') →
        l.span.start ≤ l.span.stop ∧ l.span.stop ≤ source.utf8ByteSize ∧
        ∃ pos s, p.statement? pos = some s ∧
          s.span.start ≤ l.span.start ∧ l.span.stop ≤ s.span.stop) ∧
    ∀ (span place : Span) (r : Range Span), r.enter span = r.enterReading span place := by
  refine ⟨fun config fuel start? st l st' hrun => ?_, Range.enter_eq_enterReading⟩
  obtain ⟨s, hs, hplace⟩ := fault_place hrun
  obtain ⟨pos, hpos⟩ := exists_position hs
  obtain ⟨c, hc, hmem⟩ := hs
  obtain ⟨hspan, hholds⟩ := parse_stands hparse c hc s hmem
  obtain ⟨hstart, hproper, hstop⟩ := hholds l.span hplace
  exact ⟨hproper, hstop.trans hspan.2.2, pos, s, hpos, hstart, hstop⟩

/-- What a check finds of the program in a source holds of a program. -/
theorem Program.exists_of_parse {source : String} {check : Program Span → Bool}
    (h : (Program.parse source).toOption.any check = true) :
    ∃ p, Program.parse source = .ok p ∧ check p = true := by
  cases hp : Program.parse source with
  | error e =>
    rw [hp] at h
    cases h
  | ok p =>
    rw [hp] at h
    exact ⟨p, rfl, h⟩

/-- Whether a program meets a fault at a place, if these lines are typed. -/
def Program.faultsAt (lines : List String) (span : Span) (p : Program Span) : Bool :=
  match p.run ⟨none, "?"⟩ 1 ⟨.fresh, { input := lines.map .line }, 0⟩ with
  | (.fault l, _) => l.span == span
  | _ => false

theorem Program.exists_of_faultsAt {lines : List String} {span : Span} {p : Program Span}
    (h : p.faultsAt lines span = true) :
    ∃ l st', p.run ⟨none, "?"⟩ 1 ⟨.fresh, { input := lines.map .line }, 0⟩ = (.fault l, st') ∧
      l.span = span := by
  unfold faultsAt at h
  split at h
  · next l st' hrun => exact ⟨l, st', hrun, beq_iff_eq.mp h⟩
  · cases h

/-- A typed line that makes no sense is a fault at the name that was asked for. -/
theorem typed_fault_located : ∃ p, Program.parse "Disp 1\nPrompt A" = .ok p ∧
    ∃ l st', p.run ⟨none, "?"⟩ 1 ⟨.fresh, { input := ["12345678901234567890)"].map .line }, 0⟩ =
      (.fault l, st') ∧ l.span = ⟨14, 15⟩ ∧
      ∃ pos s, p.statement? pos = some s ∧ s.span.start ≤ 14 ∧ 15 ≤ s.span.stop := by
  have hfaults : (Program.parse "Disp 1\nPrompt A").toOption.any
      (Program.faultsAt ["12345678901234567890)"] ⟨14, 15⟩) = true := by
    decide +kernel
  cases hp : Program.parse "Disp 1\nPrompt A" with
  | error e =>
    rw [hp] at hfaults
    cases hfaults
  | ok p =>
    rw [hp] at hfaults
    obtain ⟨l, st', hrun, hspan⟩ := Program.exists_of_faultsAt hfaults
    obtain ⟨-, -, pos, s, hs, hstart, hstop⟩ := (Program.faults_located hp).1 _ _ _ _ l st' hrun
    rw [hspan] at hstart hstop
    exact ⟨p, rfl, l, st', hrun, hspan, pos, s, hs, hstart, hstop⟩

end CalcBasic
