import CalcBasic.Proofs.FaultPlaces

/-!
# Kinds

Whether an expression is a number or a list can mostly be told from its form: letters are numbers,
built-in lists are lists, and operators make numbers of numbers. A program in which this can be told
everywhere, and in which numbers stand where numbers are wanted, never meets a value of the wrong
kind and never reads a variable that has no value.

1. A letter always has a number and a built-in list always has a list, so in every store the
   operations on the variables of these two regions go well as far as kinds are concerned
   (`Store.get_safe`, `Store.assign_safe`, `Store.element_safe`, `Store.setElement_safe`).
2. So an expression with a kind has a value of that kind, or a fault of another sort
   (`Expr.eval_safe`), by induction on the expression.
3. So a well-kinded statement is safe by itself (`Action.obeyed_safe`), and a run of well-kinded
   statements is safe (`Program.safe_run`).
-/

namespace CalcBasic

variable {σ α β ε : Type}

/-! ## Well-kinded programs -/

namespace Expr

mutual

/-- The kind that an expression has by its form. There is none if a name in the expression is free,
or if an operand, an index or an item in it is no number by its form. -/
def kind? : Expr σ → Option Kind
  | literal _ _ => some .number
  | var _ name => (Region.of name).kind?
  | element _ name index =>
    if Region.of name ≠ .free ∧ index.kind? = some .number then some .number else none
  | list _ items => if areNumbers items then some .list else none
  | binary _ _ left right =>
    if left.kind? = some .number ∧ right.kind? = some .number then some .number else none
  | signed _ _ operand => if operand.kind? = some .number then some .number else none
  | group _ inner => inner.kind?

/-- Whether some expressions are numbers by their form. -/
def areNumbers : List (Expr σ) → Bool
  | [] => true
  | e :: es => e.kind? = some .number && areNumbers es

end

/-- Whether an expression is a number by its form. -/
def isNumber (e : Expr σ) : Bool := e.kind? = some .number

end Expr

/-- The kind of the values that may be stored in a target. -/
def Target.kind? : Target σ → Option Kind
  | whole name => (Region.of name.text).kind?
  | element _ name index =>
    if Region.of name.text ≠ .free ∧ index.isNumber then some .number else none

/-- Whether the expressions of a command have kinds, and a value that is stored has the kind of its
target. What is typed may be of any kind. -/
def Command.isWellKinded : Command σ → Bool
  | evaluate e => e.kind?.isSome
  | display es => es.all (·.kind?.isSome)
  | store e target => e.kind?.isSome && e.kind? = target.kind?
  | prompt _ | input _ _ => false
  | label _ | goto _ | stop => true

/-- Whether a letter counts from a number to a number in steps of a number. -/
def Range.isWellKinded (r : Range σ) : Bool :=
  Region.of r.counter.text = .letter && r.start.isNumber && r.last.isNumber &&
    r.step.all Expr.isNumber

/-- Whether a statement is well-kinded, apart from its blocks. -/
def Stmt.isWellKinded : Stmt σ → Bool
  | command _ c => c.isWellKinded
  | ifThen _ condition _ | ifElse _ condition _ _ | whileLoop _ condition _ => condition.isNumber
  | forLoop _ range _ => range.isWellKinded

/-- Whether every statement of the program is well-kinded. -/
def Program.isWellKinded (p : Program σ) : Bool := p.chains.all (·.all Stmt.isWellKinded)

theorem Program.Contains.isWellKinded {p : Program σ} {s : Stmt σ} (h : p.Contains s)
    (hp : p.isWellKinded = true) : s.isWellKinded = true := by
  obtain ⟨c, hc, hs⟩ := h
  exact List.all_eq_true.mp (List.all_eq_true.mp hp c hc) s hs

/-! ## Shape

Only a list has elements in a program that was read. -/

namespace Stmt

theorem shapedAll_iff {ss : List (Stmt σ)} : ShapedAll ss ↔ ∀ s ∈ ss, s.Shaped := by
  induction ss with
  | nil => simp [ShapedAll]
  | cons s ss ih => rw [ShapedAll, ih, List.forall_mem_cons]

mutual

theorem shaped_chains (s : Stmt σ) (hs : s.Shaped) : Everywhere Shaped s.chains := by
  cases s with
  | command span c => exact fun _ h => nomatch h
  | ifThen span condition body | whileLoop span condition body | forLoop span range body =>
    exact shaped_chainsOf body hs.2
  | ifElse span condition body otherwise =>
    intro c hc
    obtain hc | hc := List.mem_append.mp hc
    · exact shaped_chainsOf body hs.2.1 c hc
    · exact shaped_chainsOf otherwise hs.2.2 c hc

theorem shaped_chainsOf (ss : List (Stmt σ)) (hss : ShapedAll ss) :
    Everywhere Shaped (ss :: chainsOf ss) := by
  cases ss with
  | nil => simp [Everywhere, chainsOf]
  | cons s rest =>
    intro c hc
    obtain rfl | hc := List.mem_cons.mp hc
    · exact shapedAll_iff.mp hss
    · obtain hc | hc := List.mem_append.mp hc
      · exact shaped_chains s hss.1 c hc
      · exact shaped_chainsOf rest hss.2 c (List.mem_cons_of_mem _ hc)

end

end Stmt

/-- Every statement of a program that was read is shaped. -/
theorem Program.shaped_of_parse {source : String} {p : Program Span}
    (h : Program.parse source = .ok p) {s : Stmt Span} (hs : p.Contains s) : s.Shaped := by
  obtain ⟨ts, -, hread⟩ := Reader.ofSource_eq_ok.mp h
  obtain ⟨c, hc, hmem⟩ := hs
  exact Stmt.shaped_chainsOf p.statements (reader_finds hread).1.shaped c hc s hmem

/-- A name that is not free and has elements is that of a list. -/
theorem Region.eq_list {r : Region} (hfree : r ≠ .free) (hindexable : r.isIndexable = true) :
    r = .list := by
  cases r with
  | letter => cases hindexable
  | list => rfl
  | free => exact absurd rfl hfree

/-! ## Safe results -/

/-- A result has the property `Q`, and an error has the property `E`. -/
def Fares (E : ε → Prop) (Q : α → Prop) : Except ε α → Prop
  | .ok a => Q a
  | .error e => E e

theorem Fares.bind {E : ε → Prop} {x : Except ε α} {f : α → Except ε β} {Q : α → Prop}
    {R : β → Prop} (hx : Fares E Q x) (hf : ∀ a, Q a → Fares E R (f a)) : Fares E R (x >>= f) := by
  cases x with
  | ok a => exact hf a hx
  | error e => exact hx

/-- The fault says neither that a value is of the wrong kind nor that a variable has none. -/
def Fault.Safe : Fault → Prop
  | wrongKind .. | undefinedVariable _ => False
  | _ => True

/-- The fault is not about kinds, wherever it stands. -/
def Located.Safe (l : Located σ) : Prop := l.fault.Safe

theorem Fares.locate {x : Except Fault α} {Q : α → Prop} (hx : Fares Fault.Safe Q x) (span : σ) :
    Fares Located.Safe Q (Fault.locate span x) := by
  cases x with
  | ok a => exact hx
  | error e => exact hx

/-! ## Variables -/

namespace Store

variable {s : Store} {name : String} {v i : Value}

theorem get_safe {k : Kind} (h : (Region.of name).kind? = some k) :
    Fares Fault.Safe (fun v => v.kind = k) (s.get name) := by
  unfold Slots.get
  obtain ⟨x, hr, hn, hl, -⟩ | ⟨l, hr, hn, hl, -⟩ | ⟨hr, hn, hl⟩ := s.regular.found name <;>
    rw [hr] at h
  · rw [hn]
    exact Option.some.inj h
  · rw [hn, hl]
    exact Option.some.inj h
  · cases h

theorem assign_safe (h : (Region.of name).kind? = some v.kind) :
    Fares Fault.Safe (fun _ => True) (s.assign name v) := by
  cases ha : s.assign name v with
  | ok t => trivial
  | error fault =>
    obtain ⟨kind, hkind, hne, -⟩ := (Slots.assign_eq_error s.regular).mp (assign_eq_error.mp ha)
    rw [h] at hkind
    exact absurd (Option.some.inj hkind) hne

theorem index_safe (hi : i.kind = .number) :
    Fares Fault.Safe (fun _ => True) (Slots.index name i) := by
  cases i with
  | number x => trivial
  | list l => cases hi

theorem list_safe (h : Region.of name = .list) :
    Fares Fault.Safe (fun _ => True) (s.list name) := by
  unfold Slots.list
  obtain ⟨x, hr, -⟩ | ⟨l, -, -, hl, -⟩ | ⟨hr, -⟩ := s.regular.found name
  · rw [h] at hr
    cases hr
  · rw [hl]
    trivial
  · rw [h] at hr
    cases hr

theorem element_safe (h : Region.of name = .list) (hi : i.kind = .number) :
    Fares Fault.Safe (fun _ => True) (s.element name i) := by
  refine (index_safe hi).bind fun x _ => (list_safe h).bind fun l _ => ?_
  cases (Numbers.place? x l.size).bind l.get? <;> trivial

theorem listToChange_safe (h : Region.of name = .list) :
    Fares Fault.Safe (fun _ => True) (s.listToChange name) := by
  have hlist : (s.listToChange name).map Prod.fst = s.list name :=
    (Slots.listToChange_eq s.regular name).trans (Slots.list_eq s.regular name).symm
  have hsafe := list_safe (s := s) h
  rw [← hlist] at hsafe
  cases hl : s.listToChange name with
  | ok found => trivial
  | error fault =>
    rw [hl] at hsafe
    exact hsafe

theorem setElement_eq_error {fault : Fault} : s.setElement name v i = .error fault ↔
    s.toSlots.setElement name v i = .error fault := by
  unfold setElement
  split <;> rename_i h <;> simp [h]

theorem setElement_safe (h : Region.of name = .list) (hv : v.kind = .number)
    (hi : i.kind = .number) : Fares Fault.Safe (fun _ => True) (s.setElement name v i) := by
  have hslots : Fares Fault.Safe (fun _ => True) (s.toSlots.setElement name v i) := by
    unfold Slots.setElement
    cases v with
    | list l => cases hv
    | number x =>
      refine (index_safe hi).bind fun x _ => (listToChange_safe h).bind fun ⟨l, put⟩ _ => ?_
      dsimp only
      cases Numbers.place? x (l.size + 1) <;> trivial
  cases hset : s.setElement name v i with
  | ok t => trivial
  | error fault =>
    rw [setElement_eq_error.mp hset] at hslots
    exact hslots

end Store

/-! ## Expressions -/

theorem Value.expectNumber_safe {v : Value} (h : v.kind = .number) (purpose : Purpose) (span : σ) :
    Fares Located.Safe (fun _ => True) (v.expectNumber purpose span) := by
  cases v with
  | number x => trivial
  | list l => cases h

namespace Expr

mutual

/-- **Expressions.** An expression that has a kind by its form has a value of that kind in every
store, or a fault that is not about kinds. -/
theorem eval_safe (s : Store) (e : Expr σ) {ph : Phrase} (he : e.Shaped ph) {k : Kind}
    (hk : e.kind? = some k) : Fares Located.Safe (fun v => v.kind = k) (e.eval s) := by
  cases e with
  | literal span x => exact Option.some.inj hk
  | var span name => exact (Store.get_safe hk).locate span
  | element span name index =>
    rw [kind?, Option.ite_none_right_eq_some] at hk
    obtain ⟨⟨hfree, hindex⟩, hk⟩ := hk
    have hname : Region.of name = .list := Region.eq_list hfree he.1
    rw [eval]
    refine (eval_safe s index he.2 hindex).bind fun i hi => ?_
    exact ((Store.element_safe hname hi).locate span).bind fun x _ => Option.some.inj hk
  | list span items =>
    rw [kind?, Option.ite_none_right_eq_some] at hk
    obtain ⟨hitems, hk⟩ := hk
    rw [eval]
    exact (evalItems_safe s #[] items he.2 hitems).bind fun xs _ => Option.some.inj hk
  | binary span op left right =>
    rw [kind?, Option.ite_none_right_eq_some] at hk
    obtain ⟨⟨hleft, hright⟩, hk⟩ := hk
    have hl := eval_safe s left he.2.1 hleft
    have hr := eval_safe s right he.2.2 hright
    have hk : Kind.number = k := Option.some.inj hk
    rw [eval]
    refine hl.bind fun l hl => ?_
    by_cases hop : op.isLogical = true
    · rw [if_pos hop]
      refine hr.bind fun r hr => (l.expectNumber_safe hl _ _).bind fun x _ => ?_
      exact (r.expectNumber_safe hr _ _).bind fun y _ => hk
    · rw [if_neg hop]
      refine (l.expectNumber_safe hl _ _).bind fun x _ => hr.bind fun r hr => ?_
      exact (r.expectNumber_safe hr _ _).bind fun y _ => hk
  | signed span sign operand =>
    obtain ⟨inner, -, hshaped⟩ := he
    rw [kind?, Option.ite_none_right_eq_some] at hk
    obtain ⟨hoperand, hk⟩ := hk
    rw [eval]
    refine (eval_safe s operand hshaped hoperand).bind fun v hv => ?_
    exact (v.expectNumber_safe hv _ _).bind fun x _ => Option.some.inj hk
  | group span inner => exact eval_safe s inner he hk

theorem evalItems_safe (s : Store) (found : Array Float) (es : List (Expr σ))
    (hes : ShapedAll es) (hk : areNumbers es = true) :
    Fares Located.Safe (fun _ => True) (evalItems s found es) := by
  cases es with
  | nil => trivial
  | cons e es =>
    rw [areNumbers, Bool.and_eq_true, decide_eq_true_eq] at hk
    rw [evalItems]
    refine (eval_safe s e hes.1 hk.1).bind fun v hv => ?_
    exact (v.expectNumber_safe hv _ _).bind fun x _ => evalItems_safe s _ es hes.2 hk.2

end

variable {e : Expr σ} {ph : Phrase}

theorem kind?_of_isNumber (h : e.isNumber = true) : e.kind? = some .number :=
  of_decide_eq_true h

theorem evalNumber_safe (s : Store) (he : e.Shaped ph) (h : e.isNumber = true)
    (purpose : Purpose) : Fares Located.Safe (fun _ => True) (e.evalNumber s purpose) :=
  (eval_safe s e he (kind?_of_isNumber h)).bind fun v hv => v.expectNumber_safe hv purpose e.span

end Expr

/-! ## Actions -/

/-- A result has the property `Q`, and a fault is not about kinds. -/
def Outcome.Safe (Q : α → Prop) : Outcome σ α → Prop
  | .done a => Q a
  | .fault l => l.Safe
  | .unfinished => True

namespace Action

/-- All outcomes of the action are safe. -/
def Safe (x : Action σ α) (Q : α → Prop) : Prop := ∀ st, (x st).1.Safe Q

theorem safe_pure {a : α} {Q : α → Prop} (ha : Q a) : Safe (pure a : Action σ α) Q := fun _ => ha

theorem Safe.bind {x : Action σ α} {f : α → Action σ β} {Q : α → Prop} {R : β → Prop}
    (hx : x.Safe Q) (hf : ∀ a, Q a → (f a).Safe R) : (x >>= f).Safe R := by
  intro st
  have h := hx st
  rw [bind_apply]
  rcases hr : x st with ⟨(a | l | _), st'⟩ <;> rw [hr] at h
  · exact hf a h st'
  · exact h
  · exact h

variable (σ) in
/-- That faults are not about kinds goes along with composition. -/
def safety : Action.Logic σ where
  Holds := Safe
  pure := safe_pure
  bind := Safe.bind
  unfinished := fun _ => trivial

theorem safe_consult {f : Store → Except (Located σ) α} {Q : α → Prop}
    (h : ∀ s, Fares Located.Safe Q (f s)) : (consult f).Safe Q := by
  intro st
  have hst := h st.store
  unfold consult
  cases hf : f st.store with
  | ok a =>
    rw [hf] at hst
    exact hst
  | error l =>
    rw [hf] at hst
    exact hst

theorem safe_change {span : σ} {f : Store → Except Fault Store}
    (h : ∀ s, Fares Fault.Safe (fun _ => True) (f s)) : (change span f).Safe fun _ => True := by
  intro st
  have hst := h st.store
  unfold change
  cases hf : f st.store with
  | ok store => trivial
  | error fault =>
    rw [hf] at hst
    exact hst

theorem safe_count (config : Config) (span : σ) : (count config span).Safe fun _ => True := by
  intro st
  obtain ⟨-, h⟩ | ⟨_, _, _, h⟩ := count_cases config span st <;> rw [h] <;> trivial

theorem safe_write (span : σ) (line : String) : (write span line).Safe fun _ => True := by
  intro st
  unfold write
  cases st.console.write line with
  | ok console => trivial
  | error reason => trivial

theorem safe_find (landing : Landing σ) (label : String) (span : σ) {Q : List (Stmt σ) → Prop}
    (h : ∀ target, landing.find label span = .ok target → Q target) :
    (consult fun _ => landing.find label span).Safe Q := by
  refine safe_consult fun _ => ?_
  unfold Landing.find at h ⊢
  cases hl : landing.targets.lookup label with
  | some target =>
    rw [hl] at h
    exact h target rfl
  | none => trivial

end Action

/-! ## Statements -/

section Statements

open CalcBasic.Action

theorem safe_displayAll (span : σ) (es : List (Expr σ)) (hes : ∀ e ∈ es, e.Shaped .whole)
    (hk : ∀ e ∈ es, e.kind?.isSome = true) : (displayAll span es).Safe fun _ => True := by
  induction es with
  | nil => exact safe_pure trivial
  | cons e es ih =>
    obtain ⟨he, hes⟩ := List.forall_mem_cons.mp hes
    obtain ⟨hek, hk⟩ := List.forall_mem_cons.mp hk
    obtain ⟨k, hek⟩ := Option.isSome_iff_exists.mp hek
    refine (safe_consult fun s => e.eval_safe s he hek).bind fun v _ => ?_
    exact (safe_write span _).bind fun _ _ => ih hes hk

theorem safe_put {target : Target σ} (htarget : target.Shaped) {v : Value}
    (hk : target.kind? = some v.kind) : (target.put v).Safe fun _ => True := by
  cases target with
  | whole name => exact safe_change fun s => Store.assign_safe hk
  | element span name index =>
    rw [Target.kind?, Option.ite_none_right_eq_some] at hk
    obtain ⟨⟨hfree, hindex⟩, hk⟩ := hk
    have hname : Region.of name.text = .list := Region.eq_list hfree htarget.1
    have hindex := Expr.kind?_of_isNumber hindex
    refine (safe_consult fun s => index.eval_safe s htarget.2 hindex).bind fun i hi => ?_
    exact safe_change fun s => Store.setElement_safe hname (Option.some.inj hk).symm hi

theorem safe_exec (config : Config) (span : σ) {c : Command σ} (hc : c.Shaped)
    (hk : c.isWellKinded = true) : (c.exec config span).Safe fun _ => True := by
  cases c with
  | evaluate e =>
    obtain ⟨k, hk⟩ := Option.isSome_iff_exists.mp hk
    exact (safe_consult fun s => e.eval_safe s hc hk).bind fun _ _ => safe_pure trivial
  | display es =>
    exact (safe_displayAll span es hc (List.all_eq_true.mp hk)).bind fun _ _ => safe_pure trivial
  | store e target =>
    rw [Command.isWellKinded, Bool.and_eq_true, decide_eq_true_eq] at hk
    obtain ⟨hsome, htarget⟩ := hk
    obtain ⟨k, hk⟩ := Option.isSome_iff_exists.mp hsome
    refine (safe_consult fun s => e.eval_safe s hc.1 hk).bind fun v hv => ?_
    have hput : target.kind? = some v.kind := by rw [← htarget, hk, hv]
    exact (safe_put hc.2 hput).bind fun _ _ => safe_pure trivial
  | prompt names | input text name => cases hk
  | label name | goto name | stop => exact safe_pure trivial

theorem Range.stride_safe (span : σ) {r : Range σ} (hr : r.Shaped) (hlast : r.last.isNumber = true)
    (hstep : r.step.all Expr.isNumber = true) (s : Store) :
    Fares Located.Safe (fun _ => True) (r.stride span s) := by
  obtain ⟨-, hshaped, hsteps⟩ := hr
  have hnonzero (last step : Float) : Fares (Located.Safe (σ := σ)) (fun _ => True)
      (if step > 0 || step < 0 then pure (⟨last, step⟩ : Stride) else throw ⟨.zeroStep, span⟩) := by
    by_cases h : (step > 0 || step < 0) = true
    · rw [if_pos h]
      trivial
    · rw [if_neg h]
      trivial
  unfold stride
  refine (Expr.evalNumber_safe s hshaped hlast _).bind fun last _ => ?_
  cases hr : r.step with
  | none => exact hnonzero last 1
  | some e =>
    rw [hr] at hstep hsteps
    exact (Expr.evalNumber_safe s (hsteps e rfl) hstep _).bind fun step _ => hnonzero last step

theorem safe_enter (span : σ) {r : Range σ} (hr : r.Shaped) (hk : r.isWellKinded = true) :
    (r.enter span).Safe fun _ => True := by
  rw [Range.isWellKinded, Bool.and_eq_true, Bool.and_eq_true, Bool.and_eq_true,
    decide_eq_true_eq] at hk
  obtain ⟨⟨⟨hcounter, hstart⟩, hlast⟩, hstep⟩ := hk
  have hstart := Expr.kind?_of_isNumber hstart
  refine (safe_consult (Range.stride_safe span hr hlast hstep)).bind fun stride _ => ?_
  refine (safe_consult fun s => r.start.eval_safe s hr.1 hstart).bind fun v hv => ?_
  have hassign : (Region.of r.counter.text).kind? = some v.kind := by rw [hcounter, hv]; rfl
  refine (safe_change fun s => Store.assign_safe hassign).bind fun _ _ => ?_
  exact (safe_consult fun _ => v.expectNumber_safe hv _ _).bind fun start _ => safe_pure trivial

/-- A well-kinded statement is safe, apart from its blocks. -/
theorem Action.obeyed_safe (config : Config) {s : Stmt σ} (hs : s.Shaped)
    (hk : s.isWellKinded = true) : (safety σ).Obeyed config (fun _ _ => True) s := by
  refine ⟨safe_count config s.span, ?_⟩
  cases s with
  | command span c =>
    intro st
    have h := safe_exec config span hs hk st
    rcases hr : c.exec config span st with ⟨((_ | _ | _) | l | _), st'⟩ <;> rw [hr] at h <;> exact h
  | ifThen _ condition _ | ifElse _ condition _ _ | whileLoop _ condition _ =>
    exact safe_consult fun s => condition.evalNumber_safe s hs.1 hk _
  | forLoop span range _ =>
    refine ⟨safe_enter span hs.1 hk, fun x => safe_change fun s => Store.assign_safe ?_⟩
    rw [Stmt.isWellKinded, Range.isWellKinded, Bool.and_eq_true, Bool.and_eq_true, Bool.and_eq_true,
      decide_eq_true_eq] at hk
    rw [hk.1.1.1]
    rfl

end Statements

/-! ## Runs -/

namespace Program

variable {source : String} {p : Program Span}

/-- **Runs.** A run of a well-kinded program is safe. -/
theorem safe_run (hparse : parse source = .ok p) (hp : p.isWellKinded = true) (config : Config)
    (fuel : Nat) (start? : Option Position) :
    (p.runFrom config fuel start?).Safe fun _ => True := by
  have hcovers : (Action.safety Span).Covers config (fun _ _ => True) p.Contains :=
    ⟨fun s hs => Action.obeyed_safe config (shaped_of_parse hparse hs) (hs.isWellKinded hp),
      fun s hs c hc t ht => contains_inner hs hc ht⟩
  have hland (label : String) (span : Span) :
      (Action.consult fun _ => p.landing.find label span).Safe fun target =>
        ∀ t ∈ target, p.Contains t := by
    refine Action.safe_find _ _ _ fun target htarget t ht => ?_
    obtain ⟨pos, rfl⟩ := exists_of_find_ok htarget
    exact contains_of_mem_rest ht
  have hrun : (runChain config fuel p.landing (fuel + 1) (p.rest start?)).Safe fun _ => True :=
    Action.Logic.runChain_holds hcovers (fun label span _ => hland label span) _
      fun s hs => contains_of_mem_rest hs
  intro st
  rw [runFrom_eq]
  exact hrun { st with steps := 0 }

/-- **Kind soundness.** A run of a well-kinded program, from whatever variables, meets no value of
the wrong kind and no variable without a value. -/
theorem wellKinded_sound (hparse : parse source = .ok p) (hp : p.isWellKinded = true)
    (config : Config) (fuel : Nat) (start? : Option Position) (st st' : State) (l : Located Span)
    (hrun : p.runFrom config fuel start? st = (.fault l, st')) :
    (∀ purpose expected got, l.fault ≠ .wrongKind purpose expected got) ∧
      ∀ name, l.fault ≠ .undefinedVariable name := by
  have hsafe : l.fault.Safe := by
    have h := safe_run hparse hp config fuel start? st
    rw [hrun] at h
    exact h
  refine ⟨fun purpose expected got h => ?_, fun name h => ?_⟩
  · rw [h] at hsafe
    exact hsafe
  · rw [h] at hsafe
    exact hsafe

/-- A list that is too short for its index is a fault of another sort. -/
theorem wellKinded_sound_index :
    ∃ p, Program.parse "\x7b1,2\x7d→L₁\nFor(I,3,4)\nDisp L₁(I)^2\nEnd" = .ok p ∧
      p.isWellKinded = true ∧
      ∃ l st', p.run ⟨none, "?"⟩ 1 ⟨.fresh, { input := [].map .line }, 0⟩ = (.fault l, st') ∧
        (∀ purpose expected got, l.fault ≠ .wrongKind purpose expected got) ∧
        ∀ name, l.fault ≠ .undefinedVariable name := by
  have hchecks : (Program.parse "\x7b1,2\x7d→L₁\nFor(I,3,4)\nDisp L₁(I)^2\nEnd").toOption.any
      (fun p => p.isWellKinded && p.faultsAt [] ⟨29, 36⟩) = true := by
    decide +kernel
  cases hp : Program.parse "\x7b1,2\x7d→L₁\nFor(I,3,4)\nDisp L₁(I)^2\nEnd" with
  | error e =>
    rw [hp] at hchecks
    cases hchecks
  | ok p =>
    rw [hp] at hchecks
    obtain ⟨hkinded, hfaults⟩ := (Bool.and_eq_true _ _).mp hchecks
    obtain ⟨l, st', hrun, -⟩ := exists_of_faultsAt hfaults
    exact ⟨p, rfl, hkinded, l, st', hrun, wellKinded_sound hp hkinded _ _ _ _ st' l hrun⟩

end Program

end CalcBasic
