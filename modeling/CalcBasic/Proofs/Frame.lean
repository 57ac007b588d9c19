import CalcBasic.Proofs.FaultPlaces

/-!
# What a run leaves alone

A run gives values to no variables but those that the text of the program names as written: the
target of a store, a name of a `Prompt` or an `Input`, the counter of a loop.

1. Whatever changes the variables puts one value under one name (`Slots.Puts`), so the other names
   keep theirs (`Store.AgreesBut`).
2. An action writes some names if every state that it leads to agrees with the one before but for
   these names (`Action.Writes`), whatever the outcome is. This goes along with composition, and a
   statement writes the names that its text has (`Action.obeyed_writes`).
3. So a run writes the names of its program (`Program.writes_run`).
-/

namespace CalcBasic

variable {σ α β : Type}

/-! ## The names that a program writes -/

/-- The variable that a value is stored in, as a whole or in part. -/
def Target.name : Target σ → Name σ
  | whole name | element _ name _ => name

/-- The names that a command gives values to. -/
def Command.written : Command σ → List String
  | store _ target => [target.name.text]
  | prompt names => names.map Name.text
  | input _ name => [name.text]
  | evaluate _ | display _ | label _ | goto _ | stop => []

/-- The names that a statement gives values to, apart from those in its blocks. -/
def Stmt.written : Stmt σ → List String
  | command _ c => c.written
  | forLoop _ range _ => [range.counter.text]
  | ifThen .. | ifElse .. | whileLoop .. => []

/-- The names that some statement of the program gives values to. -/
def Program.written (p : Program σ) : List String :=
  p.chains.flatMap fun chain => chain.flatMap Stmt.written

theorem Program.Contains.written_subset {p : Program σ} {s : Stmt σ} (h : p.Contains s) :
    s.written ⊆ p.written := by
  obtain ⟨chain, hchain, hs⟩ := h
  intro name hname
  exact List.mem_flatMap.mpr ⟨chain, hchain, List.mem_flatMap.mpr ⟨s, hs, hname⟩⟩

/-! ## Stores that agree but for some names -/

namespace Store

variable {s t u : Store} {names : List String}

/-- Every variable has the same value in both stores, apart from those with these names. -/
def AgreesBut (names : List String) (s t : Store) : Prop :=
  ∀ name, name ∉ names → t.get name = s.get name

theorem AgreesBut.refl (names : List String) (s : Store) : s.AgreesBut names s := fun _ _ => rfl

theorem AgreesBut.trans (h : s.AgreesBut names t) (h' : t.AgreesBut names u) :
    s.AgreesBut names u :=
  fun name hname => (h' name hname).trans (h name hname)

theorem agreesBut_of_puts {name : String} {v : Value} (h : s.toSlots.Puts name v t.toSlots)
    (hname : name ∈ names) : s.AgreesBut names t := by
  intro other hother
  refine (Slots.get_puts h).2 other ?_
  rintro rfl
  exact hother hname

theorem agreesBut_assign {name : String} {v : Value} (h : s.assign name v = .ok t)
    (hname : name ∈ names) : s.AgreesBut names t :=
  agreesBut_of_puts (Slots.puts_of_assign (assign_eq_ok.mp h)) hname

theorem setElement_eq_ok {name : String} {value index : Value} :
    s.setElement name value index = .ok t ↔
      s.toSlots.setElement name value index = .ok t.toSlots := by
  obtain ⟨t, ht⟩ := t
  unfold setElement
  split <;> rename_i h <;> simp [h]

theorem agreesBut_setElement {name : String} {value index : Value}
    (h : s.setElement name value index = .ok t) (hname : name ∈ names) : s.AgreesBut names t := by
  obtain ⟨changed, hputs⟩ := Slots.puts_of_setElement (setElement_eq_ok.mp h)
  exact agreesBut_of_puts hputs hname

end Store

/-! ## Actions -/

namespace Action

variable {names : List String}

/-- Whatever its outcome, the action gives values to no variables but those with these names. Its
results have the property `Q`. -/
def Writes (names : List String) (x : Action σ α) (Q : α → Prop) : Prop :=
  ∀ st, st.store.AgreesBut names (x st).2.store ∧ ∀ a, (x st).1 = .done a → Q a

theorem writes_pure {a : α} {Q : α → Prop} (ha : Q a) : Writes names (pure a : Action σ α) Q := by
  intro st
  refine ⟨.refl _ _, ?_⟩
  rintro _ ⟨⟩
  exact ha

theorem Writes.bind {x : Action σ α} {f : α → Action σ β} {Q : α → Prop} {R : β → Prop}
    (hx : x.Writes names Q) (hf : ∀ a, Q a → (f a).Writes names R) :
    (x >>= f).Writes names R := by
  intro st
  obtain ⟨hagree, hQ⟩ := hx st
  rw [bind_apply]
  rcases hr : x st with ⟨(a | e | _), st'⟩ <;> rw [hr] at hagree hQ
  · obtain ⟨hagree', hR⟩ := hf a (hQ a rfl) st'
    exact ⟨hagree.trans hagree', hR⟩
  · exact ⟨hagree, nofun⟩
  · exact ⟨hagree, nofun⟩

/-- What is written goes along with composition. -/
def writing (names : List String) : Action.Logic σ where
  Holds := Writes names
  pure := writes_pure
  bind := Writes.bind
  unfinished := fun _ => ⟨.refl _ _, nofun⟩

/-- An action that leaves the store as it is. -/
theorem writes_of_store_eq {x : Action σ α} (h : ∀ st, (x st).2.store = st.store) :
    x.Writes names fun _ => True := by
  intro st
  rw [h st]
  exact ⟨.refl _ _, fun _ _ => trivial⟩

theorem store_consult (f : Store → Except (Located σ) α) (st : State) :
    (consult f st).2.store = st.store := by
  unfold consult
  cases f st.store <;> rfl

theorem store_count (config : Config) (span : σ) (st : State) :
    (count config span st).2.store = st.store := by
  rw [state_count]

theorem store_write (span : σ) (line : String) (st : State) :
    (write span line st).2.store = st.store := by
  unfold write
  cases st.console.write line <;> rfl

theorem store_ask (span : σ) (name prompt : String) (st : State) :
    (ask span name prompt st).2.store = st.store := by
  unfold ask
  rcases st.console.ask prompt with ⟨(_ | _ | _), console⟩ <;> rfl

theorem writes_consult (f : Store → Except (Located σ) α) :
    (consult f).Writes names fun _ => True := writes_of_store_eq (store_consult f)

theorem writes_change {f : Store → Except Fault Store} (span : σ)
    (h : ∀ s t, f s = .ok t → s.AgreesBut names t) :
    (change span f).Writes names fun _ => True := by
  intro st
  refine ⟨?_, fun _ _ => trivial⟩
  unfold change
  cases hf : f st.store with
  | ok store => exact h st.store store hf
  | error fault => exact .refl _ _

theorem writes_assign {name : String} (h : name ∈ names) (span : σ) (v : Value) :
    (change span (·.assign name v)).Writes names fun _ => True :=
  writes_change span fun _ _ hassign => Store.agreesBut_assign hassign h

end Action

/-! ## Statements -/

section Statements

open CalcBasic.Action

variable {names : List String}

/-- An answer that was typed goes to the variable it was asked for, and to no other. -/
theorem writes_askFor {name : Name σ} (h : name.text ∈ names) (prompt : String) :
    (askFor prompt name).Writes names fun _ => True := by
  refine Writes.bind (writes_of_store_eq (store_ask _ _ _)) fun line _ => ?_
  exact (writes_consult _).bind fun v _ => writes_assign h name.span v

theorem writes_promptAll (asked : List (Name σ)) (h : ∀ name ∈ asked, name.text ∈ names) :
    (promptAll asked).Writes names fun _ => True := by
  induction asked with
  | nil => exact writes_pure trivial
  | cons name asked ih =>
    obtain ⟨hname, hasked⟩ := List.forall_mem_cons.mp h
    exact (writes_askFor hname _).bind fun _ _ => ih hasked

theorem writes_displayAll (span : σ) (es : List (Expr σ)) :
    (displayAll span es).Writes names fun _ => True := by
  induction es with
  | nil => exact writes_pure trivial
  | cons e es ih =>
    refine (writes_consult _).bind fun v _ => ?_
    exact Writes.bind (writes_of_store_eq (store_write _ _)) fun _ _ => ih

theorem writes_put {target : Target σ} (h : target.name.text ∈ names) (v : Value) :
    (target.put v).Writes names fun _ => True := by
  cases target with
  | whole name => exact writes_assign h name.span v
  | element span name index =>
    refine (writes_consult _).bind fun i _ => writes_change span fun s t hset => ?_
    exact Store.agreesBut_setElement hset h

theorem writes_exec (config : Config) (span : σ) {c : Command σ} (h : c.written ⊆ names) :
    (c.exec config span).Writes names fun _ => True := by
  cases c with
  | evaluate e => exact (writes_consult _).bind fun _ _ => writes_pure trivial
  | display es => exact (writes_displayAll span es).bind fun _ _ => writes_pure trivial
  | store e target =>
    refine (writes_consult _).bind fun v _ => ?_
    exact (writes_put (h List.mem_cons_self) v).bind fun _ _ => writes_pure trivial
  | prompt asked =>
    have hasked : ∀ name ∈ asked, name.text ∈ names := fun name hname =>
      h (List.mem_map_of_mem hname)
    exact (writes_promptAll asked hasked).bind fun _ _ => writes_pure trivial
  | input text name =>
    exact (writes_askFor (h List.mem_cons_self) _).bind fun _ _ => writes_pure trivial
  | label name | goto name | stop => exact writes_pure trivial

theorem writes_enter (span : σ) {r : Range σ} (h : r.counter.text ∈ names) :
    (r.enter span).Writes names fun _ => True := by
  refine (writes_consult _).bind fun stride _ => (writes_consult _).bind fun v _ => ?_
  refine (writes_assign h r.counter.span v).bind fun _ _ => ?_
  exact (writes_consult _).bind fun start _ => writes_pure trivial

/-- A statement writes the names that its text has, apart from its blocks. -/
theorem Action.obeyed_writes (config : Config) {s : Stmt σ} (h : s.written ⊆ names) :
    (writing names).Obeyed config (fun _ _ => True) s := by
  refine ⟨writes_of_store_eq (store_count config s.span), ?_⟩
  cases s with
  | command span c =>
    intro st
    refine ⟨(writes_exec config span h st).1, fun flow _ => ?_⟩
    cases flow <;> trivial
  | ifThen _ condition _ | ifElse _ condition _ _ | whileLoop _ condition _ =>
    exact writes_consult _
  | forLoop span range _ =>
    have hcounter : range.counter.text ∈ names := h List.mem_cons_self
    exact ⟨writes_enter span hcounter, fun x => writes_assign hcounter _ _⟩

end Statements

/-! ## Runs -/

namespace Program

theorem covers_writes (config : Config) (p : Program σ) :
    (Action.writing p.written).Covers config (fun _ (_ : σ) => True) p.Contains :=
  ⟨fun _ hs => Action.obeyed_writes config hs.written_subset,
    fun _ hs _ hc _ ht => contains_inner hs hc ht⟩

/-- Executing the statements of a program writes the names that the program writes. -/
theorem writes_execAll (config : Config) (fuel : Nat) (p : Program σ) :
    (Stmt.execAll config fuel p.statements).Writes p.written (Flow.Allowed fun _ _ => True) :=
  Action.Logic.execAll_holds (p.covers_writes config) p.statements fun _ hs =>
    contains_of_mem_chain (n := 0) hs

/-- **Runs.** A run of a program writes the names that the program writes. -/
theorem writes_run (config : Config) (fuel : Nat) (p : Program σ) (start? : Option Position) :
    (p.runFrom config fuel start?).Writes p.written fun _ => True := by
  have hland (label : String) (span : σ) :
      (Action.consult fun _ => p.landing.find label span).Writes p.written fun target =>
        ∀ t ∈ target, p.Contains t := by
    intro st
    refine ⟨(Action.writes_consult _ st).1, fun target htarget t ht => ?_⟩
    unfold Action.consult at htarget
    cases hfind : p.landing.find label span with
    | error l =>
      rw [hfind] at htarget
      cases htarget
    | ok found =>
      rw [hfind] at htarget
      cases htarget
      obtain ⟨pos, rfl⟩ := exists_of_find_ok hfind
      exact contains_of_mem_rest ht
  have hrun : (runChain config fuel p.landing (fuel + 1) (p.rest start?)).Writes p.written
      fun _ => True :=
    Action.Logic.runChain_holds (p.covers_writes config) (fun label span _ => hland label span) _
      fun s hs => contains_of_mem_rest hs
  intro st
  rw [runFrom_eq]
  exact hrun { st with steps := 0 }

/-- **Frame.** Whatever the outcome of a run, a variable that no statement of the program writes has
the same value after it as before. An answer that was typed changes no variable but the one that it
was asked for. -/
theorem run_frame (config : Config) (fuel : Nat) (p : Program σ) (start? : Option Position)
    (st : State) :
    (∀ name, name ∉ p.written →
      (p.runFrom config fuel start? st).2.store.get name = st.store.get name) ∧
    ∀ (prompt : String) (asked : Name σ) (name : String), name ≠ asked.text →
      (askFor prompt asked st).2.store.get name = st.store.get name := by
  refine ⟨fun name hname => (p.writes_run config fuel start? st).1 name hname,
    fun prompt asked name hname => ?_⟩
  have hasked : asked.text ∈ [asked.text] := List.mem_cons_self
  exact (writes_askFor hasked prompt st).1 name fun h => hname (List.mem_singleton.mp h)

/-- A list that was copied does not change with its copy, nor does a variable that a typed line only
reads; the run ends in a fault. -/
theorem run_frame_copied : ∃ p, Program.parse "Prompt A\nL₁→L₂\nA→L₂(1)\nGoto 9" = .ok p ∧
    ∀ store : Store, ∀ name ∈ ["L₁", "B"],
      (p.run ⟨none, "?"⟩ 1 ⟨store, { input := ["B+7"].map .line }, 0⟩).2.store.get name =
        store.get name ∧
      (askFor "A?" (⟨⟨7, 8⟩, "A"⟩ : Name Span)
        ⟨store, { input := ["B+7"].map .line }, 0⟩).2.store.get name = store.get name := by
  have hwritten : (Program.parse "Prompt A\nL₁→L₂\nA→L₂(1)\nGoto 9").toOption.any
      (fun p => p.written = ["A", "L₂", "L₂"]) = true := by
    decide +kernel
  cases hp : Program.parse "Prompt A\nL₁→L₂\nA→L₂(1)\nGoto 9" with
  | error e =>
    rw [hp] at hwritten
    cases hwritten
  | ok p =>
    rw [hp] at hwritten
    have hwritten : p.written = ["A", "L₂", "L₂"] := of_decide_eq_true hwritten
    refine ⟨p, rfl, fun store name hname => ?_⟩
    obtain ⟨hrun, hask⟩ :=
      p.run_frame ⟨none, "?"⟩ 1 p.head? ⟨store, { input := ["B+7"].map .line }, 0⟩
    have hnot : name ∉ p.written ∧ name ≠ "A" := by
      rw [hwritten]
      revert name
      decide
    exact ⟨hrun name hnot.1, hask "A?" ⟨⟨7, 8⟩, "A"⟩ name hnot.2⟩

end Program

end CalcBasic
