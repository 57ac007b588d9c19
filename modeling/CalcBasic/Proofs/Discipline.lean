import CalcBasic.Proofs.Noninterference

/-!
# Keeping to a discipline

Much of what is known of all runs has one form: the variables keep a property, and a run ends in no
faults but some. That is so if the operations on the variables have it under the names that occur,
and then it holds whatever a program does. A `Discipline` names the property, the faults, and two
kinds of names: those of variables, and those that stand before an index.

1. A discipline is lawful if the operations on the variables and the lines that can be typed keep to
   it (`Discipline.Lawful`). Then expressions whose names are known do. This needs only what
   expressions do themselves (`Evaluates.eval`), by induction on the expression.
2. An action is kept to a discipline if it keeps the property of the variables and ends in no other
   faults (`Discipline.Keeps`). This goes along with composition, and a statement whose names are
   known is kept (`Governs.obeyed`).
3. So a run of a program whose names are known is kept (`Governs.run`). Its jumps may have a fault
   of their own, that of a label that is not there.
-/

namespace CalcBasic

variable {σ α β : Type}

/-! ## Names before an index -/

namespace Expr

mutual

/-- The names in an expression that stand before an index. -/
def indexed : Expr σ → List String
  | literal _ _ | var _ _ => []
  | element _ n index => n :: index.indexed
  | list _ items => indexedAll items
  | binary _ _ left right => left.indexed ++ right.indexed
  | signed _ _ e | group _ e => e.indexed

/-- The names in some expressions that stand before an index. -/
def indexedAll : List (Expr σ) → List String
  | [] => []
  | e :: es => e.indexed ++ indexedAll es

end

end Expr

/-- The names in a target that stand before an index. -/
def Target.indexed : Target σ → List String
  | whole _ => []
  | element _ name index => name.text :: index.indexed

/-- The names in a command that stand before an index. -/
def Command.indexed : Command σ → List String
  | evaluate e => e.indexed
  | display es => Expr.indexedAll es
  | store e target => e.indexed ++ target.indexed
  | prompt _ | input _ _ | label _ | goto _ | stop => []

/-- The names in the head of a counting loop that stand before an index. -/
def Range.indexed (r : Range σ) : List String :=
  r.start.indexed ++ (r.last.indexed ++ (r.step.map Expr.indexed).getD [])

/-- The names in a statement that stand before an index, apart from those in its blocks. -/
def Stmt.indexed : Stmt σ → List String
  | command _ c => c.indexed
  | ifThen _ e _ | ifElse _ e _ _ | whileLoop _ e _ => e.indexed
  | forLoop _ range _ => range.indexed

/-- The names in a program that stand before an index. -/
def Program.indexed (p : Program σ) : List String :=
  p.chains.flatMap fun chain => chain.flatMap Stmt.indexed

theorem Program.Contains.indexed_subset {p : Program σ} {s : Stmt σ} (h : p.Contains s) :
    s.indexed ⊆ p.indexed := by
  obtain ⟨chain, hchain, hs⟩ := h
  intro name hname
  exact List.mem_flatMap.mpr ⟨chain, hchain, List.mem_flatMap.mpr ⟨s, hs, hname⟩⟩

/-! ## Faults of the variables -/

/-- The fault is about the variable with this name. -/
def Fault.About (name : String) : Fault → Prop
  | undefinedVariable n | indexOutOfRange n _ _ | wrongKind (.assignment n) _ _
  | wrongKind (.index n) _ _ | wrongKind (.element n) _ _ | wrongKind (.indexed n) _ _ => n = name
  | _ => False

theorem Fares.mono {ε : Type} {E E' : ε → Prop} {Q Q' : α → Prop} {x : Except ε α}
    (h : Fares E Q x) (hE : ∀ e, E e → E' e) (hQ : ∀ a, Q a → Q' a) : Fares E' Q' x := by
  cases x with
  | ok a => exact hQ a h
  | error e => exact hE e h

namespace Slots

variable (s : Slots) (name : String) (v i : Value)

theorem get_about : Fares (Fault.About name) (fun _ => True) (s.get name) := by
  unfold get
  repeat' split
  all_goals trivial

theorem index_about : Fares (Fault.About name) (fun _ => True) (index name i) := by
  cases i <;> trivial

theorem assign_about : Fares (Fault.About name) (fun _ => True) (s.assign name v) := by
  unfold assign
  repeat' split
  all_goals trivial

theorem list_about : Fares (Fault.About name) (fun _ => True) (s.list name) := by
  unfold list
  repeat' split
  all_goals trivial

theorem listToChange_about : Fares (Fault.About name) (fun _ => True) (s.listToChange name) := by
  unfold listToChange
  repeat' split
  all_goals trivial

theorem element_about : Fares (Fault.About name) (fun _ => True) (s.element name i) := by
  refine (index_about name i).bind fun x _ => (s.list_about name).bind fun l _ => ?_
  cases (Numbers.place? x l.size).bind l.get? <;> trivial

theorem setElement_about : Fares (Fault.About name) (fun _ => True) (s.setElement name v i) := by
  unfold setElement
  cases v with
  | list l => trivial
  | number x =>
    refine (index_about name i).bind fun y _ => ?_
    refine (s.listToChange_about name).bind fun ⟨l, put⟩ _ => ?_
    dsimp only
    cases Numbers.place? y (l.size + 1) <;> trivial

end Slots

namespace Store

variable (s : Store) (name : String) (v i : Value)

theorem assign_about : Fares (Fault.About name) (fun _ => True) (s.assign name v) := by
  have hslots := s.toSlots.assign_about name v
  cases h : s.assign name v with
  | ok t => trivial
  | error fault =>
    rw [assign_eq_error.mp h] at hslots
    exact hslots

theorem setElement_about : Fares (Fault.About name) (fun _ => True) (s.setElement name v i) := by
  have hslots := s.toSlots.setElement_about name v i
  cases h : s.setElement name v i with
  | ok t => trivial
  | error fault =>
    rw [setElement_eq_error.mp h] at hslots
    exact hslots

end Store

/-! ## Disciplines -/

/-- The fault is about a value or the console: about no variable, no label and no limit. -/
def Fault.General : Fault → Prop
  | wrongKind (.assignment _) .. | wrongKind (.index _) .. | wrongKind (.element _) ..
  | wrongKind (.indexed _) .. => False
  | undefinedVariable _ | indexOutOfRange .. | undefinedLabel .. | stepLimit _ => False
  | _ => True

/-- What is to be kept by everything that runs. -/
structure Discipline where
  /-- What holds of the variables all the time. -/
  keeps : Store → Prop
  /-- The faults that values and variables may have. -/
  admits : Fault → Prop
  /-- The faults that a run may end in, with the state then. -/
  ends : State → Fault → Prop
  /-- The names of variables. -/
  knows : String → Prop
  /-- The names of variables before an index. -/
  indexes : String → Prop

namespace Discipline

/-- The names are known, and so are those before an index. -/
structure Fits (D : Discipline) (names indexed : List String) : Prop where
  names : ∀ name ∈ names, D.knows name
  indexed : ∀ name ∈ indexed, D.indexes name

/-- There is a result with the property `Q`, or a fault that the discipline admits. -/
abbrev Admits (D : Discipline) (x : Except (Located σ) α) : Prop :=
  Fares (fun l => D.admits l.fault) (fun _ => True) x

/-- Values, variables and typed lines keep to the discipline. -/
structure Lawful (D : Discipline) : Prop where
  get : ∀ s name, D.keeps s → D.knows name → Fares D.admits (fun _ => True) (s.get name)
  element : ∀ s name i, D.keeps s → D.indexes name →
    Fares D.admits (fun _ => True) (s.element name i)
  assign : ∀ s name v, D.keeps s → D.knows name → Fares D.admits D.keeps (s.assign name v)
  setElement : ∀ s name v i, D.keeps s → D.indexes name →
    Fares D.admits D.keeps (s.setElement name v i)
  general : ∀ fault : Fault, fault.General → D.admits fault
  typed : ∀ line e, Expr.parse line = .ok e → D.Fits e.names e.indexed

/-- Expressions keep to the discipline: variables that are read do, and so do the faults of values
that are of the wrong kind inside an expression. -/
structure Evaluates (D : Discipline) : Prop where
  get : ∀ s name, D.keeps s → D.knows name → Fares D.admits (fun _ => True) (s.get name)
  element : ∀ s name i, D.keeps s → D.indexes name →
    Fares D.admits (fun _ => True) (s.element name i)
  operand : ∀ op, D.admits (.wrongKind (.operand op) .number .list)
  signed : ∀ sign, D.admits (.wrongKind (.signed sign) .number .list)
  listItem : D.admits (.wrongKind .listItem .number .list)

/-- Runs keep to the discipline, jumps apart. -/
structure Governs (D : Discipline) (config : Config) : Prop extends D.Lawful where
  ends : ∀ st fault, D.admits fault → D.ends st fault
  limit : ∀ st, ∀ n ∈ config.stepLimit, n < st.steps → D.ends st (.stepLimit n)

variable {D : Discipline} {names names' indexed indexed' : List String} {name : String}

theorem fits_append : D.Fits (names ++ names') (indexed ++ indexed') ↔
    D.Fits names indexed ∧ D.Fits names' indexed' := by
  constructor
  · rintro ⟨hnames, hindexed⟩
    obtain ⟨hn, hn'⟩ := List.forall_mem_append.mp hnames
    obtain ⟨hi, hi'⟩ := List.forall_mem_append.mp hindexed
    exact ⟨⟨hn, hi⟩, hn', hi'⟩
  · rintro ⟨h, h'⟩
    exact ⟨List.forall_mem_append.mpr ⟨h.names, h'.names⟩,
      List.forall_mem_append.mpr ⟨h.indexed, h'.indexed⟩⟩

theorem fits_cons :
    D.Fits (name :: names) indexed ↔ D.knows name ∧ D.Fits names indexed := by
  constructor
  · rintro ⟨hnames, hindexed⟩
    obtain ⟨hn, hnames⟩ := List.forall_mem_cons.mp hnames
    exact ⟨hn, hnames, hindexed⟩
  · rintro ⟨hn, h⟩
    exact ⟨List.forall_mem_cons.mpr ⟨hn, h.names⟩, h.indexed⟩

/-- An element: its name stands before the index. -/
theorem Fits.of_element (h : D.Fits (name :: names) (name :: indexed)) :
    D.indexes name ∧ D.Fits names indexed := by
  obtain ⟨hname, hindexed⟩ := List.forall_mem_cons.mp h.indexed
  exact ⟨hname, fun n hn => h.names n (List.mem_cons_of_mem _ hn), hindexed⟩

/-- The discipline that says nothing of variables and names, but only which faults there are. -/
def ofFaults (admits : Fault → Prop) (ends : State → Fault → Prop) : Discipline where
  keeps _ := True
  admits
  ends
  knows _ := True
  indexes _ := True

theorem fits_ofFaults {admits : Fault → Prop} {ends : State → Fault → Prop} :
    (ofFaults admits ends).Fits names indexed :=
  ⟨fun _ _ => trivial, fun _ _ => trivial⟩

theorem lawful_ofFaults {admits : Fault → Prop} {ends : State → Fault → Prop}
    (hgeneral : ∀ fault : Fault, fault.General → admits fault)
    (habout : ∀ name, ∀ fault : Fault, fault.About name → admits fault) :
    (ofFaults admits ends).Lawful where
  get s name _ _ := (s.get_about name).mono (habout name) fun _ _ => trivial
  element s name i _ _ := (s.element_about name i).mono (habout name) fun _ _ => trivial
  assign s name v _ _ := (s.assign_about name v).mono (habout name) fun _ _ => trivial
  setElement s name v i _ _ := (s.setElement_about name v i).mono (habout name) fun _ _ => trivial
  general := hgeneral
  typed _ _ _ := fits_ofFaults

theorem Fits.mono (h : D.Fits names indexed) (hnames : names' ⊆ names)
    (hindexed : indexed' ⊆ indexed) : D.Fits names' indexed' :=
  ⟨fun n hn => h.names n (hnames hn), fun n hn => h.indexed n (hindexed hn)⟩

/-! ## Values -/

theorem Admits.bind {x : Except (Located σ) α} {f : α → Except (Located σ) β} (hx : D.Admits x)
    (hf : ∀ a, D.Admits (f a)) : D.Admits (x >>= f) := Fares.bind hx fun a _ => hf a

theorem admits_locate {Q : α → Prop} {x : Except Fault α} (hx : Fares D.admits Q x) (span : σ) :
    D.Admits (Fault.locate span x) := by
  cases x with
  | ok a => trivial
  | error fault => exact hx

theorem admits_expectNumber (v : Value) {purpose : Purpose}
    (h : D.admits (.wrongKind purpose .number .list)) (span : σ) :
    D.Admits (v.expectNumber purpose span) := by
  cases v with
  | number x => trivial
  | list l => exact h

namespace Evaluates

variable {s : Store} (hD : D.Evaluates)

include hD

mutual

/-- **Expressions.** An expression whose names are known has a value or a fault that is admitted. -/
theorem eval (hs : D.keeps s) (e : Expr σ) (he : D.Fits e.names e.indexed) :
    D.Admits (e.eval s) := by
  cases e with
  | literal span x => trivial
  | var span name => exact admits_locate (hD.get s name hs (fits_cons.mp he).1) span
  | element span name index =>
    obtain ⟨hname, hindex⟩ := he.of_element
    rw [Expr.eval]
    refine (eval hs index hindex).bind fun i => ?_
    exact (admits_locate (hD.element s name i hs hname) span).bind fun x => trivial
  | list span items =>
    rw [Expr.eval]
    exact (evalItems hs #[] items he).bind fun xs => trivial
  | binary span op left right =>
    obtain ⟨hleft, hright⟩ := fits_append.mp he
    rw [Expr.eval]
    refine (eval hs left hleft).bind fun l => ?_
    by_cases hop : op.isLogical = true
    · rw [if_pos hop]
      refine (eval hs right hright).bind fun r => ?_
      refine (admits_expectNumber l (hD.operand op) _).bind fun x => ?_
      exact (admits_expectNumber r (hD.operand op) _).bind fun y => trivial
    · rw [if_neg hop]
      refine (admits_expectNumber l (hD.operand op) _).bind fun x => ?_
      refine (eval hs right hright).bind fun r => ?_
      exact (admits_expectNumber r (hD.operand op) _).bind fun y => trivial
  | signed span sign operand =>
    rw [Expr.eval]
    refine (eval hs operand he).bind fun v => ?_
    exact (admits_expectNumber v (hD.signed sign) _).bind fun x => trivial
  | group span inner =>
    rw [Expr.eval]
    exact eval hs inner he

theorem evalItems (hs : D.keeps s) (found : Array Float) (es : List (Expr σ))
    (hes : D.Fits (Expr.namesAll es) (Expr.indexedAll es)) :
    D.Admits (Expr.evalItems s found es) := by
  cases es with
  | nil => trivial
  | cons e es =>
    obtain ⟨he, hes⟩ := fits_append.mp hes
    rw [Expr.evalItems]
    refine (eval hs e he).bind fun v => ?_
    exact (admits_expectNumber v hD.listItem _).bind fun x => evalItems hs _ es hes

end

theorem evalNumber (hs : D.keeps s) {e : Expr σ} (he : D.Fits e.names e.indexed)
    {purpose : Purpose} (h : D.admits (.wrongKind purpose .number .list)) :
    D.Admits (e.evalNumber s purpose) :=
  (hD.eval hs e he).bind fun v => admits_expectNumber v h e.span

theorem stride (hs : D.keeps s) (span : σ) {r : Range σ} (hr : D.Fits r.names r.indexed)
    (hlast : D.admits (.wrongKind .forLast .number .list))
    (hstep : D.admits (.wrongKind .forStep .number .list)) (hzero : D.admits .zeroStep) :
    D.Admits (r.stride span s) := by
  obtain ⟨-, hr⟩ := fits_cons.mp hr
  obtain ⟨-, hr⟩ := fits_append.mp hr
  obtain ⟨hend, hby⟩ := fits_append.mp hr
  have hsigned (last step : Float) : D.Admits (σ := σ)
      (if step > 0 || step < 0 then pure (⟨last, step⟩ : Stride) else throw ⟨.zeroStep, span⟩) := by
    by_cases h : (step > 0 || step < 0) = true
    · rw [if_pos h]
      trivial
    · rw [if_neg h]
      exact hzero
  unfold Range.stride
  refine (hD.evalNumber hs hend hlast).bind fun last => ?_
  cases hr : r.step with
  | none => exact hsigned last 1
  | some e =>
    rw [hr] at hby
    exact (hD.evalNumber hs hby hstep).bind fun step => hsigned last step

end Evaluates

namespace Lawful

variable {s : Store} (hD : D.Lawful)

include hD

theorem evaluates : D.Evaluates where
  get := hD.get
  element := hD.element
  operand _ := hD.general _ trivial
  signed _ := hD.general _ trivial
  listItem := hD.general _ trivial

/-- The names in a line that is typed are known, whatever the line is. -/
theorem readAnswer (hs : D.keeps s) (name : Name σ) (line : String) :
    D.Admits (CalcBasic.readAnswer name line s) := by
  unfold CalcBasic.readAnswer
  cases hline : Expr.parse line with
  | error reason => exact hD.general (.badInput line reason) trivial
  | ok e =>
    have heval := hD.evaluates.eval hs e (hD.typed line e hline)
    dsimp only
    cases h : e.eval s with
    | error l =>
      rw [h] at heval
      exact heval
    | ok v => trivial

end Lawful

/-! ## Actions -/

/-- The action keeps what holds of the variables and ends in no other faults. Its results have the
property `Q`. -/
structure Keeps (D : Discipline) (x : Action σ α) (Q : α → Prop) : Prop where
  store : ∀ st, D.keeps st.store → D.keeps (x st).2.store
  done : ∀ st a st', D.keeps st.store → x st = (.done a, st') → Q a
  fault : ∀ st l st', D.keeps st.store → x st = (.fault l, st') → D.ends st' l.fault

theorem keeps_pure {a : α} {Q : α → Prop} (ha : Q a) : D.Keeps (pure a : Action σ α) Q where
  store _ h := h
  done _ _ _ _ h := (Action.pure_eq_done.mp h).1 ▸ ha
  fault _ _ _ _ h := by cases h

theorem Keeps.bind {x : Action σ α} {f : α → Action σ β} {Q : α → Prop} {R : β → Prop}
    (hx : D.Keeps x Q) (hf : ∀ a, Q a → D.Keeps (f a) R) : D.Keeps (x >>= f) R where
  store st hst := by
    have hmid := hx.store st hst
    rw [Action.bind_apply]
    rcases hr : x st with ⟨(a | l | _), mid⟩ <;> rw [hr] at hmid
    · exact (hf a (hx.done st a mid hst hr)).store mid hmid
    · exact hmid
    · exact hmid
  done st b st' hst h := by
    obtain ⟨a, mid, hdone, h⟩ := Action.bind_eq_done.mp h
    have hmid := hx.store st hst
    rw [hdone] at hmid
    exact (hf a (hx.done st a mid hst hdone)).done mid b st' hmid h
  fault st l st' hst h := by
    obtain h | ⟨a, mid, hdone, h⟩ := Action.bind_eq_fault.mp h
    · exact hx.fault st l st' hst h
    · have hmid := hx.store st hst
      rw [hdone] at hmid
      exact (hf a (hx.done st a mid hst hdone)).fault mid l st' hmid h

theorem Keeps.weaken {x : Action σ α} {Q R : α → Prop} (h : D.Keeps x Q) (hQ : ∀ a, Q a → R a) :
    D.Keeps x R where
  store := h.store
  done st a st' hst hx := hQ a (h.done st a st' hst hx)
  fault := h.fault

variable (σ D) in
/-- Keeping to a discipline goes along with composition. -/
def keeping : Action.Logic σ where
  Holds := D.Keeps
  pure := keeps_pure
  bind := Keeps.bind
  unfinished := ⟨fun _ h => h, fun _ _ _ _ h => (by cases h), fun _ _ _ _ h => (by cases h)⟩

namespace Governs

variable {config : Config} (hD : D.Governs config)

include hD

theorem consult {f : Store → Except (Located σ) α} (hf : ∀ s, D.keeps s → D.Admits (f s)) :
    D.Keeps (Action.consult f) fun _ => True where
  store st hst := (Action.store_consult f st).symm ▸ hst
  done _ _ _ _ _ := trivial
  fault st l st' hst h := by
    have hadmits := hf st.store hst
    rw [(Action.consult_eq_fault.mp h).1] at hadmits
    exact hD.ends _ _ hadmits

theorem change {f : Store → Except Fault Store}
    (hf : ∀ s, D.keeps s → Fares D.admits D.keeps (f s)) (span : σ) :
    D.Keeps (Action.change span f) fun _ => True where
  store st hst := by
    have hadmits := hf st.store hst
    unfold Action.change
    cases h : f st.store with
    | ok store =>
      rw [h] at hadmits
      exact hadmits
    | error fault => exact hst
  done _ _ _ _ _ := trivial
  fault st l st' hst h := by
    obtain ⟨fault, hfault, rfl, -⟩ := Action.change_eq_fault.mp h
    have hadmits := hf st.store hst
    rw [hfault] at hadmits
    exact hD.ends _ _ hadmits

theorem count (span : σ) : D.Keeps (Action.count config span) fun _ => True where
  store st hst := (Action.store_count config span st).symm ▸ hst
  done _ _ _ _ _ := trivial
  fault st l st' _ h := by
    obtain ⟨-, hcount⟩ | ⟨n, hn, hle, hcount⟩ := Action.count_cases config span st
    · rw [hcount] at h
      cases h
    · rw [hcount] at h
      cases h
      exact hD.limit _ n hn (Nat.lt_succ_of_le hle)

theorem write (span : σ) (line : String) : D.Keeps (Action.write span line) fun _ => True where
  store st hst := (Action.store_write span line st).symm ▸ hst
  done _ _ _ _ _ := trivial
  fault st l st' _ h := by
    unfold Action.write at h
    cases hwrite : st.console.write line <;> rw [hwrite] at h <;> cases h
    exact hD.ends _ _ (hD.general _ trivial)

theorem ask (span : σ) (name prompt : String) :
    D.Keeps (Action.ask span name prompt) fun _ => True where
  store st hst := (Action.store_ask span name prompt st).symm ▸ hst
  done _ _ _ _ _ := trivial
  fault st l st' _ h := by
    unfold Action.ask at h
    rcases hask : st.console.ask prompt with ⟨(_ | _ | _), console⟩ <;> rw [hask] at h <;> cases h
    · exact hD.ends _ _ (hD.general _ trivial)
    · exact hD.ends _ _ (hD.general _ trivial)

/-! ## Statements -/

theorem eval {e : Expr σ} (he : D.Fits e.names e.indexed) :
    D.Keeps (Action.consult e.eval) fun _ => True :=
  hD.consult fun _ hs => hD.evaluates.eval hs e he

theorem evalNumber {e : Expr σ} (he : D.Fits e.names e.indexed) (purpose : Purpose)
    (h : (Fault.wrongKind purpose .number .list).General) :
    D.Keeps (Action.consult (e.evalNumber · purpose)) fun _ => True :=
  hD.consult fun _ hs => hD.evaluates.evalNumber hs he (hD.general _ h)

theorem give {name : Name σ} (h : D.knows name.text) (v : Value) :
    D.Keeps (Action.change name.span (·.assign name.text v)) fun _ => True :=
  hD.change (fun s hs => hD.toLawful.assign s name.text v hs h) name.span

theorem askFor {name : Name σ} (h : D.knows name.text) (prompt : String) :
    D.Keeps (CalcBasic.askFor prompt name) fun _ => True := by
  refine (hD.ask name.span name.text prompt).bind fun line _ => ?_
  refine (hD.consult fun s hs => hD.readAnswer hs name line).bind fun v _ => ?_
  exact hD.give h v

theorem promptAll (asked : List (Name σ)) (h : D.Fits (asked.map Name.text) []) :
    D.Keeps (CalcBasic.promptAll asked) fun _ => True := by
  induction asked with
  | nil => exact keeps_pure trivial
  | cons name asked ih =>
    obtain ⟨hname, hasked⟩ := fits_cons.mp h
    exact (hD.askFor hname _).bind fun _ _ => ih hasked

theorem displayAll (span : σ) (es : List (Expr σ))
    (hes : D.Fits (Expr.namesAll es) (Expr.indexedAll es)) :
    D.Keeps (CalcBasic.displayAll span es) fun _ => True := by
  induction es with
  | nil => exact keeps_pure trivial
  | cons e es ih =>
    obtain ⟨he, hes⟩ := fits_append.mp hes
    exact (hD.eval he).bind fun v _ => (hD.write span _).bind fun _ _ => ih hes

theorem put {target : Target σ} (h : D.Fits target.names target.indexed) (v : Value) :
    D.Keeps (target.put v) fun _ => True := by
  cases target with
  | whole name => exact hD.give (fits_cons.mp h).1 v
  | element span name index =>
    obtain ⟨hname, hindex⟩ := h.of_element
    refine (hD.eval hindex).bind fun i _ => ?_
    exact hD.change (fun s hs => hD.setElement s name.text v i hs hname) span

theorem exec (span : σ) {c : Command σ} (h : D.Fits c.names c.indexed) :
    D.Keeps (c.exec config span) fun _ => True := by
  cases c with
  | evaluate e => exact (hD.eval h).bind fun _ _ => keeps_pure trivial
  | display es => exact (hD.displayAll span es h).bind fun _ _ => keeps_pure trivial
  | store e target =>
    obtain ⟨he, htarget⟩ := fits_append.mp h
    refine (hD.eval he).bind fun v _ => ?_
    exact (hD.put htarget v).bind fun _ _ => keeps_pure trivial
  | prompt asked => exact (hD.promptAll asked h).bind fun _ _ => keeps_pure trivial
  | input text name =>
    exact (hD.askFor (fits_cons.mp h).1 _).bind fun _ _ => keeps_pure trivial
  | label name | goto name | stop => exact keeps_pure trivial

theorem enter (span : σ) {r : Range σ} (h : D.Fits r.names r.indexed) :
    D.Keeps (r.enter span) fun _ => True := by
  obtain ⟨hcounter, hexprs⟩ := fits_cons.mp h
  obtain ⟨hstart, -⟩ := fits_append.mp hexprs
  refine (hD.consult fun s hs => hD.evaluates.stride hs span h (hD.general _ trivial)
    (hD.general _ trivial) (hD.general _ trivial)).bind fun stride _ => ?_
  refine (hD.eval hstart).bind fun v _ => (hD.give hcounter v).bind fun _ _ => ?_
  refine (hD.consult fun _ _ => ?_).bind fun start _ => keeps_pure trivial
  exact admits_expectNumber v (hD.general (.wrongKind .forCounter .number .list) trivial) _

/-- A statement whose names are known is kept, apart from its blocks. -/
theorem obeyed {s : Stmt σ} (h : D.Fits s.names s.indexed) :
    (D.keeping σ).Obeyed config (fun _ _ => True) s := by
  refine ⟨hD.count s.span, ?_⟩
  cases s with
  | command span c =>
    refine (hD.exec span h).weaken fun flow _ => ?_
    cases flow <;> trivial
  | ifThen _ condition _ | ifElse _ condition _ _ => exact hD.evalNumber h .ifCondition trivial
  | whileLoop _ condition _ => exact hD.evalNumber h .whileCondition trivial
  | forLoop span range _ =>
    exact ⟨hD.enter span h, fun x => hD.give (fits_cons.mp h).1 _⟩

/-! ## Runs -/

/-- **Runs.** A run of a program whose names are known is kept, if the faults of jumps to labels
that are not there may end it. -/
theorem run {p : Program σ} (h : D.Fits p.names p.indexed)
    (hfind : ∀ label span l, p.landing.find label span = .error l → ∀ st, D.ends st l.fault)
    (fuel : Nat) (start? : Option Position) :
    D.Keeps (p.runFrom config fuel start?) fun _ => True := by
  have hcovers : (D.keeping σ).Covers config (fun _ _ => True) p.Contains :=
    ⟨fun s hs => hD.obeyed (h.mono hs.names_subset hs.indexed_subset),
      fun s hs c hc t ht => Program.contains_inner hs hc ht⟩
  have hland (label : String) (span : σ) :
      D.Keeps (Action.consult fun _ => p.landing.find label span) fun target =>
        ∀ t ∈ target, p.Contains t := by
    refine ⟨fun st hst => (Action.store_consult _ st).symm ▸ hst, fun st target _ _ hdone => ?_,
      fun st l st' _ hfault => hfind label span l (Action.consult_eq_fault.mp hfault).1 st'⟩
    obtain ⟨pos, rfl⟩ := Program.exists_of_find_ok (Action.consult_eq_done.mp hdone).1
    exact fun t ht => Program.contains_of_mem_rest ht
  have hrun : D.Keeps (runChain config fuel p.landing (fuel + 1) (p.rest start?)) fun _ => True :=
    Action.Logic.runChain_holds hcovers (fun label span _ => hland label span) _
      fun s hs => Program.contains_of_mem_rest hs
  refine ⟨fun st hst => ?_, fun _ _ _ _ _ => trivial, fun st l st' hst hfault => ?_⟩
  · rw [Program.runFrom_eq]
    exact hrun.store { st with steps := 0 } hst
  · rw [Program.runFrom_eq] at hfault
    exact hrun.fault { st with steps := 0 } l st' hst hfault

end Governs

end Discipline

end CalcBasic
