import CalcBasic.Proofs.Frame
import CalcBasic.Proofs.InputQueue
import CalcBasic.Proofs.KindSoundness
import CalcBasic.Proofs.Rendering

/-!
# What a run does not depend on

A run depends on no variables but those that the text of its program names, and those that the lines
of its input name. Two runs that begin with the same values of these variables cannot be told apart.

1. Whatever consults the variables under some names finds the same in stores that agree on them
   (`Store.AgreesOn`), and whatever changes them leads to stores that agree on them
   (`Store.Agreed`). So an expression has the same value in both stores if they agree on its names
   (`Expr.eval_congr`).
2. The expression that a line of the input consists of has the names of the line's tokens
   (`Expr.names_subset_of_parse`).
3. An action is indifferent if it does the same from states that agree on these names
   (`Action.Indifferent`). This goes along with composition, and a statement is indifferent to all
   but its names (`Action.obeyed_indifferent`). So a run is (`Program.indifferent_run`).
-/

namespace CalcBasic

variable {σ α β : Type}

/-! ## The names that occur -/

/-- The variable that a token names. -/
def Token.name? : Token → Option String
  | name n => some n
  | _ => none

/-- The names that occur in a line; a line that has no tokens has no names. -/
def Token.namesIn (line : String) : List String :=
  match Token.read line with
  | .ok ts => (Reader.nodes ts).filterMap Token.name?
  | .error _ => []

namespace Expr

mutual

/-- The names that occur in an expression. -/
def names : Expr σ → List String
  | literal _ _ => []
  | var _ n => [n]
  | element _ n index => n :: index.names
  | list _ items => namesAll items
  | binary _ _ left right => left.names ++ right.names
  | signed _ _ e | group _ e => e.names

/-- The names that occur in some expressions. -/
def namesAll : List (Expr σ) → List String
  | [] => []
  | e :: es => e.names ++ namesAll es

end

end Expr

/-- The names that occur in a target. -/
def Target.names : Target σ → List String
  | whole name => [name.text]
  | element _ name index => name.text :: index.names

/-- The names that occur in a command. -/
def Command.names : Command σ → List String
  | evaluate e => e.names
  | display es => Expr.namesAll es
  | store e target => e.names ++ target.names
  | prompt names => names.map Name.text
  | input _ name => [name.text]
  | label _ | goto _ | stop => []

/-- The names that occur in the head of a counting loop. -/
def Range.names (r : Range σ) : List String :=
  r.counter.text :: (r.start.names ++ (r.last.names ++ (r.step.map Expr.names).getD []))

/-- The names that occur in a statement, apart from those in its blocks. -/
def Stmt.names : Stmt σ → List String
  | command _ c => c.names
  | ifThen _ e _ | ifElse _ e _ _ | whileLoop _ e _ => e.names
  | forLoop _ range _ => range.names

/-- The names that occur in a program. -/
def Program.names (p : Program σ) : List String :=
  p.chains.flatMap fun chain => chain.flatMap Stmt.names

/-- The names that occur in what is still to be read. -/
def Input.names : Input → List String
  | line s => Token.namesIn s
  | failure _ => []

/-- The names that occur in the lines that are still to be read. -/
def Console.names (c : Console) : List String := c.input.flatMap Input.names

theorem Program.Contains.names_subset {p : Program σ} {s : Stmt σ} (h : p.Contains s) :
    s.names ⊆ p.names := by
  obtain ⟨chain, hchain, hs⟩ := h
  intro name hname
  exact List.mem_flatMap.mpr ⟨chain, hchain, List.mem_flatMap.mpr ⟨s, hs, hname⟩⟩

/-! ## Names and tokens -/

theorem filterMap_name?_content (ts : List Token) :
    (content ts).filterMap Token.name? = ts.filterMap Token.name? := by
  unfold content
  rw [List.filterMap_filter]
  congr 1
  funext t
  cases t <;> simp [Token.isLayout, Token.name?]

theorem filterMap_name?_commas (tss : List (List Token)) :
    (commas tss).filterMap Token.name? = tss.flatMap (List.filterMap Token.name?) := by
  fun_induction commas tss with
  | case1 => rfl
  | case2 ts => simp
  | case3 ts us rest ih =>
    rw [List.filterMap_append, List.filterMap_cons_none rfl, ih, ← List.flatMap_cons]

namespace Expr

mutual

/-- The rendered expression has the names of the expression. -/
theorem filterMap_name?_render (e : Expr σ) : e.render.filterMap Token.name? = e.names := by
  cases e with
  | literal | var => rfl
  | element _ n index | group _ index =>
    simp [render, names, List.filterMap_cons, Token.name?, filterMap_name?_render index]
  | list _ items =>
    simp [render, names, List.filterMap_cons, Token.name?, filterMap_name?_commas,
      filterMap_name?_renderEach items]
  | binary _ _ left right =>
    simp [render, names, List.filterMap_cons, Token.name?, filterMap_name?_render left,
      filterMap_name?_render right]
  | signed _ _ e => simp [render, names, List.filterMap_cons, Token.name?, filterMap_name?_render e]

theorem filterMap_name?_renderEach (es : List (Expr σ)) :
    (renderEach es).flatMap (List.filterMap Token.name?) = namesAll es := by
  cases es with
  | nil => rfl
  | cons e es =>
    rw [renderEach, namesAll, List.flatMap_cons, filterMap_name?_render e,
      filterMap_name?_renderEach es]

end

/-- **Answers.** The expression that a line consists of has no names but those of the line. -/
theorem names_subset_of_parse {line : String} {e : Expr Span} (h : Expr.parse line = .ok e) :
    e.names ⊆ Token.namesIn line := by
  obtain ⟨ts, hts, hr⟩ := Reader.ofSource_eq_ok.mp h
  obtain ⟨used, rfl, hderives⟩ := reader_finds maxNesting _ _ _ hr
  have hcontent := hderives.content_eq
  rw [render_bare] at hcontent
  have hnames : Token.namesIn line = e.names := by
    unfold Token.namesIn
    rw [hts, List.append_nil]
    dsimp only
    rw [← filterMap_name?_content, hcontent, filterMap_name?_content, filterMap_name?_render]
  rw [hnames]
  exact List.Subset.refl _

end Expr

/-! ## Stores that agree on some names -/

namespace LockedMap

theorem list_congr {m m' : LockedMap} {name : String} (h : m name = m' name) :
    m.list name = m'.list name := by
  unfold list
  rw [h]

/-- Assigning is putting a value, which does not depend on the map. -/
theorem exists_assign (name : String) (v : Value) :
    ∃ o : Except Fault Value, ∀ m : LockedMap, m.assign name v = o.map (m.put name) := by
  unfold assign
  cases (Region.of name).kind? with
  | none => exact ⟨.ok v, fun _ => rfl⟩
  | some kind =>
    by_cases hk : v.kind = kind
    · exact ⟨.ok v, fun _ => if_pos hk⟩
    · exact ⟨.error (.wrongKind (.assignment name) kind v.kind), fun _ => if_neg hk⟩

/-- Changing an element is putting a list, which depends only on what the map has under the name. -/
theorem exists_setElement (name : String) (value index : Value) (found : Option Value) :
    ∃ o : Except Fault Value, ∀ m : LockedMap, m name = found →
      m.setElement name value index = o.map (m.put name) := by
  have hlist (m : LockedMap) (hm : m name = found) : m.list name = list (fun _ => found) name :=
    list_congr hm
  unfold setElement
  cases value with
  | list l => exact ⟨.error _, fun _ _ => rfl⟩
  | number x =>
    dsimp only
    cases Slots.index name index with
    | error fault => exact ⟨.error fault, fun _ _ => rfl⟩
    | ok place =>
      cases hl : list (fun _ => found) name with
      | error fault =>
        refine ⟨.error fault, fun m hm => ?_⟩
        rw [hlist m hm, hl]
        rfl
      | ok l =>
        cases hplace : Numbers.place? place (l.size + 1) with
        | none =>
          refine ⟨.error (.indexOutOfRange name place l.size), fun m hm => ?_⟩
          rw [hlist m hm, hl]
          dsimp only [bind, Except.bind]
          rw [hplace]
          rfl
        | some n =>
          refine ⟨.ok (.list ((l.set? x n).getD (l.push x))), fun m hm => ?_⟩
          rw [hlist m hm, hl]
          dsimp only [bind, Except.bind]
          rw [hplace]
          rfl

end LockedMap

namespace Store

variable {s t : Store} {names : List String}

/-- The variables with these names have the same values in both stores. -/
def AgreesOn (names : List String) (s t : Store) : Prop :=
  ∀ name ∈ names, s.get name = t.get name

/-- The same fault comes of two changes, or stores that agree on these names. -/
inductive Agreed (names : List String) : Except Fault Store → Except Fault Store → Prop where
  | ok {s t : Store} (h : s.AgreesOn names t) : Agreed names (.ok s) (.ok t)
  | error (fault : Fault) : Agreed names (.error fault) (.error fault)

theorem AgreesOn.view (h : s.AgreesOn names t) {name : String} (hname : name ∈ names) :
    s.view name = t.view name := by
  unfold Slots.view
  rw [h name hname]

theorem AgreesOn.element (h : s.AgreesOn names t) {name : String} (hname : name ∈ names)
    (index : Value) : s.element name index = t.element name index := by
  rw [Slots.element_eq s.regular, Slots.element_eq t.regular, LockedMap.element, LockedMap.element,
    LockedMap.list_congr (h.view hname)]

/-- Putting the same value under a name. -/
theorem AgreesOn.put (h : s.AgreesOn names t) (name : String) {o : Except Fault Value}
    {a b : Except Fault Store} (ha : a.map (·.view) = o.map (s.view.put name))
    (hb : b.map (·.view) = o.map (t.view.put name)) : Agreed names a b := by
  cases o with
  | error fault =>
    cases a <;> cases ha
    cases b <;> cases hb
    exact .error fault
  | ok v =>
    rcases a with _ | s'
    · cases ha
    rcases b with _ | t'
    · cases hb
    have hs : s'.view = s.view.put name v := Except.ok.inj ha
    have ht : t'.view = t.view.put name v := Except.ok.inj hb
    refine .ok fun other hother => ?_
    rw [Slots.get_eq, Slots.get_eq, LockedMap.get, LockedMap.get, hs, ht]
    by_cases hname : other = name
    · subst hname
      rw [LockedMap.put_self, LockedMap.put_self]
    · rw [LockedMap.put_of_ne hname, LockedMap.put_of_ne hname, h.view hother]

theorem view_assign (s : Store) (name : String) (v : Value) :
    (s.assign name v).map (·.view) = s.view.assign name v := by
  rw [← Slots.assign_eq s.regular]
  cases h : s.assign name v with
  | ok t => rw [assign_eq_ok.mp h]; rfl
  | error fault => rw [assign_eq_error.mp h]; rfl

theorem view_setElement (s : Store) (name : String) (value index : Value) :
    (s.setElement name value index).map (·.view) = s.view.setElement name value index := by
  rw [← Slots.setElement_eq s.regular]
  cases h : s.setElement name value index with
  | ok t => rw [setElement_eq_ok.mp h]; rfl
  | error fault => rw [setElement_eq_error.mp h]; rfl

theorem AgreesOn.assign (h : s.AgreesOn names t) (name : String) (v : Value) :
    Agreed names (s.assign name v) (t.assign name v) := by
  obtain ⟨o, ho⟩ := LockedMap.exists_assign name v
  exact h.put name ((view_assign s name v).trans (ho _)) ((view_assign t name v).trans (ho _))

theorem AgreesOn.setElement (h : s.AgreesOn names t) {name : String} (hname : name ∈ names)
    (value index : Value) :
    Agreed names (s.setElement name value index) (t.setElement name value index) := by
  obtain ⟨o, ho⟩ := LockedMap.exists_setElement name value index (t.view name)
  exact h.put name ((view_setElement s name value index).trans (ho _ (h.view hname)))
    ((view_setElement t name value index).trans (ho _ rfl))

end Store

/-! ## Values -/

section Values

variable {s t : Store} {names : List String}

namespace Expr

mutual

/-- The value of an expression depends on no variables but those that it names. -/
theorem eval_congr (h : s.AgreesOn names t) (e : Expr σ) (he : e.names ⊆ names) :
    e.eval s = e.eval t := by
  cases e with
  | literal span x => rfl
  | var span name => rw [eval, eval, h name (he List.mem_cons_self)]
  | element span name index =>
    obtain ⟨hname, hindex⟩ := List.cons_subset.mp he
    rw [eval, eval, eval_congr h index hindex]
    refine bind_congr fun i => ?_
    rw [h.element hname]
  | list span items => rw [eval, eval, evalItems_congr h #[] items he]
  | binary span op left right =>
    obtain ⟨hleft, hright⟩ := List.append_subset.mp he
    rw [eval, eval, eval_congr h left hleft, eval_congr h right hright]
  | signed span sign operand => rw [eval, eval, eval_congr h operand he]
  | group span inner => rw [eval, eval, eval_congr h inner he]

theorem evalItems_congr (h : s.AgreesOn names t) (found : Array Float) (es : List (Expr σ))
    (hes : namesAll es ⊆ names) : evalItems s found es = evalItems t found es := by
  cases es with
  | nil => rfl
  | cons e es =>
    obtain ⟨he, hes⟩ := List.append_subset.mp hes
    rw [evalItems, evalItems, eval_congr h e he]
    refine bind_congr fun v => bind_congr fun x => ?_
    exact evalItems_congr h (found.push x) es hes

end

theorem evalNumber_congr (h : s.AgreesOn names t) (e : Expr σ) (he : e.names ⊆ names)
    (purpose : Purpose) : e.evalNumber s purpose = e.evalNumber t purpose := by
  rw [evalNumber, evalNumber, eval_congr h e he]

end Expr

theorem readAnswer_congr (h : s.AgreesOn names t) (name : Name σ) {line : String}
    (hline : Token.namesIn line ⊆ names) : readAnswer name line s = readAnswer name line t := by
  unfold readAnswer
  cases hparse : Expr.parse line with
  | error reason => rfl
  | ok e =>
    dsimp only
    rw [e.eval_congr h (List.Subset.trans (Expr.names_subset_of_parse hparse) hline)]

theorem Range.stride_congr (h : s.AgreesOn names t) (span : σ) {r : Range σ}
    (hr : r.names ⊆ names) : r.stride span s = r.stride span t := by
  obtain ⟨-, hr⟩ := List.cons_subset.mp hr
  obtain ⟨-, hr⟩ := List.append_subset.mp hr
  obtain ⟨hlast, hstep⟩ := List.append_subset.mp hr
  unfold stride
  rw [r.last.evalNumber_congr h hlast]
  cases hs : r.step with
  | none => rfl
  | some e =>
    rw [hs] at hstep
    dsimp only
    rw [e.evalNumber_congr h hstep]

end Values

/-! ## Actions -/

/-- The states differ in nothing but the variables without these names, and the lines that are still
to be read have no names but these. -/
structure State.Alike (names : List String) (st st' : State) : Prop where
  store : st.store.AgreesOn names st'.store
  console : st.console = st'.console
  steps : st.steps = st'.steps
  lines : st.console.names ⊆ names

/-- Writing takes nothing from the input. -/
theorem Console.input_write {c c' : Console} {line : String} (h : c.write line = .ok c') :
    c'.input = c.input := by
  unfold write at h
  split at h <;> cases h <;> rfl

theorem State.Alike.heard {names : List String} {st st' : State} (h : st.Alike names st')
    (es : List Event) {input : List Input} (hinput : input ⊆ st.console.input) :
    (st.heard es input).Alike names (st'.heard es input) := by
  refine ⟨h.store, ?_, h.steps, fun name hname => h.lines ?_⟩
  · unfold State.heard
    rw [h.console]
  · obtain ⟨i, hi, hname⟩ := List.mem_flatMap.mp hname
    exact List.mem_flatMap.mpr ⟨i, hinput hi, hname⟩

namespace Action

variable {names : List String}

/-- From states that differ only in variables without these names the action comes to the same
outcome, and to such states again. Its results have the property `Q`. -/
def Indifferent (names : List String) (x : Action σ α) (Q : α → Prop) : Prop :=
  ∀ st st', st.Alike names st' →
    (x st).1 = (x st').1 ∧ (x st).2.Alike names (x st').2 ∧ ∀ a, (x st).1 = .done a → Q a

theorem indifferent_pure {a : α} {Q : α → Prop} (ha : Q a) :
    Indifferent names (pure a : Action σ α) Q := by
  intro st st' h
  refine ⟨rfl, h, ?_⟩
  rintro _ ⟨⟩
  exact ha

theorem Indifferent.bind {x : Action σ α} {f : α → Action σ β} {Q : α → Prop} {R : β → Prop}
    (hx : x.Indifferent names Q) (hf : ∀ a, Q a → (f a).Indifferent names R) :
    (x >>= f).Indifferent names R := by
  intro st st' h
  obtain ⟨hsame, halike, hQ⟩ := hx st st' h
  rw [bind_apply, bind_apply]
  rcases hr : x st with ⟨o, u⟩
  rcases hr' : x st' with ⟨o', u'⟩
  rw [hr, hr'] at hsame halike
  rw [hr] at hQ
  obtain rfl : o = o' := hsame
  rcases o with a | l | _
  · exact hf a (hQ a rfl) u u' halike
  · exact ⟨rfl, halike, nofun⟩
  · exact ⟨rfl, halike, nofun⟩

/-- That something does not depend on other variables goes along with composition. -/
def indifference (names : List String) : Action.Logic σ where
  Holds := Indifferent names
  pure := indifferent_pure
  bind := Indifferent.bind
  unfinished := fun _ _ h => ⟨rfl, h, nofun⟩

theorem indifferent_consult {f : Store → Except (Located σ) α} {Q : α → Prop}
    (hf : ∀ s t : Store, s.AgreesOn names t → f s = f t) (hQ : ∀ s a, f s = .ok a → Q a) :
    (consult f).Indifferent names Q := by
  intro st st' h
  unfold consult
  rw [hf st.store st'.store h.store]
  cases ha : f st'.store with
  | ok a =>
    refine ⟨rfl, h, ?_⟩
    rintro _ ⟨⟩
    exact hQ _ a ha
  | error e => exact ⟨rfl, h, nofun⟩

theorem indifferent_change (span : σ) {f : Store → Except Fault Store}
    (hf : ∀ s t : Store, s.AgreesOn names t → Store.Agreed names (f s) (f t)) :
    (change span f).Indifferent names fun _ => True := by
  intro st st' h
  have hagreed := hf st.store st'.store h.store
  unfold change
  generalize f st.store = a at hagreed
  generalize f st'.store = b at hagreed
  cases hagreed with
  | ok hstore => exact ⟨rfl, ⟨hstore, h.console, h.steps, h.lines⟩, fun _ _ => trivial⟩
  | error fault => exact ⟨rfl, h, nofun⟩

theorem indifferent_assign (span : σ) (name : String) (v : Value) :
    (change span (·.assign name v)).Indifferent names fun _ => True :=
  indifferent_change span fun _ _ h => h.assign name v

theorem indifferent_count (config : Config) (span : σ) :
    (count config span).Indifferent names fun _ => True := by
  intro st st' h
  have hcounted : State.Alike names { st with steps := st.steps + 1 }
      { st' with steps := st'.steps + 1 } :=
    ⟨h.store, h.console, congrArg (· + 1) h.steps, h.lines⟩
  unfold count
  cases config.stepLimit with
  | none => exact ⟨rfl, hcounted, fun _ _ => trivial⟩
  | some limit =>
    dsimp only
    rw [h.steps]
    rw [h.steps] at hcounted
    by_cases hl : limit < st'.steps + 1
    · rw [if_pos hl, if_pos hl]
      exact ⟨rfl, hcounted, nofun⟩
    · rw [if_neg hl, if_neg hl]
      exact ⟨rfl, hcounted, fun _ _ => trivial⟩

theorem indifferent_write (span : σ) (line : String) :
    (write span line).Indifferent names fun _ => True := by
  intro st st' h
  unfold write
  rw [← h.console]
  cases hw : st.console.write line with
  | error reason => exact ⟨rfl, h, nofun⟩
  | ok console =>
    refine ⟨rfl, ⟨h.store, rfl, h.steps, ?_⟩, fun _ _ => trivial⟩
    rw [Console.names, Console.input_write hw]
    exact h.lines

/-- A line that is read has no names but those of the lines to be read. -/
theorem indifferent_ask (span : σ) (name prompt : String) :
    (ask span name prompt).Indifferent names fun line => Token.namesIn line ⊆ names := by
  intro st st' h
  rw [ask_eq, ask_eq, ← h.console]
  dsimp only
  have hsuffix : st.console.input.dropWhile Input.isBlank <:+ st.console.input :=
    List.dropWhile_suffix _
  cases hrest : st.console.input.dropWhile Input.isBlank with
  | nil => exact ⟨rfl, h.heard _ (List.nil_subset _), nofun⟩
  | cons i rest =>
    rw [hrest] at hsuffix
    obtain ⟨hi, hrest⟩ := List.cons_subset.mp hsuffix.subset
    refine ⟨rfl, h.heard _ hrest, fun line hline => ?_⟩
    cases i with
    | failure reason => cases hline
    | line s =>
      cases hline
      intro name hname
      exact h.lines (List.mem_flatMap.mpr ⟨_, hi, hname⟩)

end Action

/-! ## Statements -/

section Statements

open CalcBasic.Action

variable {names : List String}

theorem indifferent_eval {e : Expr σ} (he : e.names ⊆ names) :
    (consult e.eval).Indifferent names fun _ => True :=
  indifferent_consult (fun _ _ h => e.eval_congr h he) fun _ _ _ => trivial

theorem indifferent_evalNumber {e : Expr σ} (he : e.names ⊆ names) (purpose : Purpose) :
    (consult (e.evalNumber · purpose)).Indifferent names fun _ => True :=
  indifferent_consult (fun _ _ h => e.evalNumber_congr h he purpose) fun _ _ _ => trivial

/-- An answer that was typed is an expression with the names of the line. -/
theorem indifferent_askFor (prompt : String) (name : Name σ) :
    (askFor prompt name).Indifferent names fun _ => True := by
  refine (indifferent_ask name.span name.text prompt).bind fun line hline => ?_
  have hanswer : (consult (readAnswer name line)).Indifferent names fun _ => True :=
    indifferent_consult (fun s t h => readAnswer_congr h name hline) fun _ _ _ => trivial
  exact hanswer.bind fun v _ => indifferent_assign name.span name.text v

theorem indifferent_promptAll (asked : List (Name σ)) :
    (promptAll asked).Indifferent names fun _ => True := by
  induction asked with
  | nil => exact indifferent_pure trivial
  | cons name asked ih => exact (indifferent_askFor _ name).bind fun _ _ => ih

theorem indifferent_displayAll (span : σ) {es : List (Expr σ)} (hes : Expr.namesAll es ⊆ names) :
    (displayAll span es).Indifferent names fun _ => True := by
  induction es with
  | nil => exact indifferent_pure trivial
  | cons e es ih =>
    obtain ⟨he, hes⟩ := List.append_subset.mp hes
    exact (indifferent_eval he).bind fun v _ => (indifferent_write span _).bind fun _ _ => ih hes

theorem indifferent_put {target : Target σ} (h : target.names ⊆ names) (v : Value) :
    (target.put v).Indifferent names fun _ => True := by
  cases target with
  | whole name => exact indifferent_assign name.span name.text v
  | element span name index =>
    obtain ⟨hname, hindex⟩ := List.cons_subset.mp h
    refine (indifferent_eval hindex).bind fun i _ => indifferent_change span fun _ _ h => ?_
    exact h.setElement hname v i

theorem indifferent_exec (config : Config) (span : σ) {c : Command σ} (h : c.names ⊆ names) :
    (c.exec config span).Indifferent names fun _ => True := by
  cases c with
  | evaluate e => exact (indifferent_eval h).bind fun _ _ => indifferent_pure trivial
  | display es => exact (indifferent_displayAll span h).bind fun _ _ => indifferent_pure trivial
  | store e target =>
    obtain ⟨he, htarget⟩ := List.append_subset.mp h
    refine (indifferent_eval he).bind fun v _ => ?_
    exact (indifferent_put htarget v).bind fun _ _ => indifferent_pure trivial
  | prompt asked => exact (indifferent_promptAll asked).bind fun _ _ => indifferent_pure trivial
  | input text name => exact (indifferent_askFor _ name).bind fun _ _ => indifferent_pure trivial
  | label name | goto name | stop => exact indifferent_pure trivial

theorem indifferent_enter (span : σ) {r : Range σ} (h : r.names ⊆ names) :
    (r.enter span).Indifferent names fun _ => True := by
  have hstart : r.start.names ⊆ names :=
    (List.append_subset.mp (List.cons_subset.mp h).2).1
  have hstride : (consult (r.stride span)).Indifferent names fun _ => True :=
    indifferent_consult (fun _ _ hagree => Range.stride_congr hagree span h) fun _ _ _ => trivial
  refine hstride.bind fun stride _ => (indifferent_eval hstart).bind fun v _ => ?_
  refine (indifferent_assign r.counter.span r.counter.text v).bind fun _ _ => ?_
  exact (indifferent_consult (fun _ _ _ => rfl) fun _ _ _ => trivial).bind fun start _ =>
    indifferent_pure (a := (stride, start)) trivial

/-- A statement is indifferent to all variables but those that its text names, apart from its
blocks. -/
theorem Action.obeyed_indifferent (config : Config) {s : Stmt σ} (h : s.names ⊆ names) :
    (indifference names).Obeyed config (fun _ _ => True) s := by
  refine ⟨indifferent_count config s.span, ?_⟩
  cases s with
  | command span c =>
    intro st st' halike
    obtain ⟨hsame, hafter, -⟩ := indifferent_exec config span h st st' halike
    refine ⟨hsame, hafter, fun flow _ => ?_⟩
    cases flow <;> trivial
  | ifThen _ condition _ | ifElse _ condition _ _ | whileLoop _ condition _ =>
    exact indifferent_evalNumber h _
  | forLoop span range _ =>
    exact ⟨indifferent_enter span h, fun x => indifferent_assign _ _ _⟩

end Statements

/-! ## Runs -/

namespace Program

/-- **Runs.** A run is indifferent to all variables but those that the program and the input
name. -/
theorem indifferent_run (config : Config) (fuel : Nat) (p : Program σ) (start? : Option Position)
    {names : List String} (hnames : p.names ⊆ names) :
    (p.runFrom config fuel start?).Indifferent names fun _ => True := by
  have hcovers : (Action.indifference names).Covers config (fun _ (_ : σ) => True) p.Contains :=
    ⟨fun s hs => Action.obeyed_indifferent config (List.Subset.trans hs.names_subset hnames),
      fun s hs c hc t ht => contains_inner hs hc ht⟩
  have hland (label : String) (span : σ) :
      (Action.consult fun _ => p.landing.find label span).Indifferent names fun target =>
        ∀ t ∈ target, p.Contains t := by
    refine Action.indifferent_consult (fun _ _ _ => rfl) fun _ target htarget t ht => ?_
    obtain ⟨pos, rfl⟩ := exists_of_find_ok htarget
    exact contains_of_mem_rest ht
  have hrun : (runChain config fuel p.landing (fuel + 1) (p.rest start?)).Indifferent names
      fun _ => True :=
    Action.Logic.runChain_holds hcovers (fun label span _ => hland label span) _
      fun s hs => contains_of_mem_rest hs
  intro st st' h
  rw [runFrom_eq, runFrom_eq]
  exact hrun _ _ ⟨h.store, h.console, rfl, h.lines⟩

/-- **Noninterference.** Two runs of a program on the same input, from variables that have the same
values under every name that occurs in the program or in a line of the input, come to the same
outcome, with the same console and the same number of steps, and to variables that have the same
values under these names. -/
theorem run_noninterference (config : Config) (fuel : Nat) (p : Program σ)
    (start? : Option Position) (st : State) (t : Store)
    (h : st.store.AgreesOn (p.names ++ st.console.names) t) :
    let first := p.runFrom config fuel start? st
    let second := p.runFrom config fuel start? { st with store := t }
    first.1 = second.1 ∧ first.2.console = second.2.console ∧ first.2.steps = second.2.steps ∧
      first.2.store.AgreesOn (p.names ++ st.console.names) second.2.store := by
  have hstart : st.Alike (p.names ++ st.console.names) { st with store := t } :=
    ⟨h, rfl, rfl, List.subset_append_right _ _⟩
  obtain ⟨hsame, hafter, -⟩ := p.indifferent_run config fuel start?
    (List.subset_append_left p.names st.console.names) _ _ hstart
  exact ⟨hsame, hafter.console, hafter.steps, hafter.store⟩

/-- A program that asks for an answer, which is given by another variable, and that changes an
element of a list; a further variable has another value. -/
theorem run_noninterference_answered : ∃ p t,
    Program.parse "Prompt A\nA→L₁(2)\nDisp L₁(A)" = .ok p ∧
    Store.fresh.assign "B" (.number 5) = .ok t ∧
    let st : State := ⟨.fresh, { input := ["", "C+1"].map .line }, 0⟩
    p.names ++ st.console.names = ["A", "A", "L₁", "L₁", "A", "C"] ∧
    st.store.AgreesOn (p.names ++ st.console.names) t ∧
    let first := p.run {} 1 st
    let second := p.run {} 1 { st with store := t }
    first.1 = second.1 ∧ first.2.console = second.2.console ∧ first.2.steps = second.2.steps ∧
      first.2.store.AgreesOn (p.names ++ st.console.names) second.2.store := by
  have hnames : (Program.parse "Prompt A\nA→L₁(2)\nDisp L₁(A)").toOption.any
      (fun p => p.names = ["A", "A", "L₁", "L₁", "A"]) = true := by
    decide +kernel
  have hlines : Console.names { input := ["", "C+1"].map .line } = ["C"] := by decide +kernel
  cases hp : Program.parse "Prompt A\nA→L₁(2)\nDisp L₁(A)" with
  | error e =>
    rw [hp] at hnames
    cases hnames
  | ok p =>
    rw [hp] at hnames
    have hnames : p.names = ["A", "A", "L₁", "L₁", "A"] := of_decide_eq_true hnames
    cases ht : Store.fresh.assign "B" (.number 5) with
    | error fault =>
      obtain ⟨kind, hkind, hne, -⟩ :=
        (Slots.assign_eq_error Store.fresh.regular).mp (Store.assign_eq_error.mp ht)
      cases hkind
      exact absurd rfl hne
    | ok t =>
      have hall : p.names ++ ["C"] = ["A", "A", "L₁", "L₁", "A", "C"] := by rw [hnames]; rfl
      have hagree : Store.fresh.AgreesOn (p.names ++ ["C"]) t := by
        intro name hname
        have hother : name ∉ ["B"] := by
          rw [hall] at hname
          revert name
          decide
        exact (Store.agreesBut_assign ht List.mem_cons_self name hother).symm
      refine ⟨p, t, rfl, rfl, ?_⟩
      dsimp only
      rw [hlines]
      refine ⟨hall, hagree, ?_⟩
      rw [← hlines] at hagree ⊢
      exact p.run_noninterference {} 1 p.head? ⟨.fresh, { input := ["", "C+1"].map .line }, 0⟩ t
        hagree

end Program

end CalcBasic
