import CalcBasic.Proofs.ExecutionRules
import CalcBasic.Proofs.Fronts

/-!
# The input of a run

A run takes the items of its input from the front, one for each reading, and looks at no item before
it takes it.

1. A question takes the blank lines at the front and the item behind them, or finds the end
   (`Console.askFrom_eq`).
2. An action adds events to the console and takes from the input what these record; if none of them
   met the end of the input, it does the same with more input behind (`Action.Reads`). This goes
   along with composition, so it holds of whole runs (`Program.reads_run`).
-/

namespace CalcBasic

variable {σ α β : Type}

/-! ## Items and events -/

namespace Input

/-- The line that an item is; a failure is none. -/
def line? : Input → Option String
  | line s => some s
  | failure _ => none

/-- An item that a question passes over. -/
def isBlank : Input → Bool
  | line s => Text.isBlankText s
  | failure _ => false

/-- What a question gets from an item. -/
def answer : Input → Answer
  | line s => .line s
  | failure reason => .failed reason

/-- The record of a question that took an item. -/
def event (prompt : String) : Input → Event
  | line s => .asked prompt (some s)
  | failure _ => .askFailed prompt

end Input

namespace Event

/-- The line that a reading gave. -/
def line? : Event → Option String
  | asked _ answer => answer
  | _ => none

/-- What a reading took: a line, or a failure in its place; at the end of the input there is nothing
to take. -/
def taken? : Event → Option (Option String)
  | shown _ => none
  | asked _ answer => answer.map some
  | askFailed _ => some none

end Event

theorem Event.line?_eq (e : Event) : e.line? = e.taken?.join := by
  rcases e with _ | ⟨_, _ | _⟩ | _ <;> rfl

theorem Input.taken?_event (prompt : String) (i : Input) :
    (i.event prompt).taken? = some i.line? := by
  cases i <;> rfl

theorem Input.filterMap_event (prompt : String) (is : List Input) :
    (is.map (event prompt)).filterMap Event.taken? = is.map line? := by
  rw [List.filterMap_map, ← List.filterMap_eq_map]
  exact congrArg (is.filterMap ·) (funext fun i => i.taken?_event prompt)

theorem Input.event_ne_end (prompt prompt' : String) (i : Input) :
    i.event prompt ≠ .asked prompt' none := by
  cases i <;> simp [Input.event]

/-- **Questions.** A question passes over the blank lines at the front, and takes the item behind
them or meets the end. -/
theorem Console.askFrom_eq (prompt : String) (events : Array Event) (input : List Input) :
    askFrom prompt events input =
      let heard := events ++ ((input.takeWhile Input.isBlank).map (Input.event prompt)).toArray
      match input.dropWhile Input.isBlank with
      | [] => (.closed, [], heard.push (.asked prompt none))
      | i :: rest => (i.answer, rest, heard.push (i.event prompt)) := by
  induction input generalizing events with
  | nil => simp [askFrom]
  | cons i rest ih =>
    cases i with
    | failure reason => simp [askFrom, Input.isBlank, Input.answer, Input.event]
    | line s =>
      rw [askFrom]
      by_cases hs : Text.isBlankText s = true
      · rw [if_pos hs, ih]
        simp [Input.isBlank, hs, Input.event]
      · rw [if_neg hs]
        simp [Input.isBlank, hs, Input.answer, Input.event]

/-- The state after some events, with the input that they leave. -/
def State.heard (st : State) (es : List Event) (input : List Input) : State :=
  { st with console := { st.console with input, events := st.console.events ++ es.toArray } }

/-- What a question does to a state. -/
theorem Action.ask_eq (span : σ) (name prompt : String) (st : State) :
    ask span name prompt st =
      let blanks := st.console.input.takeWhile Input.isBlank
      match st.console.input.dropWhile Input.isBlank with
      | [] =>
        (.fault ⟨.console (.closed name), span⟩,
          st.heard (blanks.map (Input.event prompt) ++ [.asked prompt none]) [])
      | i :: rest =>
        (match i with
          | .line s => .done s
          | .failure reason => .fault ⟨.console (.failed reason), span⟩,
          st.heard ((blanks ++ [i]).map (Input.event prompt)) rest) := by
  unfold ask Console.ask
  rw [Console.askFrom_eq]
  cases st.console.input.dropWhile Input.isBlank with
  | nil => simp [State.heard]
  | cons i rest => cases i <;> simp [State.heard, Input.answer]

/-- The state with other input. -/
def State.withInput (st : State) (input : List Input) : State :=
  { st with console := { st.console with input } }

/-- The state with more input behind what it has. -/
def State.feed (st : State) (more : List Input) : State := st.withInput (st.console.input ++ more)

/-- From one console to the other these events were recorded, and what they took from the input was
taken from its front. -/
structure Console.Took (c : Console) (es : List Event) (c' : Console) : Prop where
  events : c'.events.toList = c.events.toList ++ es
  input : ∃ taken, c.input = taken ++ c'.input ∧ taken.map Input.line? = es.filterMap Event.taken?

namespace Console.Took

variable {c c' c'' : Console} {es es' : List Event}

theorem refl (c : Console) : c.Took [] c := ⟨by simp, [], rfl, rfl⟩

theorem trans (h : c.Took es c') (h' : c'.Took es' c'') : c.Took (es ++ es') c'' := by
  obtain ⟨taken, htaken, hlines⟩ := h.input
  obtain ⟨taken', htaken', hlines'⟩ := h'.input
  refine ⟨by rw [h'.events, h.events, List.append_assoc], taken ++ taken', ?_, ?_⟩
  · rw [htaken, htaken', List.append_assoc]
  · rw [List.map_append, hlines, hlines', List.filterMap_append]

/-- Events that record what they took of the input. -/
theorem heard {st : State} (es : List Event) {taken input : List Input}
    (hinput : st.console.input = taken ++ input)
    (htaken : taken.map Input.line? = es.filterMap Event.taken?) :
    st.console.Took es (st.heard es input).console :=
  ⟨by simp [State.heard], taken, hinput, htaken⟩

end Console.Took

/-! ## Actions -/

namespace Action

/-- What an action does to the console is recorded in events. Its results have the property `Q`. If
no event met the end of the input, it does the same with more input behind. -/
def Reads (x : Action σ α) (Q : α → Prop) : Prop :=
  ∀ st, ∃ es, st.console.Took es (x st).2.console ∧ (∀ a, (x st).1 = .done a → Q a) ∧
    ((∀ prompt, Event.asked prompt none ∉ es) →
      ∀ more, x (st.feed more) = ((x st).1, (x st).2.feed more))

theorem reads_pure {a : α} {Q : α → Prop} (ha : Q a) : Reads (pure a : Action σ α) Q := by
  intro st
  refine ⟨[], .refl _, ?_, fun _ more => rfl⟩
  rintro _ ⟨⟩
  exact ha

theorem reads_unfinished {Q : α → Prop} : Reads (fun st => (.unfinished, st) : Action σ α) Q :=
  fun _ => ⟨[], .refl _, nofun, fun _ _ => rfl⟩

theorem Reads.bind {x : Action σ α} {f : α → Action σ β} {Q : α → Prop} {R : β → Prop}
    (hx : x.Reads Q) (hf : ∀ a, Q a → (f a).Reads R) : (x >>= f).Reads R := by
  intro st
  obtain ⟨es, htook, hQ, hmore⟩ := hx st
  rw [bind_apply]
  simp only [bind_apply]
  rcases hr : x st with ⟨(a | e | _), st'⟩ <;> rw [hr] at htook hQ hmore
  · obtain ⟨es', htook', hR, hmore'⟩ := hf a (hQ a rfl) st'
    refine ⟨es ++ es', htook.trans htook', hR, fun hend more => ?_⟩
    rw [hmore (fun prompt h => hend prompt (List.mem_append_left _ h)) more]
    exact hmore' (fun prompt h => hend prompt (List.mem_append_right _ h)) more
  · refine ⟨es, htook, nofun, fun hend more => ?_⟩
    rw [hmore hend more]
  · refine ⟨es, htook, nofun, fun hend more => ?_⟩
    rw [hmore hend more]

/-- What is recorded of the console goes along with composition. -/
def reading : Action.Logic σ where
  Holds := Reads
  pure := reads_pure
  bind := Reads.bind
  unfinished := reads_unfinished

theorem reads_consult (f : Store → Except (Located σ) α) : (consult f).Reads fun _ => True := by
  intro st
  have hfeed : ∀ more, (st.feed more).store = st.store := fun _ => rfl
  unfold consult
  simp only [hfeed]
  cases f st.store with
  | ok a => exact ⟨[], .refl _, fun _ _ => trivial, fun _ more => rfl⟩
  | error e => exact ⟨[], .refl _, nofun, fun _ more => rfl⟩

theorem reads_change (span : σ) (f : Store → Except Fault Store) :
    (change span f).Reads fun _ => True := by
  intro st
  have hfeed : ∀ more, (st.feed more).store = st.store := fun _ => rfl
  unfold change
  simp only [hfeed]
  cases f st.store with
  | ok store => exact ⟨[], .refl _, fun _ _ => trivial, fun _ more => rfl⟩
  | error fault => exact ⟨[], .refl _, nofun, fun _ more => rfl⟩

theorem reads_count (config : Config) (span : σ) : (count config span).Reads fun _ => True := by
  intro st
  have hfeed : ∀ more, (st.feed more).steps = st.steps := fun _ => rfl
  unfold count
  simp only [hfeed]
  cases config.stepLimit with
  | none => exact ⟨[], .refl _, fun _ _ => trivial, fun _ more => rfl⟩
  | some limit =>
    dsimp only
    by_cases h : limit < st.steps + 1
    · rw [if_pos h]
      exact ⟨[], .refl _, nofun, fun _ more => by rw [if_pos h]; rfl⟩
    · rw [if_neg h]
      exact ⟨[], .refl _, fun _ _ => trivial, fun _ more => by rw [if_neg h]; rfl⟩

theorem reads_write (span : σ) (line : String) : (write span line).Reads fun _ => True := by
  intro st
  have hfeed : ∀ more, (st.feed more).console.writes = st.console.writes := fun _ => rfl
  unfold write Console.write
  simp only [hfeed]
  rcases st.console.writes with _ | _ | n
  · refine ⟨[.shown line], ⟨by simp, [], rfl, rfl⟩, fun _ _ => trivial, fun _ more => rfl⟩
  · exact ⟨[], .refl _, nofun, fun _ more => rfl⟩
  · refine ⟨[.shown line], ⟨by simp, [], rfl, rfl⟩, fun _ _ => trivial, fun _ more => rfl⟩

theorem reads_ask (span : σ) (name prompt : String) :
    (ask span name prompt).Reads fun _ => True := by
  intro st
  have hends : ∀ is : List Input, ∀ p, Event.asked p none ∉ is.map (Input.event prompt) := by
    intro is p hmem
    obtain ⟨i, -, hi⟩ := List.mem_map.mp hmem
    exact Input.event_ne_end prompt p i hi
  have htook := List.takeWhile_append_dropWhile (p := Input.isBlank) (l := st.console.input)
  rw [ask_eq]
  cases hrest : st.console.input.dropWhile Input.isBlank with
  | nil =>
    rw [hrest] at htook
    refine ⟨_, .heard _ (by simpa using htook.symm) ?_, nofun, fun hend => ?_⟩
    · rw [List.filterMap_append, Input.filterMap_event]
      simp [Event.taken?]
    · exact absurd (List.mem_append_right _ List.mem_cons_self) (hend prompt)
  | cons i rest =>
    rw [hrest] at htook
    refine ⟨_, .heard _ (by simpa using htook.symm) (Input.filterMap_event _ _).symm,
      fun _ _ => trivial, fun _ more => ?_⟩
    obtain ⟨htake, hdrop⟩ := stop_append more hrest
    rw [ask_eq]
    simp only [State.feed, State.withInput, htake, hdrop]
    rfl

theorem reading_rules (config : Config) : (reading (σ := σ)).Rules config fun _ => True where
  consult _ := reads_consult _
  change _ f := reads_change _ f
  count _ := reads_count config _
  write _ line := reads_write _ line
  ask _ name prompt := reads_ask _ name prompt

end Action

/-! ## Runs -/

/-- **Runs.** A run takes its input from the front as its events record, and it does the same with
more input behind, if it never met the end. -/
theorem Program.reads_run (config : Config) (fuel : Nat) (p : Program σ)
    (start? : Option Position) : (p.runFrom config fuel start?).Reads fun _ => True := by
  intro st
  simp only [p.runFrom_eq]
  exact Action.Logic.runChain_holds_of_rules (Action.reading_rules config) p.landing (fuel + 1)
    (p.rest start?) { st with steps := 0 }

/-! ## Lines -/

/-- On input that consists of lines, what was taken are the lines that the events hold. -/
theorem Console.Took.lines {c c' : Console} {es : List Event} {q : List String}
    (h : c.Took es c') (hq : c.input = q.map .line) :
    ∃ left, c'.input = left.map .line ∧ es.filterMap Event.line? ++ left = q := by
  obtain ⟨taken, hinput, htaken⟩ := h.input
  rw [hq] at hinput
  obtain ⟨before, left, rfl, rfl, hleft⟩ := List.map_eq_append_iff.mp hinput
  have hlines : es.filterMap Event.line? = before := by
    calc es.filterMap Event.line?
        = (es.filterMap Event.taken?).filterMap id := by
          rw [List.filterMap_filterMap]
          refine congrArg (es.filterMap ·) (funext fun e => ?_)
          rw [e.line?_eq]
          cases e.taken? <;> rfl
      _ = ((before.map Input.line).map Input.line?).filterMap id := by rw [htaken]
      _ = before := by simp [List.filterMap_map, Function.comp_def, Input.line?]
  exact ⟨left, hleft.symm, by rw [hlines]⟩

/-- What a question for a variable makes of the lines to come. It passes over the blank ones, and
the first other one is parsed and evaluated for the variable; the lines behind it stay. -/
def answerFrom (prompt : String) (name : Name σ) (st : State) (q : List String) :
    Outcome σ Unit × State :=
  let asked (s : String) : Event := .asked prompt (some s)
  match q.dropWhile Text.isBlankText with
  | [] =>
    (.fault ⟨.console (.closed name.text), name.span⟩,
      st.heard (q.map asked ++ [.asked prompt none]) [])
  | line :: left =>
    (do
      let v ← Action.consult (readAnswer name line)
      Action.change name.span (·.assign name.text v) : Action σ Unit)
      (st.heard ((q.takeWhile Text.isBlankText ++ [line]).map asked) (left.map .line))

theorem askFor_lines (prompt : String) (name : Name σ) (st : State) (q : List String) :
    askFor prompt name (st.withInput (q.map .line)) = answerFrom prompt name st q := by
  have hblank : Input.isBlank ∘ Input.line = Text.isBlankText := rfl
  have hevent : Input.event prompt ∘ Input.line = fun s => .asked prompt (some s) := rfl
  have hinput : (st.withInput (q.map .line)).console.input = q.map .line := rfl
  unfold askFor answerFrom
  rw [Action.bind_apply, Action.ask_eq, hinput, List.takeWhile_map, List.dropWhile_map, hblank]
  cases hrest : q.dropWhile Text.isBlankText with
  | nil =>
    have hall : q.takeWhile Text.isBlankText = q :=
      List.takeWhile_eq_self_iff.mpr (List.dropWhile_eq_nil_iff.mp hrest)
    simp only [List.map_nil, List.map_map, hevent, hall]
    rfl
  | cons line left =>
    simp only [List.map_cons, List.map_append, List.map_map, hevent]
    rfl

theorem promptAll_eq (names : List (Name σ)) :
    promptAll names = names.forM fun name => askFor (name.text ++ "?") name := by
  induction names with
  | nil => rfl
  | cons name names ih => rw [promptAll, ih]; rfl

/-- **The input queue.** In a run on some lines, the lines that were read and the lines that are
left are, one after the other, the lines of the input. If the run never met their end, then with more
lines behind them it is the same run, and leaves these lines behind the others. Each name of a
`Prompt` or an `Input` takes the blank lines and the first line that is not blank. -/
theorem Program.consumes_in_order (config : Config) (fuel : Nat) (p : Program σ)
    (start? : Option Position) (st : State) (q : List String) :
    (let after := p.runFrom config fuel start? (st.withInput (q.map .line))
      ∃ es left,
        after.2.console.events.toList = st.console.events.toList ++ es ∧
        after.2.console.input = left.map .line ∧
        es.filterMap Event.line? ++ left = q ∧
        ((∀ prompt, .asked prompt none ∉ es) → ∀ more : List String,
          p.runFrom config fuel start? (st.withInput ((q ++ more).map .line)) =
            (after.1, after.2.withInput ((left ++ more).map .line)))) ∧
    (∀ (span : σ) (names : List (Name σ)), (Command.prompt names).exec config span = do
      names.forM fun name => askFor (name.text ++ "?") name
      return .proceed) ∧
    (∀ (span : σ) (text : Option String) (name : Name σ),
      (Command.input text name).exec config span = do
        askFor (text.getD config.prompt) name
        return .proceed) ∧
    ∀ (prompt : String) (name : Name σ),
      askFor prompt name (st.withInput (q.map .line)) = answerFrom prompt name st q := by
  refine ⟨?_, fun span names => ?_, fun span text name => rfl, fun prompt name =>
    askFor_lines prompt name st q⟩
  · obtain ⟨es, htook, -, hmore⟩ := p.reads_run config fuel start? (st.withInput (q.map .line))
    obtain ⟨left, hleft, hlines⟩ := htook.lines rfl
    refine ⟨es, left, htook.events, hleft, hlines, fun hend more => ?_⟩
    have hrun := hmore hend (more.map .line)
    rw [State.feed, State.feed, hleft, ← List.map_append] at hrun
    rw [List.map_append]
    exact hrun
  · rw [Command.exec, promptAll_eq]

end CalcBasic
