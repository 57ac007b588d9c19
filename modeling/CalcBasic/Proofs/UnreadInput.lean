import CalcBasic.Proofs.InputQueue

/-!
# Input that is not read

A run does not depend on the input that it leaves. With other input behind what it took, it does the
same and leaves the other input; only a run that took all of its input may have met the end of it.

This goes along with composition (`Action.Takes`), so it holds of whole runs (`Program.takes_run`).
A run on lines can be repeated with the lines that it read and no others (`Program.run_on_answers`).
-/

namespace CalcBasic

variable {σ α β : Type}

theorem State.withInput_self (st : State) : st.withInput st.console.input = st := rfl

namespace Action

/-- The action takes some of its input. Its results have the property `Q`. With other input behind
what it took it does the same, and leaves the other input; if it left nothing, it may have looked
for more, so then nothing else stands behind. -/
def Takes (x : Action σ α) (Q : α → Prop) : Prop :=
  ∀ st, (∀ a, (x st).1 = .done a → Q a) ∧
    ∃ taken, st.console.input = taken ++ (x st).2.console.input ∧
      ∀ more, ((x st).2.console.input = [] → more = []) →
        x (st.withInput (taken ++ more)) = ((x st).1, (x st).2.withInput more)

/-- An action that does the same with any input takes none. -/
theorem takes_of_withInput {x : Action σ α}
    (h : ∀ st more, x (st.withInput more) = ((x st).1, (x st).2.withInput more)) :
    x.Takes fun _ => True := by
  intro st
  refine ⟨fun _ _ => trivial, [], ?_, fun more _ => h st more⟩
  calc st.console.input
      = (x (st.withInput st.console.input)).2.console.input := by rw [h]; rfl
    _ = (x st).2.console.input := rfl

theorem takes_pure {a : α} {Q : α → Prop} (ha : Q a) : Takes (pure a : Action σ α) Q := by
  intro st
  refine ⟨?_, [], rfl, fun more _ => rfl⟩
  rintro _ ⟨⟩
  exact ha

theorem takes_unfinished {Q : α → Prop} :
    Takes (fun st => (.unfinished, st) : Action σ α) Q := by
  intro st
  refine ⟨?_, [], rfl, fun _ _ => rfl⟩
  rintro _ ⟨⟩

theorem Takes.bind {x : Action σ α} {f : α → Action σ β} {Q : α → Prop} {R : β → Prop}
    (hx : x.Takes Q) (hf : ∀ a, Q a → (f a).Takes R) : (x >>= f).Takes R := by
  intro st
  obtain ⟨hQ, taken, htaken, hmore⟩ := hx st
  simp only [bind_apply]
  rcases hr : x st with ⟨(a | e | _), st'⟩ <;> rw [hr] at htaken hQ hmore
  · obtain ⟨hR, taken', htaken', hmore'⟩ := hf a (hQ a rfl) st'
    refine ⟨hR, taken ++ taken', ?_, fun more hend => ?_⟩
    · rw [List.append_assoc, ← htaken', htaken]
    · -- what the second action takes is left by the first
      have hleft : st'.console.input = [] → taken' ++ more = [] := by
        intro hnil
        rw [htaken'] at hnil
        obtain ⟨rfl, hrest⟩ := List.append_eq_nil_iff.mp hnil
        rw [hend hrest, List.nil_append]
      rw [List.append_assoc, hmore (taken' ++ more) hleft]
      exact hmore' more hend
  · refine ⟨nofun, taken, htaken, fun more hend => ?_⟩
    rw [hmore more hend]
  · refine ⟨nofun, taken, htaken, fun more hend => ?_⟩
    rw [hmore more hend]

/-- What is taken of the input goes along with composition. -/
def taking : Action.Logic σ where
  Holds := Takes
  pure := takes_pure
  bind := Takes.bind
  unfinished := takes_unfinished

theorem takes_consult (f : Store → Except (Located σ) α) : (consult f).Takes fun _ => True := by
  apply takes_of_withInput
  intro st more
  have hstore : (st.withInput more).store = st.store := rfl
  unfold consult
  rw [hstore]
  cases f st.store <;> rfl

theorem takes_change (span : σ) (f : Store → Except Fault Store) :
    (change span f).Takes fun _ => True := by
  apply takes_of_withInput
  intro st more
  have hstore : (st.withInput more).store = st.store := rfl
  unfold change
  rw [hstore]
  cases f st.store <;> rfl

theorem takes_count (config : Config) (span : σ) : (count config span).Takes fun _ => True := by
  apply takes_of_withInput
  intro st more
  have hsteps : (st.withInput more).steps = st.steps := rfl
  unfold count
  rw [hsteps]
  cases config.stepLimit with
  | none => rfl
  | some limit =>
    dsimp only
    split <;> rfl

theorem takes_write (span : σ) (line : String) : (write span line).Takes fun _ => True := by
  apply takes_of_withInput
  intro st more
  have hwrites : (st.withInput more).console.writes = st.console.writes := rfl
  unfold write Console.write
  rw [hwrites]
  rcases st.console.writes with _ | _ | n <;> rfl

theorem takes_ask (span : σ) (name prompt : String) :
    (ask span name prompt).Takes fun _ => True := by
  intro st
  refine ⟨fun _ _ => trivial, ?_⟩
  rw [ask_eq]
  cases hrest : st.console.input.dropWhile Input.isBlank with
  | nil =>
    -- the question met the end of the input
    refine ⟨st.console.input, (List.append_nil _).symm, fun more hend => ?_⟩
    rw [hend rfl, List.append_nil, st.withInput_self, ask_eq, hrest]
    rfl
  | cons i rest =>
    have htook := List.takeWhile_append_dropWhile (p := Input.isBlank) (l := st.console.input)
    rw [hrest] at htook
    refine ⟨st.console.input.takeWhile Input.isBlank ++ [i], ?_, fun more _ => ?_⟩
    · rw [List.append_assoc, List.singleton_append]
      exact htook.symm
    · obtain ⟨htake, hdrop⟩ := stop_exchange hrest more
      rw [List.append_assoc, List.singleton_append, ask_eq]
      simp only [State.withInput, htake, hdrop]
      rfl

theorem taking_rules (config : Config) : (taking (σ := σ)).Rules config fun _ => True where
  consult _ := takes_consult _
  change _ f := takes_change _ f
  count _ := takes_count config _
  write _ line := takes_write _ line
  ask _ name prompt := takes_ask _ name prompt

end Action

namespace Program

/-- **Runs.** A run does not depend on the input that it leaves. -/
theorem takes_run (config : Config) (fuel : Nat) (p : Program σ) (start? : Option Position) :
    (p.runFrom config fuel start?).Takes fun _ => True := by
  intro st
  simp only [p.runFrom_eq]
  exact Action.Logic.runChain_holds_of_rules (Action.taking_rules config) p.landing (fuel + 1)
    (p.rest start?) { st with steps := 0 }

/-- A run on some lines takes those that its events hold, and it is the same run on these lines
alone. -/
theorem run_on_answers (config : Config) (fuel : Nat) (p : Program σ) (st : State)
    {q : List String} (hq : st.console.input = q.map .line) :
    ∃ es left,
      (p.run config fuel st).2.console.events.toList = st.console.events.toList ++ es ∧
      (p.run config fuel st).2.console.input = left.map .line ∧
      es.filterMap Event.line? ++ left = q ∧
      p.run config fuel (st.withInput ((es.filterMap Event.line?).map .line)) =
        ((p.run config fuel st).1, (p.run config fuel st).2.withInput []) := by
  obtain ⟨es, htook, -, -⟩ := p.reads_run config fuel p.head? st
  obtain ⟨left, hleft, hlines⟩ := htook.lines hq
  obtain ⟨-, taken, htaken, hmore⟩ := p.takes_run config fuel p.head? st
  refine ⟨es, left, htook.events, hleft, hlines, ?_⟩
  have hanswers : taken = (es.filterMap Event.line?).map .line := by
    rw [hq, ← hlines, hleft, List.map_append] at htaken
    exact (List.append_cancel_right htaken).symm
  rw [← hanswers, ← List.append_nil taken]
  exact hmore [] fun _ => rfl

end Program

end CalcBasic
