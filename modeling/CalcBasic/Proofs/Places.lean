import CalcBasic.Run

/-!
# Places

Every node of a tree carries its place. A fault in working out an expression stands at the place of
one of its nodes (`Expr.eval_error`), and a fault in an answer that was typed stands at the name it
was typed for (`readAnswer_error`), since the nodes of the answer are no part of the program.
-/

namespace CalcBasic

variable {σ : Type}

namespace Expr

mutual

/-- The places of all nodes of an expression. -/
def places : Expr σ → List σ
  | literal s _ | var s _ => [s]
  | element s _ index => s :: index.places
  | list s items => s :: placesAll items
  | binary s _ left right => s :: (left.places ++ right.places)
  | signed s _ e | group s e => s :: e.places

/-- The places of all nodes of some expressions. -/
def placesAll : List (Expr σ) → List σ
  | [] => []
  | e :: es => e.places ++ placesAll es

end

theorem placesAll_eq (es : List (Expr σ)) : placesAll es = es.flatMap places := by
  induction es with
  | nil => rfl
  | cons e es ih => rw [placesAll, ih, List.flatMap_cons]

theorem span_mem_places (e : Expr σ) : e.span ∈ e.places := by
  cases e <;> exact List.mem_cons_self

end Expr

/-- The places of a target. -/
def Target.places : Target σ → List σ
  | whole name => [name.span]
  | element span name index => span :: name.span :: index.places

/-- The places in a command. -/
def Command.places : Command σ → List σ
  | evaluate e => e.places
  | display es => Expr.placesAll es
  | store e target => e.places ++ target.places
  | prompt names => names.map Name.span
  | input _ name => [name.span]
  | label _ | goto _ | stop => []

/-- The places in the head of a counting loop. -/
def Range.places (r : Range σ) : List σ :=
  r.counter.span :: (r.start.places ++ r.last.places ++ r.step.elim [] Expr.places)

/-- The places in a statement, apart from those in its blocks. -/
def Stmt.places : Stmt σ → List σ
  | command span c => span :: c.places
  | ifThen span condition _ | ifElse span condition _ _ | whileLoop span condition _ =>
    span :: condition.places
  | forLoop span range _ => span :: range.places

/-! ## Where faults stand -/

theorem bind_eq_error {ε α β : Type} {x : Except ε α} {f : α → Except ε β} {e : ε}
    (h : x >>= f = .error e) : x = .error e ∨ ∃ a, x = .ok a ∧ f a = .error e := by
  cases x with
  | error e' => cases h; exact .inl rfl
  | ok a => exact .inr ⟨a, rfl, h⟩

theorem map_eq_error {ε α β : Type} {x : Except ε α} {f : α → β} {e : ε}
    (h : f <$> x = .error e) : x = .error e := by
  cases x with
  | error e' => cases h; rfl
  | ok a => cases h

theorem Fault.locate_error {α : Type} {span : σ} {x : Except Fault α} {l : Located σ}
    (h : Fault.locate span x = .error l) : l.span = span := by
  cases x with
  | error fault => cases h; rfl
  | ok a => cases h

theorem Value.expectNumber_error {v : Value} {purpose : Purpose} {span : σ} {l : Located σ}
    (h : v.expectNumber purpose span = .error l) : l.span = span := by
  cases v with
  | number x => cases h
  | list xs => cases h; rfl

namespace Expr

variable {s : Store} {l : Located σ}

mutual

/-- A fault of an expression stands at one of its nodes. -/
theorem eval_error (e : Expr σ) (h : e.eval s = .error l) : l.span ∈ e.places := by
  cases e with
  | literal span x => cases h
  | var span name => exact Fault.locate_error h ▸ List.mem_cons_self
  | element span name index =>
    rw [eval] at h
    obtain h | ⟨i, -, h⟩ := bind_eq_error h
    · exact List.mem_cons_of_mem _ (eval_error index h)
    · exact Fault.locate_error (map_eq_error h) ▸ List.mem_cons_self
  | list span items =>
    rw [eval] at h
    exact List.mem_cons_of_mem _ (evalItems_error items (map_eq_error h))
  | binary span op left right =>
    have hleft := List.subset_append_left left.places right.places
    have hright := List.subset_append_right left.places right.places
    rw [eval] at h
    obtain h | ⟨x, -, h⟩ := bind_eq_error h
    · exact List.mem_cons_of_mem _ (hleft (eval_error left h))
    · by_cases hop : op.isLogical = true
      · rw [if_pos hop] at h
        obtain h | ⟨y, -, h⟩ := bind_eq_error h
        · exact List.mem_cons_of_mem _ (hright (eval_error right h))
        · obtain h | ⟨_, -, h⟩ := bind_eq_error h
          · exact Value.expectNumber_error h ▸ List.mem_cons_self
          · obtain h | ⟨_, -, h⟩ := bind_eq_error h
            · exact Value.expectNumber_error h ▸ List.mem_cons_self
            · cases h
      · rw [if_neg hop] at h
        obtain h | ⟨_, -, h⟩ := bind_eq_error h
        · exact List.mem_cons_of_mem _ (hleft (Value.expectNumber_error h ▸ left.span_mem_places))
        · obtain h | ⟨y, -, h⟩ := bind_eq_error h
          · exact List.mem_cons_of_mem _ (hright (eval_error right h))
          · obtain h | ⟨_, -, h⟩ := bind_eq_error h
            · exact List.mem_cons_of_mem _
                (hright (Value.expectNumber_error h ▸ right.span_mem_places))
            · cases h
  | signed span sign operand =>
    rw [eval] at h
    obtain h | ⟨v, -, h⟩ := bind_eq_error h
    · exact List.mem_cons_of_mem _ (eval_error operand h)
    · obtain h | ⟨_, -, h⟩ := bind_eq_error h
      · exact List.mem_cons_of_mem _ (Value.expectNumber_error h ▸ operand.span_mem_places)
      · cases h
  | group span inner =>
    rw [eval] at h
    exact List.mem_cons_of_mem _ (eval_error inner h)

theorem evalItems_error (items : List (Expr σ)) {found : Array Float}
    (h : evalItems s found items = .error l) : l.span ∈ placesAll items := by
  cases items with
  | nil => cases h
  | cons item items =>
    rw [evalItems] at h
    rw [placesAll, List.mem_append]
    obtain h | ⟨v, -, h⟩ := bind_eq_error h
    · exact .inl (eval_error item h)
    · obtain h | ⟨x, -, h⟩ := bind_eq_error h
      · exact .inl (Value.expectNumber_error h ▸ item.span_mem_places)
      · exact .inr (evalItems_error items h)

end

theorem evalNumber_error {purpose : Purpose} (e : Expr σ)
    (h : e.evalNumber s purpose = .error l) : l.span ∈ e.places := by
  obtain h | ⟨v, -, h⟩ := bind_eq_error h
  · exact eval_error e h
  · exact Value.expectNumber_error h ▸ e.span_mem_places

end Expr

theorem readAnswer_error {name : Name σ} {line : String} {s : Store} {l : Located σ}
    (h : readAnswer name line s = .error l) : l.span = name.span := by
  unfold readAnswer at h
  split at h
  · cases h; rfl
  · split at h
    · cases h; rfl
    · cases h

theorem Range.stride_error {span : σ} {r : Range σ} {s : Store} {l : Located σ}
    (h : r.stride span s = .error l) : l.span = span ∨ l.span ∈ r.places := by
  unfold stride at h
  obtain h | ⟨last, -, h⟩ := bind_eq_error h
  · exact .inr (by simp [places, Expr.evalNumber_error r.last h])
  · dsimp only at h
    split at h
    · next e hstep =>
      obtain h | ⟨step, -, h⟩ := bind_eq_error h
      · exact .inr (by simp [places, hstep, Expr.evalNumber_error e h])
      · split at h <;> cases h
        exact .inl rfl
    · rw [pure_bind] at h
      split at h <;> cases h
      exact .inl rfl

end CalcBasic
