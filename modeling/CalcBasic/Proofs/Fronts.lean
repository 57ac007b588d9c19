import Mathlib.Data.List.TakeWhile

/-!
# Fronts of lists

The front of a list consists of the elements up to the first one without a property. It does not
depend on what stands behind that one.
-/

namespace CalcBasic

variable {α : Type} {p : α → Bool} {xs ys rest : List α} {y : α}

theorem drop_takeWhile (p : α → Bool) (xs : List α) :
    xs.drop (xs.takeWhile p).length = xs.dropWhile p := by
  conv => lhs; arg 2; rw [← List.takeWhile_append_dropWhile (p := p) (l := xs)]
  exact List.drop_left

theorem drop_takeWhile_append (p : α → Bool) (xs ys : List α) :
    (xs ++ ys).drop (xs.takeWhile p).length = xs.drop (xs.takeWhile p).length ++ ys :=
  List.drop_append_of_le_length (List.takeWhile_prefix p).length_le

/-! ## Lists without a front -/

theorem takeWhile_eq_nil_of_head (h : ∀ y ∈ ys.head?, p y = false) : ys.takeWhile p = [] := by
  rcases ys with _ | ⟨y, ys⟩
  · rfl
  · exact List.takeWhile_cons_of_neg (by simp [h y rfl])

theorem dropWhile_eq_self_of_head (h : ∀ y ∈ ys.head?, p y = false) : ys.dropWhile p = ys := by
  rcases ys with _ | ⟨y, ys⟩
  · rfl
  · exact List.dropWhile_cons_of_neg (by simp [h y rfl])

theorem takeWhile_append_of_head (h : ∀ y ∈ ys.head?, p y = false) (xs : List α) :
    (xs ++ ys).takeWhile p = xs.takeWhile p := by
  rw [List.takeWhile_append, takeWhile_eq_nil_of_head h, List.append_nil]
  by_cases hall : (xs.takeWhile p).length = xs.length
  · rw [if_pos hall]
    exact ((List.takeWhile_prefix p).eq_of_length hall).symm
  · rw [if_neg hall]

theorem dropWhile_append_of_head (h : ∀ y ∈ ys.head?, p y = false) (xs : List α) :
    (xs ++ ys).dropWhile p = xs.dropWhile p ++ ys := by
  rw [List.dropWhile_append, dropWhile_eq_self_of_head h]
  cases xs.dropWhile p <;> rfl

theorem isPrefixOf_append_of_head [BEq α] [LawfulBEq α] {front : List α}
    (h : ∀ y ∈ ys.head?, y ∉ front) (xs : List α) :
    front.isPrefixOf (xs ++ ys) = front.isPrefixOf xs := by
  induction front generalizing xs with
  | nil => simp
  | cons x front ih =>
    have hrest : ∀ y ∈ ys.head?, y ∉ front := fun y hy hmem => h y hy (List.mem_cons_of_mem x hmem)
    cases xs with
    | cons x' xs =>
      rw [List.cons_append, List.isPrefixOf_cons_cons, List.isPrefixOf_cons_cons, ih hrest]
    | nil =>
      rcases ys with _ | ⟨y, ys⟩
      · rfl
      · have hne : x ≠ y := fun heq => h y rfl (heq ▸ List.mem_cons_self)
        simp [List.isPrefixOf, hne]

/-! ## Fronts that end within the list -/

/-- A front that ends within the list ends there whatever is added. -/
theorem stop_append (ys : List α) (h : xs.dropWhile p = y :: rest) :
    (xs ++ ys).takeWhile p = xs.takeWhile p ∧ (xs ++ ys).dropWhile p = y :: (rest ++ ys) := by
  have hshort : (xs.takeWhile p).length ≠ xs.length := by
    have hlength := congrArg List.length (List.takeWhile_append_dropWhile (p := p) (l := xs))
    rw [h, List.length_append, List.length_cons] at hlength
    omega
  constructor
  · rw [List.takeWhile_append, if_neg hshort]
  · rw [List.dropWhile_append, h]
    rfl

/-- It ends there even if what follows is exchanged. -/
theorem stop_exchange (h : xs.dropWhile p = y :: rest) (ys : List α) :
    (xs.takeWhile p ++ y :: ys).takeWhile p = xs.takeWhile p ∧
      (xs.takeWhile p ++ y :: ys).dropWhile p = y :: ys := by
  have hfront : ∀ x ∈ xs.takeWhile p, p x = true := fun x hx => List.mem_takeWhile_imp hx
  have hy : ¬p y = true := by
    have hhead := List.head?_dropWhile_not p xs
    rw [h] at hhead
    simpa using hhead
  constructor
  · rw [List.takeWhile_append_of_pos hfront, List.takeWhile_cons_of_neg hy, List.append_nil]
  · rw [List.dropWhile_append_of_pos hfront, List.dropWhile_cons_of_neg hy]

end CalcBasic
