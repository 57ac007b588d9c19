import CalcBasic.Proofs.ExactNumbers
import CalcBasic.Proofs.Variables

/-!
# Elements of lists

A list behaves as an array that is counted from one and can grow at its end, one element at a time.

1. An index names a place exactly if its value is the natural number of the place
   (`Numbers.place?_eq_some`); no fraction, infinity or NaN does.
2. Overwriting and adding are one operation on places (`Numbers.replaced_of_le`): the element at
   the place is the new one, and all others stay.
3. Wherever a name has a list, reading and writing an element find it (`Slots.element_of_names`,
   `Slots.setElement_of_names`).
-/

namespace CalcBasic

namespace Numbers

variable {l : Numbers} {index y : Float} {upper i : Nat}

/-- The index is exactly the natural number `i`, and this is one of the places up to `upper`. -/
def Names (index : Float) (upper i : Nat) : Prop :=
  Number.value? index = some (i : ℚ) ∧ 1 ≤ i ∧ i ≤ upper

theorem place?_eq_some : place? index upper = some i ↔ Names index upper i := by
  rw [place?, Option.filter_eq_some_iff, Decimal.natural?_eq_some, Bool.and_eq_true,
    decide_eq_true_eq, decide_eq_true_eq, Names]

theorem place?_eq_none : place? index upper = none ↔ ∀ i, ¬ Names index upper i := by
  simp only [Option.eq_none_iff_forall_ne_some, ne_eq, place?_eq_some]

theorem exists_get? (hi : 1 ≤ i) (h : i ≤ l.size) : ∃ y, l.get? i = some y := by
  obtain ⟨k, rfl⟩ := Nat.exists_eq_add_of_le' hi
  exact ⟨l.items[k], Array.getElem?_eq_getElem h⟩

/-- The list `m` is `l` with `y` at the place `i`; behind the last place it is an element longer. -/
structure Replaced (l : Numbers) (i : Nat) (y : Float) (m : Numbers) : Prop where
  size : m.size = max l.size i
  here : m.get? i = some y
  others : ∀ j, j ≠ i → m.get? j = l.get? j

theorem replaced_set {k : Nat} (h : k < l.size) (y : Float) :
    l.Replaced (k + 1) y ⟨l.items.setIfInBounds k y⟩ where
  size := by
    have hsize : l.items.size = l.size := rfl
    simp [size]
    omega
  here := by
    have hsize : k < l.items.size := h
    simp [get?, hsize]
  others j hj := by
    cases j with
    | zero => rfl
    | succ j => simp [get?, show k ≠ j by omega]

theorem replaced_push (l : Numbers) (y : Float) : l.Replaced (l.size + 1) y (l.push y) where
  size := by simp [push, size]
  here := by simp [push, get?, size]
  others j hj := by
    cases j with
    | zero => rfl
    | succ j =>
      have hne : j ≠ l.items.size := fun h => hj (congrArg (· + 1) h)
      simp [push, get?, Array.getElem?_push, hne]

/-- Overwriting an element, or adding one if there is none to overwrite, replaces the element. -/
theorem replaced_of_le (hi : 1 ≤ i) (h : i ≤ l.size + 1) (y : Float) :
    l.Replaced i y ((l.set? y i).getD (l.push y)) := by
  obtain ⟨k, rfl⟩ := Nat.exists_eq_add_of_le' hi
  by_cases hk : k < l.size
  · rw [set?, if_pos hk]
    exact replaced_set hk y
  · obtain rfl : k = l.size := by omega
    rw [set?, if_neg hk]
    exact replaced_push l y

end Numbers

/-! ## Names that have lists -/

namespace Slots

open Numbers (Names)

variable {s : Slots} {name : String} {l : Numbers} {x : Float} {i : Nat}

theorem view_list_of_get (h : s.get name = .ok (.list l)) : s.view.list name = .ok l := by
  unfold LockedMap.list view
  rw [h]
  rfl

section Lists

variable (hs : s.Regular) (h : s.get name = .ok (.list l))

include hs h

theorem element_of_names (hx : Names x l.size i) :
    ∃ y, l.get? i = some y ∧ s.element name (.number x) = .ok y := by
  obtain ⟨y, hy⟩ := Numbers.exists_get? hx.2.1 hx.2.2
  refine ⟨y, hy, ?_⟩
  rw [element_eq hs, LockedMap.element, view_list_of_get h]
  simp only [index, bind, Except.bind, Numbers.place?_eq_some.mpr hx, Option.bind, hy]

theorem element_of_not_names (hx : ∀ i, ¬ Names x l.size i) :
    s.element name (.number x) = .error (.indexOutOfRange name x l.size) := by
  rw [element_eq hs, LockedMap.element, view_list_of_get h]
  simp only [index, bind, Except.bind, Numbers.place?_eq_none.mpr hx, Option.bind]

theorem setElement_of_names (y : Float) (hx : Names x (l.size + 1) i) :
    ∃ t m, s.setElement name (.number y) (.number x) = .ok t ∧ l.Replaced i y m ∧
      t.get name = .ok (.list m) ∧ ∀ other, other ≠ name → t.get other = s.get other := by
  have hset : (s.setElement name (.number y) (.number x)).map view =
      .ok (s.view.put name (.list ((l.set? y i).getD (l.push y)))) := by
    rw [setElement_eq hs, LockedMap.setElement, view_list_of_get h]
    simp only [index, bind, Except.bind, Numbers.place?_eq_some.mpr hx]
  cases ht : s.setElement name (.number y) (.number x) with
  | error fault =>
    rw [ht] at hset
    cases hset
  | ok t =>
    rw [ht] at hset
    have hview : t.view = s.view.put name _ := Except.ok.inj hset
    refine ⟨t, _, rfl, Numbers.replaced_of_le hx.2.1 hx.2.2 y, ?_, fun other hother => ?_⟩
    · rw [get_eq, hview, LockedMap.get, LockedMap.put_self]
    · rw [get_eq, hview, LockedMap.get, LockedMap.put_of_ne hother, get_eq s other, LockedMap.get]

theorem setElement_of_not_names (y : Float) (hx : ∀ i, ¬ Names x (l.size + 1) i) :
    s.setElement name (.number y) (.number x) = .error (.indexOutOfRange name x l.size) := by
  have hset : (s.setElement name (.number y) (.number x)).map view =
      .error (.indexOutOfRange name x l.size) := by
    rw [setElement_eq hs, LockedMap.setElement, view_list_of_get h]
    simp only [index, bind, Except.bind, Numbers.place?_eq_none.mpr hx]
  cases ht : s.setElement name (.number y) (.number x) with
  | error fault =>
    rw [ht] at hset
    cases hset
    rfl
  | ok t =>
    rw [ht] at hset
    cases hset

end Lists

/-- **Elements.** Whatever calls were made before, a name that has a list gives its element at an
index that is exactly the number of a place in the list, and takes a new element there or at the
place behind the last. Nothing else about the variables changes. Every other index is out of range,
and changes nothing. -/
theorem elements_grow (cs : List Call) {name : String} {l : Numbers}
    (h : (operations.calls fresh cs).2.get name = .ok (.list l)) (x : Float) :
    let s := (operations.calls fresh cs).2
    (∀ i, Names x l.size i → ∃ y, l.get? i = some y ∧ s.element name (.number x) = .ok y) ∧
    ((∀ i, ¬ Names x l.size i) →
      s.element name (.number x) = .error (.indexOutOfRange name x l.size)) ∧
    ∀ y : Float,
      (∀ i, Names x (l.size + 1) i → ∃ t m,
        operations.call s (.setElement name (.number y) (.number x)) = (.ok none, t) ∧
        t.get name = .ok (.list m) ∧ l.Replaced i y m ∧
        ∀ other, other ≠ name → t.get other = s.get other) ∧
      ((∀ i, ¬ Names x (l.size + 1) i) →
        operations.call s (.setElement name (.number y) (.number x)) =
          (.error (.indexOutOfRange name x l.size), s)) := by
  have hs : (operations.calls fresh cs).2.Regular := (calls_view regular_fresh cs).1
  refine ⟨fun i => element_of_names hs h, element_of_not_names hs h, fun y =>
    ⟨fun i hx => ?_, fun hx => ?_⟩⟩
  · obtain ⟨t, m, hset, hreplaced, hget, hothers⟩ := setElement_of_names hs h y hx
    exact ⟨t, m, congrArg (Operations.settle _) hset, hget, hreplaced, hothers⟩
  · exact congrArg (Operations.settle _) (setElement_of_not_names hs h y hx)

/-- A list of two elements takes a third one, and has none between its elements. -/
theorem elements_grow_third :
    let s := (operations.calls fresh [.setElement "L₁" (.number 5) (.number 2)]).2
    s.get "L₁" = .ok (.list ⟨#[1, 5]⟩) ∧
    s.element "L₁" (.number 1.5) = .error (.indexOutOfRange "L₁" 1.5 2) ∧
    ∃ t m, operations.call s (.setElement "L₁" (.number 7) (.number 3)) = (.ok none, t) ∧
      t.get "L₁" = .ok (.list m) ∧ (⟨#[1, 5]⟩ : Numbers).Replaced 3 7 m ∧
      ∀ other, other ≠ "L₁" → t.get other = s.get other := by
  have hget : (operations.calls fresh [.setElement "L₁" (.number 5) (.number 2)]).2.get "L₁" =
      .ok (.list ⟨#[1, 5]⟩) := by
    decide +kernel
  have hbetween : ∀ i, ¬ Names 1.5 2 i := Numbers.place?_eq_none.mp (by decide +kernel)
  have hthird : Names 3 3 3 := Numbers.place?_eq_some.mp (by decide +kernel)
  exact ⟨hget, (elements_grow _ hget 1.5).2.1 hbetween,
    ((elements_grow _ hget 3).2.2 7).1 3 hthird⟩

end Slots

end CalcBasic
