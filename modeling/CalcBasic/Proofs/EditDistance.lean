import CalcBasic.Suggest
import Mathlib.Order.Bounds.Basic

/-!
# The distance of two names is an edit distance

An edit inserts, drops or replaces one character anywhere in a text. The distance that is computed
row by row is the least number of edits that turn one text into the other:

1. `editCost` is the recursion of the table. It can be reached by that many edits (`Edits.cost`),
   and one edit changes it by one at most (`Edit.cost_le`), so no script of edits is shorter.
2. A row of the table holds the costs of one beginning of the first text (`costsFrom`), and
   `nextRow` leads from one row to the next.
3. The table can also be kept in two rows that change places, where the row that is written still
   holds the cells of two rounds ago. Only the cells written in this round are read again
   (`FilledRow`), so the loop gives the same number and never leaves a row.

The texts of the table are read from their ends, which is the reason for `Edits.reverse`.
-/

namespace CalcBasic

variable {a b c : List Char} {n m : Nat}

/-! ## Scripts of edits -/

/-- One edit at any place: a character is inserted, dropped, or replaced by another one. -/
inductive Edit : List Char → List Char → Prop
  | insert (front : List Char) (x : Char) (rest : List Char) :
    Edit (front ++ rest) (front ++ x :: rest)
  | drop (front : List Char) (x : Char) (rest : List Char) :
    Edit (front ++ x :: rest) (front ++ rest)
  | replace (front : List Char) {x y : Char} (other : x ≠ y) (rest : List Char) :
    Edit (front ++ x :: rest) (front ++ y :: rest)

/-- So many edits, one after the other. -/
inductive Edits : Nat → List Char → List Char → Prop
  | none (a : List Char) : Edits 0 a a
  | more {n : Nat} {a b c : List Char} (first : Edit a b) (rest : Edits n b c) : Edits (n + 1) a c

theorem Edit.symm (h : Edit a b) : Edit b a := by
  cases h with
  | insert front x rest => exact .drop front x rest
  | drop front x rest => exact .insert front x rest
  | replace front other rest => exact .replace front other.symm rest

theorem Edit.ne (h : Edit a b) : a ≠ b := by
  cases h with
  | insert front x rest => exact fun same => by simpa using congrArg List.length same
  | drop front x rest => exact fun same => by simpa using congrArg List.length same
  | replace front other rest => exact fun same => other (by simpa using same)

theorem Edit.cons (x : Char) (h : Edit a b) : Edit (x :: a) (x :: b) := by
  cases h with
  | insert front y rest => exact .insert (x :: front) y rest
  | drop front y rest => exact .drop (x :: front) y rest
  | replace front other rest => exact .replace (x :: front) other rest

theorem Edit.reverse (h : Edit a b) : Edit a.reverse b.reverse := by
  cases h with
  | insert front x rest => simpa using Edit.insert rest.reverse x front.reverse
  | drop front x rest => simpa using Edit.drop rest.reverse x front.reverse
  | replace front other rest => simpa using Edit.replace rest.reverse other front.reverse

theorem Edits.cons (x : Char) (h : Edits n a b) : Edits n (x :: a) (x :: b) := by
  induction h with
  | none a => exact .none _
  | more first _ ih => exact .more (first.cons x) ih

theorem Edits.reverse (h : Edits n a b) : Edits n a.reverse b.reverse := by
  induction h with
  | none a => exact .none _
  | more first _ ih => exact .more first.reverse ih

theorem Edits.trans (first : Edits n a b) (rest : Edits m b c) : Edits (n + m) a c := by
  induction first with
  | none a => simpa using rest
  | more edit _ ih => exact Nat.add_right_comm .. ▸ .more edit (ih rest)

theorem Edit.once (h : Edit a b) : Edits 1 a b :=
  .more h (.none b)

theorem Edits.symm (h : Edits n a b) : Edits n b a := by
  induction h with
  | none a => exact .none a
  | more first _ ih => exact ih.trans first.symm.once

/-- Of two scripts the shorter one can be taken. -/
theorem Edits.min (h : Edits n a b) (h' : Edits m a b) : Edits (min n m) a b := by
  rcases Nat.le_total n m with le | le
  · rwa [Nat.min_eq_left le]
  · rwa [Nat.min_eq_right le]

theorem Edits.zero_iff : Edits 0 a b ↔ a = b := by
  constructor
  · intro h
    cases h with
    | none => rfl
  · rintro rfl
    exact .none a

theorem Edits.one_iff : Edits 1 a b ↔ Edit a b := by
  constructor
  · intro h
    cases h with
    | more first rest => rwa [Edits.zero_iff.1 rest] at first
  · exact Edit.once

/-! ## The recursion of the table -/

/-- The cost of turning one text into another, by the first characters: the first one is dropped,
the other one is inserted, or one takes the place of the other. -/
def editCost : List Char → List Char → Nat
  | [], others => others.length
  | x :: chars, [] => chars.length + 1
  | x :: chars, y :: others =>
    min (min (editCost chars (y :: others) + 1) (editCost (x :: chars) others + 1))
      (if x = y then editCost chars others else editCost chars others + 1)
termination_by chars others => chars.length + others.length

@[simp] theorem editCost_nil_left (b : List Char) : editCost [] b = b.length := by
  rw [editCost]

@[simp] theorem editCost_nil_right (a : List Char) : editCost a [] = a.length := by
  cases a with
  | nil => rw [editCost_nil_left]
  | cons x a => rw [editCost, List.length_cons]

theorem editCost_cons_cons (x y : Char) (a b : List Char) : editCost (x :: a) (y :: b) =
    min (min (editCost a (y :: b) + 1) (editCost (x :: a) b + 1))
      (if x = y then editCost a b else editCost a b + 1) := by
  rw [editCost]

/-- **Upper bound.** As many edits as the recursion counts are enough. -/
theorem Edits.cost (a b : List Char) : Edits (editCost a b) a b := by
  induction a, b using editCost.induct with
  | case1 b =>
    rw [editCost_nil_left]
    induction b with
    | nil => exact .none []
    | cons y b ih => exact .more (.insert [] y []) (ih.cons y)
  | case2 x a =>
    rw [editCost_nil_right]
    induction a generalizing x with
    | nil => exact .more (.drop [] x []) (.none [])
    | cons y a ih => exact .more (.drop [] x (y :: a)) (ih y)
  | case3 x a y b dropped inserted kept =>
    rw [editCost_cons_cons]
    have drop : Edits (editCost a (y :: b) + 1) (x :: a) (y :: b) := .more (.drop [] x a) dropped
    have insert : Edits (editCost (x :: a) b + 1) (x :: a) (y :: b) :=
      inserted.trans (Edit.insert [] y b).once
    have keep : Edits (if x = y then editCost a b else editCost a b + 1) (x :: a) (y :: b) := by
      split
      · subst y
        exact kept.cons x
      · exact .more (.replace [] ‹x ≠ y› a) (kept.cons y)
    exact (drop.min insert).min keep

theorem editCost_cons_left_le (x : Char) (a b : List Char) :
    editCost (x :: a) b ≤ editCost a b + 1 := by
  cases b with
  | nil => simp
  | cons y b => rw [editCost_cons_cons]; omega

theorem editCost_cons_right_le (a : List Char) (y : Char) (b : List Char) :
    editCost a (y :: b) ≤ editCost a b + 1 := by
  cases a with
  | nil => simp
  | cons x a => rw [editCost_cons_cons]; omega

/-- Whatever two characters are put in front, the cost grows by one at most. -/
theorem editCost_cons_cons_le (x y : Char) (a b : List Char) :
    editCost (x :: a) (y :: b) ≤ editCost a b + 1 := by
  rw [editCost_cons_cons]
  split <;> omega

theorem le_editCost_cons_left (x : Char) (a b : List Char) :
    editCost a b ≤ editCost (x :: a) b + 1 := by
  induction b with
  | nil => simp; omega
  | cons y b ih =>
    have inserted := editCost_cons_right_le a y b
    rw [editCost_cons_cons]
    split <;> omega

theorem editCost_replace_le (x y : Char) (a b : List Char) :
    editCost (x :: a) b ≤ editCost (y :: a) b + 1 := by
  induction b with
  | nil => simp
  | cons z b ih =>
    have dropped := editCost_cons_left_le x a (z :: b)
    have inserted := editCost_cons_right_le (x :: a) z b
    have replaced := editCost_cons_cons_le x z a b
    rw [editCost_cons_cons y]
    split <;> omega

theorem editCost_cons_congr_le (x : Char) (h : ∀ b, editCost a b ≤ editCost c b + 1)
    (b : List Char) : editCost (x :: a) b ≤ editCost (x :: c) b + 1 := by
  induction b with
  | nil => simpa using h []
  | cons y b ih =>
    have behind := h b
    have shorter := h (y :: b)
    rw [editCost_cons_cons, editCost_cons_cons]
    split <;> omega

/-- An edit behind `front` changes no cost by more than it does without `front`. -/
theorem editCost_append_congr_le (front : List Char) (h : ∀ b, editCost a b ≤ editCost c b + 1)
    (b : List Char) : editCost (front ++ a) b ≤ editCost (front ++ c) b + 1 := by
  induction front generalizing b with
  | nil => exact h b
  | cons x front ih => exact editCost_cons_congr_le x ih b

theorem Edit.cost_le (h : Edit a c) (b : List Char) : editCost a b ≤ editCost c b + 1 := by
  cases h with
  | insert front x rest => exact editCost_append_congr_le front (le_editCost_cons_left x rest) b
  | drop front x rest => exact editCost_append_congr_le front (editCost_cons_left_le x rest) b
  | replace front other rest =>
    exact editCost_append_congr_le front (editCost_replace_le _ _ rest) b

theorem editCost_self (a : List Char) : editCost a a = 0 := by
  induction a with
  | nil => simp
  | cons x a ih => simp [editCost_cons_cons, ih]

/-- **Lower bound.** No script of edits is shorter than what the recursion counts. -/
theorem Edits.cost_le (h : Edits n a b) : editCost a b ≤ n := by
  induction h with
  | none a => exact (editCost_self a).le
  | more first _ ih => exact (first.cost_le _).trans (Nat.succ_le_succ ih)

/-! ## The rows of the table -/

/-- The costs of `done` with `seen`, and with `seen` after each further character of `others`: both
texts are read from their ends. -/
def costsFrom (done seen : List Char) : List Char → List Nat
  | [] => [editCost done seen]
  | y :: others => editCost done seen :: costsFrom done (y :: seen) others

theorem costsFrom_eq_cons (done seen others : List Char) :
    ∃ cells, costsFrom done seen others = editCost done seen :: cells := by
  cases others with
  | nil => exact ⟨[], rfl⟩
  | cons y others => exact ⟨_, rfl⟩

theorem range'_eq_costsFrom (seen others : List Char) :
    List.range' seen.length (others.length + 1) = costsFrom [] seen others := by
  induction others generalizing seen with
  | nil => simp [costsFrom]
  | cons y others ih =>
    rw [costsFrom, ← ih (y :: seen), List.length_cons, List.range'_succ]
    simp

theorem cons_nextCells (x : Char) (done seen others : List Char) :
    editCost (x :: done) seen ::
        nextCells x (editCost (x :: done) seen) others (costsFrom done seen others) =
      costsFrom (x :: done) seen others := by
  induction others generalizing seen with
  | nil => rfl
  | cons y others ih =>
    obtain ⟨cells, up⟩ := costsFrom_eq_cons done (y :: seen) others
    have behind := ih (y :: seen)
    rw [costsFrom, costsFrom, ← behind, up, nextCells, editCost_cons_cons]

theorem nextRow_costsFrom (x : Char) (done others : List Char) :
    nextRow others (costsFrom done [] others) x = costsFrom (x :: done) [] others := by
  obtain ⟨cells, above⟩ := costsFrom_eq_cons done [] others
  have head : (costsFrom done [] others).headD 0 + 1 = editCost (x :: done) [] := by
    simp [above]
  rw [nextRow, head]
  exact cons_nextCells x done [] others

theorem foldl_nextRow (chars done others : List Char) :
    chars.foldl (nextRow others) (costsFrom done [] others) =
      costsFrom (chars.reverse ++ done) [] others := by
  induction chars generalizing done with
  | nil => rfl
  | cons x chars ih => simp [nextRow_costsFrom, ih]

theorem getLast?_costsFrom (done seen others : List Char) :
    (costsFrom done seen others).getLast? = some (editCost done (others.reverse ++ seen)) := by
  induction others generalizing seen with
  | nil => rfl
  | cons y others ih =>
    obtain ⟨cells, behind⟩ := costsFrom_eq_cons done (y :: seen) others
    rw [costsFrom, behind, List.getLast?_cons_cons, ← behind, ih]
    simp

/-- The rows of the table lead to the cost of the two texts read from their ends. -/
theorem editDistance_eq_cost (a b : String) :
    editDistance a b = editCost a.toList.reverse b.toList.reverse := by
  have start : List.range (b.toList.length + 1) = costsFrom [] [] b.toList := by
    rw [← range'_eq_costsFrom, List.range_eq_range', List.length_nil]
  rw [editDistance, start, foldl_nextRow, getLast?_costsFrom]
  simp

/-- **Edit distance.** The distance is the least number of edits between the two texts. -/
theorem isLeast_editDistance (a b : String) :
    IsLeast {n | Edits n a.toList b.toList} (editDistance a b) := by
  rw [editDistance_eq_cost]
  constructor
  · simpa using (Edits.cost a.toList.reverse b.toList.reverse).reverse
  · exact fun n script => script.reverse.cost_le

theorem editDistance_eq_zero_iff (a b : String) : editDistance a b = 0 ↔ a = b := by
  obtain ⟨script, least⟩ := isLeast_editDistance a b
  constructor
  · intro h
    rw [h] at script
    exact String.toList_inj.1 (Edits.zero_iff.1 script)
  · rintro rfl
    exact Nat.le_zero.1 (least (Edits.none _))

theorem editDistance_comm (a b : String) : editDistance a b = editDistance b a :=
  le_antisymm ((isLeast_editDistance a b).2 (isLeast_editDistance b a).1.symm)
    ((isLeast_editDistance b a).2 (isLeast_editDistance a b).1.symm)

theorem editDistance_triangle (a b c : String) :
    editDistance a c ≤ editDistance a b + editDistance b c :=
  (isLeast_editDistance a c).2
    ((isLeast_editDistance a b).1.trans (isLeast_editDistance b c).1)

/-- Texts that differ are at distance one exactly when one edit leads from one to the other. -/
theorem editDistance_le_one_iff {a b : String} (h : a ≠ b) :
    editDistance a b ≤ 1 ↔ Edit a.toList b.toList := by
  constructor
  · intro near
    have apart : editDistance a b ≠ 0 := mt (editDistance_eq_zero_iff a b).1 h
    have one : editDistance a b = 1 := by omega
    exact Edits.one_iff.1 (one ▸ (isLeast_editDistance a b).1)
  · exact fun edit => (isLeast_editDistance a b).2 edit.once

/-! ## The table in two rows that change places -/

/-- The two rows of the table that are kept: the row above is complete, the row below is written
over cell by cell. -/
structure Rows where
  above : Array Nat
  below : Array Nat

/-- Write a cell of a row; nothing, when the row has no such cell. -/
def writeCell (row : Array Nat) (k cell : Nat) : Option (Array Nat) :=
  if k < row.size then some (row.setIfInBounds k cell) else none

/-- Write the cell below and right of cell `k`, for the character `x` of the first text and the
character `y` of the second one. -/
def writeNext (x : Char) (above below : Array Nat) (y : Char × Nat) : Option (Array Nat) := do
  let up ← above[y.2 + 1]?
  let left ← below[y.2]?
  let diagonal ← above[y.2]?
  writeCell below (y.2 + 1)
    (min (min (up + 1) (left + 1)) (diagonal + if x ≠ y.1 then 1 else 0))

/-- One round: the row below is written from left to right, and then the rows change places. -/
def Rows.next (others : List Char) (rows : Rows) (x : Char × Nat) : Option Rows := do
  let start ← writeCell rows.below 0 x.2
  let written ← others.zipIdx.foldlM (writeNext x.1 rows.above) start
  some { above := written, below := rows.above }

/-- The distance by two rows in place; nothing, when a cell outside of a row is needed. -/
def distanceInPlace (a b : String) : Option Nat := do
  let chars := a.toList
  let others := b.toList
  if chars.length = 0 then some others.length
  else if others.length = 0 then some chars.length
  else
    let width := others.length + 1
    let rows : Rows := { above := Array.range width, below := Array.replicate width 0 }
    let last ← (chars.zipIdx 1).foldlM (Rows.next others) rows
    last.above[others.length]?

variable {done others : List Char} {row above below : Array Nat} {k : Nat} {x : Char}

/-- The first `k` cells of a row are the costs of `done`; what stands behind them is open. -/
structure FilledRow (done others : List Char) (k : Nat) (row : Array Nat) : Prop where
  size : row.size = others.length + 1
  cell : ∀ j < k, row[j]? = some (editCost done (others.take j).reverse)

theorem writeCell_of_lt (h : k < row.size) (cell : Nat) :
    writeCell row k cell = some (row.setIfInBounds k cell) :=
  if_pos h

/-- A cell that is written right behind the filled ones makes the filled part longer. -/
theorem FilledRow.write (filled : FilledRow done others k row) (h : k ≤ others.length) :
    ∃ next, writeCell row k (editCost done (others.take k).reverse) = some next ∧
      FilledRow done others (k + 1) next := by
  have inside : k < row.size := filled.size ▸ Nat.lt_succ_of_le h
  refine ⟨_, writeCell_of_lt inside _, by simpa using filled.size, fun j hj => ?_⟩
  rcases Nat.lt_succ_iff_lt_or_eq.1 hj with before | rfl
  · rw [Array.getElem?_setIfInBounds_ne (Nat.ne_of_gt before)]
    exact filled.cell j before
  · exact Array.getElem?_setIfInBounds_self_of_lt inside

/-- **Cells.** From a complete row above and `k + 1` cells below, one more cell is right. -/
theorem FilledRow.writeNext {y : Char} (complete : FilledRow done others (others.length + 1) above)
    (filled : FilledRow (x :: done) others (k + 1) below) (at_k : others[k]? = some y) :
    ∃ next, writeNext x above below (y, k) = some next ∧
      FilledRow (x :: done) others (k + 2) next := by
  have inside : k < others.length := (List.getElem?_eq_some_iff.1 at_k).1
  have longer : (others.take (k + 1)).reverse = y :: (others.take k).reverse := by
    rw [List.take_add_one, at_k, Option.toList_some, List.reverse_concat]
  have cost : min (min (editCost done (others.take (k + 1)).reverse + 1)
        (editCost (x :: done) (others.take k).reverse + 1))
      (editCost done (others.take k).reverse + if x ≠ y then 1 else 0) =
      editCost (x :: done) (others.take (k + 1)).reverse := by
    rw [longer, editCost_cons_cons]
    by_cases same : x = y <;> simp [same]
  obtain ⟨next, written, longerRow⟩ := filled.write inside
  refine ⟨next, ?_, longerRow⟩
  rw [CalcBasic.writeNext, complete.cell (k + 1) (by omega), filled.cell k (by omega),
    complete.cell k (by omega)]
  simpa only [Option.bind_eq_bind, Option.bind_some, cost] using written

/-- The rest of a row, by induction on the characters that are left. -/
theorem FilledRow.writeRest (complete : FilledRow done others (others.length + 1) above)
    (rest : List Char) (filled : FilledRow (x :: done) others (k + 1) below)
    (h : others.drop k = rest) (inside : k ≤ others.length) :
    ∃ next, (rest.zipIdx k).foldlM (CalcBasic.writeNext x above) below = some next ∧
      FilledRow (x :: done) others (others.length + 1) next := by
  induction rest generalizing k below with
  | nil =>
    have last : k = others.length := le_antisymm inside (List.drop_eq_nil_iff.1 h)
    exact ⟨below, rfl, last ▸ filled⟩
  | cons y rest ih =>
    have at_k : others[k]? = some y := by rw [← List.head?_drop, h, List.head?_cons]
    obtain ⟨next, written, longer⟩ := complete.writeNext filled at_k
    have behind : others.drop (k + 1) = rest := by
      rw [← List.tail_drop, h, List.tail_cons]
    obtain ⟨last, rounds, whole⟩ :=
      ih longer behind (List.getElem?_eq_some_iff.1 at_k).1
    refine ⟨last, ?_, whole⟩
    rw [List.zipIdx_cons, List.foldlM_cons, written]
    exact rounds

/-- Two rows between two rounds: the row above is complete for `done`, and the row below is only
known to be as long. -/
structure Rows.Between (done others : List Char) (rows : Rows) : Prop where
  above : FilledRow done others (others.length + 1) rows.above
  below : rows.below.size = others.length + 1

/-- **Rounds.** A round takes one more character of the first text. -/
theorem Rows.Between.next {rows : Rows} (h : rows.Between done others) (x : Char) :
    ∃ later : Rows, rows.next others (x, done.length + 1) = some later ∧
      later.Between (x :: done) others := by
  have empty : FilledRow (x :: done) others 0 rows.below := ⟨h.below, fun j hj => by omega⟩
  obtain ⟨start, started, first⟩ := empty.write (Nat.zero_le _)
  obtain ⟨written, rounds, whole⟩ := h.above.writeRest others first rfl (Nat.zero_le _)
  refine ⟨⟨written, rows.above⟩, ?_, whole, h.above.size⟩
  simp only [List.take_zero, List.reverse_nil, editCost_nil_right, List.length_cons] at started
  simp only [Rows.next, started, rounds, Option.bind_eq_bind, Option.bind_some]

/-- All rounds, by induction on the characters of the first text that are left. -/
theorem Rows.Between.rounds {rows : Rows} (chars : List Char) (h : rows.Between done others) :
    ∃ later : Rows, (chars.zipIdx (done.length + 1)).foldlM (Rows.next others) rows = some later ∧
      later.Between (chars.reverse ++ done) others := by
  induction chars generalizing done rows with
  | nil => exact ⟨rows, rfl, h⟩
  | cons x chars ih =>
    obtain ⟨next, round, between⟩ := h.next x
    obtain ⟨later, rest, last⟩ := ih between
    refine ⟨later, ?_, by simpa using last⟩
    rw [List.zipIdx_cons, List.foldlM_cons, round]
    exact rest

/-- The first row of the table: a beginning of the second text costs its length. -/
theorem filled_range (others : List Char) :
    FilledRow [] others (others.length + 1) (Array.range (others.length + 1)) where
  size := Array.size_range
  cell j hj := by
    have short : j ≤ others.length := Nat.le_of_lt_succ hj
    simp [hj, short]

/-- **In place.** The loop over two rows that change places never leaves a row, and its last cell
is the distance. -/
theorem distanceInPlace_eq (a b : String) : distanceInPlace a b = some (editDistance a b) := by
  rw [distanceInPlace, editDistance_eq_cost]
  split
  · have empty : a.toList = [] := List.length_eq_zero_iff.1 ‹_›
    simp [empty]
  split
  · have empty : b.toList = [] := List.length_eq_zero_iff.1 ‹_›
    simp [empty]
  have start : Rows.Between [] b.toList
      ⟨Array.range (b.toList.length + 1), Array.replicate (b.toList.length + 1) 0⟩ :=
    ⟨filled_range b.toList, Array.size_replicate⟩
  obtain ⟨last, rounds, between⟩ := start.rounds a.toList
  have corner := between.above.cell b.toList.length (Nat.lt_succ_self _)
  rw [List.append_nil, List.take_length] at corner
  simp only [List.length_nil, Nat.zero_add] at rounds
  simp only [rounds, Option.bind_eq_bind, Option.bind_some, corner]

/-- **Distance of names.** For all texts the distance is the least number of insertions, drops and
replacements of single characters between them, and the loop over two rows that change places
computes it. So it is a metric: zero for equal texts only, symmetric, and no longer than a way
through a third text. -/
theorem editDistance_least (a b : String) :
    IsLeast {n | Edits n a.toList b.toList} (editDistance a b) ∧
      distanceInPlace a b = some (editDistance a b) ∧
      (editDistance a b = 0 ↔ a = b) ∧
      editDistance a b = editDistance b a ∧
      ∀ c, editDistance a c ≤ editDistance a b + editDistance b c :=
  ⟨isLeast_editDistance a b, distanceInPlace_eq a b, editDistance_eq_zero_iff a b,
    editDistance_comm a b, editDistance_triangle a b⟩

end CalcBasic
