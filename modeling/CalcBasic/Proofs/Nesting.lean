import CalcBasic.Program
import Mathlib.Tactic.Ring

/-!
# Nesting

Two measures of how deep a tree is nested. The height is the largest number of nodes that nest on a
way from the root to a leaf: blocks, groups, braces, indices, signs and operators. The levels are
what reading the tree takes from the room for nesting. They differ where operators lean to the
left: an operator counts as one level for its right operand, but its left operand does not become
deeper by it, only the operators of its own level do.

1. In a tree that comes from a source every left operand binds at least as tight as its operator
   (`Expr.Graded`), so a way to the left passes the six levels of operators one after the other.
2. Each of the six can use up the room anew, and each bracket starts over with one level less. So the
   height stays below `ceiling n` when the levels are at most `n` (`Expr.height_lt_ceiling`), a
   square and not `n` itself.
-/

namespace CalcBasic

/-- The place of a level in their order, from the loosest. -/
def Level.rank : Level → Nat
  | disjunction => 0
  | conjunction => 1
  | comparison => 2
  | sum => 3
  | product => 4
  | power => 5

theorem Level.rank_lt (level : Level) : level.rank < 6 := by
  cases level <;> decide

theorem Level.eq_of_rank_eq {a b : Level} (h : a.rank = b.rank) : a = b := by
  cases a <;> cases b <;> first | rfl | cases h

theorem three_mul_square_succ (n : Nat) :
    3 * ((n + 1) * (n + 1)) = 3 * (n * n) + 6 * n + 3 := by ring

/-- The most nodes that can nest in a tree that takes at most `n` levels. -/
def ceiling (n : Nat) : Nat := n * (3 * n - 2)

theorem ceiling_add (n : Nat) : ceiling n + 2 * n = 3 * (n * n) := by
  cases n with
  | zero => rfl
  | succ n =>
    have h : 3 * (n + 1) - 2 = 3 * n + 1 := by omega
    rw [ceiling, h]
    ring

theorem ceiling_lt_succ (n : Nat) : ceiling n < ceiling (n + 1) := by
  have h := ceiling_add n
  have hs := ceiling_add (n + 1)
  have hsq := three_mul_square_succ n
  omega

/-- A list function that takes the largest value of its members is bounded with each of them. -/
theorem max_le_iff_forall {α : Type} {f : α → Nat} (most : List α → Nat) (hnil : most [] = 0)
    (hcons : ∀ x xs, most (x :: xs) = max (f x) (most xs)) {n : Nat} {xs : List α} :
    most xs ≤ n ↔ ∀ x ∈ xs, f x ≤ n := by
  induction xs with
  | nil => simp [hnil]
  | cons x xs ih => rw [hcons, Nat.max_le, ih, List.forall_mem_cons]

namespace Expr

variable {σ : Type}

/-- The number of operators of a level that follow each other at the top of a tree, each in the left
operand of the one before. -/
def run (level : Level) : Expr σ → Nat
  | binary _ op left _ => if op.level = level then left.run level + 1 else 0
  | _ => 0

mutual

/-- The levels of nesting that are opened inside an expression. -/
def need : Expr σ → Nat
  | literal _ _ | var _ _ => 0
  | element _ _ e | signed _ _ e | group _ e => e.need + 1
  | list _ items => needAll items + 1
  | binary _ op left right => max left.need (left.run op.level + 1 + right.need)

/-- The levels of nesting that are opened inside any of some expressions. -/
def needAll : List (Expr σ) → Nat
  | [] => 0
  | e :: es => max e.need (needAll es)

end

/-- The levels of nesting that an expression takes: its own, and those opened inside it. -/
def levels (e : Expr σ) : Nat := e.need + 1

mutual

/-- The largest number of indices, braces, operators, signs and groups on a way to a leaf. -/
def height : Expr σ → Nat
  | literal _ _ | var _ _ => 0
  | element _ _ e | signed _ _ e | group _ e => e.height + 1
  | list _ items => heightAll items + 1
  | binary _ _ left right => max left.height right.height + 1

/-- The largest height of some expressions. -/
def heightAll : List (Expr σ) → Nat
  | [] => 0
  | e :: es => max e.height (heightAll es)

end

/-- How tight the outermost node of an expression binds; all that is not an operator binds tighter
than the operators. -/
def tightness : Expr σ → Nat
  | binary _ op _ _ => op.level.rank
  | _ => 6

mutual

/-- No operator has a left operand that binds looser than itself. -/
def Graded : Expr σ → Prop
  | literal _ _ | var _ _ => True
  | element _ _ e | signed _ _ e | group _ e => e.Graded
  | list _ items => GradedAll items
  | binary _ op left right =>
    op.level.rank ≤ left.tightness ∧ left.Graded ∧ right.Graded

/-- All of some expressions are graded. -/
def GradedAll : List (Expr σ) → Prop
  | [] => True
  | e :: es => e.Graded ∧ GradedAll es

end

theorem needAll_le {n : Nat} {es : List (Expr σ)} : needAll es ≤ n ↔ ∀ e ∈ es, e.need ≤ n :=
  max_le_iff_forall needAll rfl fun _ _ => rfl

theorem needAll_lt {n : Nat} {es : List (Expr σ)} (hes : es ≠ [])
    (h : ∀ e ∈ es, e.need < n) : needAll es < n := by
  obtain ⟨e, es, rfl⟩ := List.exists_cons_of_ne_nil hes
  have hn := h e List.mem_cons_self
  have hle : needAll (e :: es) ≤ n - 1 := needAll_le.mpr fun x hx => Nat.le_pred_of_lt (h x hx)
  omega

theorem heightAll_le {n : Nat} {es : List (Expr σ)} : heightAll es ≤ n ↔ ∀ e ∈ es, e.height ≤ n :=
  max_le_iff_forall heightAll rfl fun _ _ => rfl

theorem gradedAll_iff : ∀ {es : List (Expr σ)}, GradedAll es ↔ ∀ e ∈ es, e.Graded
  | [] => by simp [GradedAll]
  | e :: es => by rw [GradedAll, gradedAll_iff, List.forall_mem_cons]

theorem run_eq_zero {level : Level} {e : Expr σ} (h : level.rank < e.tightness) :
    e.run level = 0 := by
  cases e with
  | binary _ op left right =>
    have hne : op.level ≠ level := by
      rintro rfl
      exact Nat.lt_irrefl _ h
    rw [run, if_neg hne]
  | _ => rfl

theorem run_le_need (level : Level) (e : Expr σ) : e.run level ≤ e.need := by
  cases e with
  | binary _ op left right =>
    rw [run, need]
    by_cases h : op.level = level
    · rw [if_pos h, ← h]
      omega
    · rw [if_neg h]
      exact Nat.zero_le _
  | _ => exact Nat.zero_le _

/-! ## The height of a graded expression -/

/-- What the levels of an expression leave for its height. A level of operators that is not looser
than the expression itself has `n` operators still to come, less those that stand at the top. -/
def Bounded (e : Expr σ) : Prop :=
  ∀ (n : Nat) (level : Level), e.need ≤ n → level.rank ≤ e.tightness →
    e.height + (level.rank + 1) * n ≤ 3 * (n * n) + 4 * n + e.run level

/-- All of some expressions are bounded. -/
def BoundedAll (es : List (Expr σ)) : Prop :=
  ∀ n, needAll es ≤ n → heightAll es ≤ 3 * (n * n) + 4 * n

theorem Bounded.height_le {e : Expr σ} (h : e.Bounded) {n : Nat} (hn : e.need ≤ n) :
    e.height ≤ 3 * (n * n) + 4 * n := by
  have hb : e.height + (0 + 1) * n ≤ _ := h n .disjunction hn (Nat.zero_le _)
  have hr := run_le_need .disjunction e
  omega

/-- A bracket, an index or a sign starts over with one level less. -/
theorem bounded_of_inner {e : Expr σ} {height need : Nat} (hr : ∀ level, e.run level = 0)
    (hh : e.height = height + 1) (hn : e.need = need + 1)
    (h : ∀ n, need ≤ n → height ≤ 3 * (n * n) + 4 * n) : e.Bounded := by
  intro n level hneed hlevel
  rw [hn] at hneed
  obtain ⟨m, rfl⟩ : ∃ m, n = m + 1 := ⟨n - 1, by omega⟩
  have hb := h m (by omega)
  have hlevel : (level.rank + 1) * (m + 1) ≤ 6 * (m + 1) :=
    Nat.mul_le_mul_right _ level.rank_lt
  have hsq := three_mul_square_succ m
  rw [hh, hr]
  omega

theorem bounded_leaf {e : Expr σ} (hr : ∀ level, e.run level = 0) (hh : e.height = 0) :
    e.Bounded := by
  intro n level _ _
  have hlevel : (level.rank + 1) * n ≤ 6 * n := Nat.mul_le_mul_right _ level.rank_lt
  have hsq : 2 * n ≤ 3 * (n * n) := by
    have := Nat.le_mul_self n
    omega
  rw [hh, hr]
  omega

theorem bounded_binary {span : σ} {op : Op} {left right : Expr σ}
    (hgraded : op.level.rank ≤ left.tightness) (hl : left.Bounded) (hr : right.Bounded) :
    (binary span op left right).Bounded := by
  intro n level hneed hlevel
  have hneed : max left.need (left.run op.level + 1 + right.need) ≤ n := hneed
  have hlevel : level.rank ≤ op.level.rank := hlevel
  obtain ⟨m, rfl⟩ : ∃ m, n = m + 1 := ⟨n - 1, by omega⟩
  -- the left operand continues the run of the operator's own level
  have hleft := hl (m + 1) op.level (by omega) hgraded
  have hright := hr.height_le (n := m) (by omega)
  have hrank : (op.level.rank + 1) * (m + 1) ≤ 6 * (m + 1) :=
    Nat.mul_le_mul_right _ op.level.rank_lt
  have hsq := three_mul_square_succ m
  have hown : max left.height right.height + 1 + (op.level.rank + 1) * (m + 1) ≤
      3 * ((m + 1) * (m + 1)) + 4 * (m + 1) + (left.run op.level + 1) := by omega
  rw [height, run]
  by_cases heq : op.level = level
  · rw [if_pos heq, ← heq]
    exact hown
  · -- a looser level has all its operators still to come, and the run has used up at most one round
    rw [if_neg heq]
    have hlt : level.rank + 1 ≤ op.level.rank :=
      Nat.lt_of_le_of_ne hlevel fun h => heq (Level.eq_of_rank_eq h).symm
    have hmul : (level.rank + 1) * (m + 1) ≤ op.level.rank * (m + 1) :=
      Nat.mul_le_mul_right _ hlt
    have hsucc : (op.level.rank + 1) * (m + 1) = op.level.rank * (m + 1) + (m + 1) :=
      Nat.succ_mul _ _
    omega

mutual

theorem Graded.bounded : ∀ {e : Expr σ}, e.Graded → e.Bounded
  | literal _ _, _ => bounded_leaf (fun _ => rfl) rfl
  | var _ _, _ => bounded_leaf (fun _ => rfl) rfl
  | element _ _ e, h => by
    have hb := Graded.bounded (e := e) h
    exact bounded_of_inner (fun _ => rfl) rfl rfl fun n hn => hb.height_le hn
  | signed _ _ e, h => by
    have hb := Graded.bounded (e := e) h
    exact bounded_of_inner (fun _ => rfl) rfl rfl fun n hn => hb.height_le hn
  | group _ e, h => by
    have hb := Graded.bounded (e := e) h
    exact bounded_of_inner (fun _ => rfl) rfl rfl fun n hn => hb.height_le hn
  | list _ items, h =>
    bounded_of_inner (fun _ => rfl) rfl rfl (GradedAll.bounded (show GradedAll items from h))
  | binary _ _ left right, h =>
    bounded_binary h.1 (Graded.bounded h.2.1) (Graded.bounded h.2.2)

theorem GradedAll.bounded : ∀ {es : List (Expr σ)}, GradedAll es → BoundedAll es
  | [], _ => fun _ _ => Nat.zero_le _
  | e :: es, h => by
    intro n hn
    have hn : max e.need (needAll es) ≤ n := hn
    have he := (Graded.bounded h.1).height_le (n := n) (by omega)
    have hes := GradedAll.bounded h.2 n (by omega)
    rw [heightAll]
    omega

end

theorem height_lt_ceiling {e : Expr σ} (hg : e.Graded) {n : Nat} (h : e.levels ≤ n) :
    e.height < ceiling n := by
  have h : e.need + 1 ≤ n := h
  obtain ⟨m, rfl⟩ : ∃ m, n = m + 1 := ⟨n - 1, by omega⟩
  have hb := hg.bounded.height_le (n := m) (by omega)
  have hc := ceiling_add (m + 1)
  have hsq := three_mul_square_succ m
  omega

end Expr

/-! ## Statements -/

/-- The largest of some numbers, 0 if there are none. -/
def largest : List Nat → Nat
  | [] => 0
  | n :: ns => max n (largest ns)

variable {σ : Type}

theorem largest_levels_le {n : Nat} {es : List (Expr σ)} :
    largest (es.map Expr.levels) ≤ n ↔ ∀ e ∈ es, e.levels ≤ n :=
  max_le_iff_forall (fun es => largest (es.map Expr.levels)) rfl fun _ _ => rfl

/-- The levels that the index of a target takes. -/
def Target.levels : Target σ → Nat
  | whole _ => 0
  | element _ _ i => i.levels

/-- The height of a target: that of its index, and one more for the parentheses. -/
def Target.height : Target σ → Nat
  | whole _ => 0
  | element _ _ i => i.height + 1

/-- The levels that the expressions of a command take. -/
def Command.levels : Command σ → Nat
  | evaluate e => e.levels
  | display es => largest (es.map Expr.levels)
  | store e t => max e.levels t.levels
  | prompt _ | input _ _ | label _ | goto _ | stop => 0

/-- The largest height of the expressions of a command. -/
def Command.height : Command σ → Nat
  | evaluate e => e.height
  | display es => Expr.heightAll es
  | store e t => max e.height t.height
  | prompt _ | input _ _ | label _ | goto _ | stop => 0

/-- The levels that the head of a counting loop takes. -/
def Range.levels (r : Range σ) : Nat :=
  max (max r.start.levels r.last.levels) ((r.step.map Expr.levels).getD 0)

/-- The largest height of the expressions in the head of a counting loop. -/
def Range.height (r : Range σ) : Nat :=
  max (max r.start.height r.last.height) ((r.step.map Expr.height).getD 0)

namespace Stmt

mutual

/-- The levels of nesting that a statement takes. -/
def levels : Stmt σ → Nat
  | command _ c => c.levels
  | ifThen _ e body | whileLoop _ e body => max e.levels (levelsAll body + 1)
  | ifElse _ e body otherwise => max e.levels (max (levelsAll body) (levelsAll otherwise) + 1)
  | forLoop _ r body => max r.levels (levelsAll body + 1)

/-- The levels of nesting that some statements take. -/
def levelsAll : List (Stmt σ) → Nat
  | [] => 0
  | s :: rest => max s.levels (levelsAll rest)

end

mutual

/-- The largest number of blocks and of nodes of expressions on a way to a leaf. -/
def height : Stmt σ → Nat
  | command _ c => c.height
  | ifThen _ e body | whileLoop _ e body => max e.height (heightAll body + 1)
  | ifElse _ e body otherwise => max e.height (max (heightAll body) (heightAll otherwise) + 1)
  | forLoop _ r body => max r.height (heightAll body + 1)

/-- The largest height of some statements. -/
def heightAll : List (Stmt σ) → Nat
  | [] => 0
  | s :: rest => max s.height (heightAll rest)

end

theorem levelsAll_le {n : Nat} {ss : List (Stmt σ)} : levelsAll ss ≤ n ↔ ∀ s ∈ ss, s.levels ≤ n :=
  max_le_iff_forall levelsAll rfl fun _ _ => rfl

theorem heightAll_le {n : Nat} {ss : List (Stmt σ)} : heightAll ss ≤ n ↔ ∀ s ∈ ss, s.height ≤ n :=
  max_le_iff_forall heightAll rfl fun _ _ => rfl

end Stmt

/-- The levels of nesting that a program takes. -/
def Program.levels (p : Program σ) : Nat := Stmt.levelsAll p.statements

/-- The largest number of blocks, groups, braces, indices, signs and operators on a way from the root
of a program to a leaf. -/
def Program.height (p : Program σ) : Nat := Stmt.heightAll p.statements

end CalcBasic
