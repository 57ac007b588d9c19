import CalcBasic.Proofs.Nesting
import CalcBasic.Proofs.Readers

/-!
# Room for expressions

Reading an expression with more or less room gives the same tree, as far as there is room: it
succeeds with room for the levels that the tree takes, and fails with less (`reader_follows`).

1. `Goal.Meets` says what comes of a goal: which operators can stand at the top, and how many levels
   are taken. `Goal.Fits` says that the room is enough.
2. At a fixed room both are proved for the six levels of operators, given what holds one level deeper
   (`reach_follows`). A chain of operators carries the levels it has used up in its left operand.
3. `read_follows` is the induction on the room.
-/

namespace CalcBasic.Expr

open Reader

/-! ## Goals -/

/-- A graded expression that binds at least as tight as `rank` and takes at most `room` levels. -/
structure Ranked (rank room : Nat) (e : Expr Span) : Prop where
  graded : e.Graded
  rank_le : rank ≤ e.tightness
  need_le : e.need ≤ room

namespace Goal

/-- What has to hold before a goal is read: a left operand of a chain can stand before an operator of
the level, and has taken no more levels than the chain so far allows. -/
def Starts (room : Nat) : Goal → Prop
  | whole | operand _ => True
  | chain level left => left.Ranked level.rank (left.run level + room)

/-- What holds of the expression that is read for a goal with so much room. -/
def Meets (room : Nat) : Goal → Expr Span → Prop
  | whole, e => e.Ranked 0 room
  | operand level, e => e.Ranked (level.rank + 1) room
  | chain level left, e => e.Ranked level.rank (left.run level + room) ∧ left.need ≤ e.need

/-- The room is enough to read the expression for the goal. -/
def Fits (room : Nat) : Goal → Expr Span → Prop
  | whole, e | operand _, e => e.need ≤ room
  | chain level left, e => e.need ≤ left.run level + room

end Goal

/-- The readers one level deeper than `room₁` and `room₂`. -/
def Deepens (room₁ room₂ : Nat) (d₁ d₂ : Goal → Reader (Expr Span)) : Prop :=
  ∀ g : Goal, (∀ m, room₁ = m + 1 → g.Starts m) →
    Follows (d₁ g) (d₂ g) (fun e => ∃ m, room₁ = m + 1 ∧ g.Meets m e)
      (fun e => ∃ m, room₂ = m + 1 ∧ g.Fits m e)

/-! ## The levels of operators at a fixed room -/

section Levels

variable {room₁ room₂ : Nat} {d₁ d₂ : Goal → Reader (Expr Span)}

theorem Deepens.whole (hd : Deepens room₁ room₂ d₁ d₂) :
    Follows (d₁ .whole) (d₂ .whole) (fun e => e.Graded ∧ e.need < room₁)
      (fun e => e.need < room₂) := by
  refine (hd .whole fun _ _ => trivial).mono ?_ ?_
  · rintro e ⟨m, rfl, he⟩
    exact ⟨he.graded, Nat.lt_succ_of_le he.need_le⟩
  · intro e _ he
    exact ⟨room₂ - 1, by omega, show e.need ≤ room₂ - 1 by omega⟩

theorem Deepens.operand (hd : Deepens room₁ room₂ d₁ d₂) (level : Level) :
    Follows (d₁ (.operand level)) (d₂ (.operand level))
      (fun e => e.Graded ∧ level.rank < e.tightness ∧ e.need < room₁)
      (fun e => e.need < room₂) := by
  refine (hd (.operand level) fun _ _ => trivial).mono ?_ ?_
  · rintro e ⟨m, rfl, he⟩
    exact ⟨he.graded, he.rank_le, Nat.lt_succ_of_le he.need_le⟩
  · intro e _ he
    exact ⟨room₂ - 1, by omega, show e.need ≤ room₂ - 1 by omega⟩

theorem index?_follows {Q P : Expr Span → Prop} (h : Follows (d₁ .whole) (d₂ .whole) Q P)
    (name : String) :
    Follows (index? d₁ name) (index? d₂ name) (fun i => ∀ p ∈ i, Q p.1)
      (fun i => ∀ p ∈ i, P p.1) := by
  unfold index?
  by_cases hi : (Region.of name).isIndexable
  · rw [if_pos hi, if_pos hi]
    refine .bind_same fun paren => ?_
    cases paren with
    | none => exact .pure nofun
    | some span =>
      refine .bind h fun e he => .bind_same fun closed => .pure ?_
      simp [he]
  · rw [if_neg hi, if_neg hi]
    exact .pure nofun

theorem primary_follows (hd : Deepens room₁ room₂ d₁ d₂) :
    Follows (primary d₁) (primary d₂) (Ranked 6 room₁) (fun e => e.need ≤ room₂) := by
  intro ts
  unfold primary
  split
  case h_1 x span rest =>
    intro e rest' h
    cases h
    exact ⟨⟨trivial, Nat.le_refl _, Nat.zero_le _⟩, fun _ => rfl⟩
  case h_2 n span rest =>
    refine Follows.bind (index?_follows hd.whole n) (fun i hi => ?_) rest
    cases i with
    | none => exact .pure ⟨⟨trivial, Nat.le_refl _, Nat.zero_le _⟩, fun _ => nofun⟩
    | some p =>
      obtain ⟨hg, hn⟩ := hi p rfl
      refine .pure ⟨⟨hg, Nat.le_refl _, hn⟩, fun hneed q hq => ?_⟩
      cases hq
      exact hneed
  case h_3 span rest =>
    refine Follows.bind hd.whole (fun e he => .bind_same fun closed => .pure ?_) rest
    exact ⟨⟨he.1, Nat.le_refl _, he.2⟩, fun hneed => hneed⟩
  case h_4 span rest =>
    refine Follows.bind hd.whole.separated (fun es hes => .bind_same fun closed => .pure ?_) rest
    have hg : GradedAll es := gradedAll_iff.mpr fun e he => (hes.2 e he).1
    have hn : needAll es < room₁ := needAll_lt hes.1 fun e he => (hes.2 e he).2
    exact ⟨⟨hg, Nat.le_refl _, hn⟩,
      fun hneed e he => Nat.lt_of_le_of_lt (needAll_le.mp (Nat.le_refl _) e he) hneed⟩
  case h_5 => exact Follows.unexpected ts

theorem operator?_follows (level : Level) :
    Follows (operator? level) (operator? level) (fun op => ∀ o ∈ op, o.level = level)
      (fun _ => True) := by
  intro ts op rest h
  refine ⟨?_, fun _ => h⟩
  unfold operator? at h
  split at h
  · rename_i o span rest'
    by_cases ho : o.level = level
    · rw [if_pos ho] at h
      cases h
      simpa using ho
    · rw [if_neg ho] at h
      cases h
      exact nofun
  · cases h
    exact nofun

theorem chain_follows (hd : Deepens room₁ room₂ d₁ d₂) {level : Level} {left : Expr Span}
    (hleft : (Goal.chain level left).Starts room₁) :
    Follows (chain d₁ level left) (chain d₂ level left) ((Goal.chain level left).Meets room₁)
      ((Goal.chain level left).Fits room₂) := by
  refine .bind (operator?_follows level) fun op hop => ?_
  cases op with
  | none => exact .pure ⟨⟨hleft, Nat.le_refl _⟩, fun _ => trivial⟩
  | some op =>
    obtain rfl : op.level = level := hop op rfl
    refine .bind (hd.operand op.level) fun right hright => ?_
    obtain ⟨hgr, -, hnr⟩ := hright
    have hrun : (join left op right).run op.level = left.run op.level + 1 := if_pos rfl
    have hneed : (join left op right).need = max left.need (left.run op.level + 1 + right.need) :=
      rfl
    have hstarts : ∀ m, room₁ = m + 1 → (Goal.chain op.level (join left op right)).Starts m := by
      rintro m rfl
      refine ⟨⟨hleft.rank_le, hleft.graded, hgr⟩, Nat.le_refl _, ?_⟩
      have := hleft.need_le
      rw [hrun, hneed]
      omega
    refine (hd _ hstarts).mono ?_ ?_
    · rintro e ⟨m, rfl, hranked, hmono⟩
      rw [hneed] at hmono
      have hle := hranked.need_le
      rw [hrun] at hle
      refine ⟨⟨⟨⟨hranked.graded, hranked.rank_le, by omega⟩, by omega⟩, fun _ => trivial⟩, ?_⟩
      intro hfit
      have hfit : e.need ≤ left.run op.level + room₂ := hfit
      omega
    · rintro e ⟨m, rfl, hranked, hmono⟩ hfit
      rw [hneed] at hmono
      have hfit : e.need ≤ left.run op.level + room₂ := hfit
      refine ⟨room₂ - 1, by omega, ?_⟩
      change e.need ≤ (join left op right).run op.level + (room₂ - 1)
      rw [hrun]
      omega

/-- Operators of a level after an operand that binds tighter. -/
theorem chained (hd : Deepens room₁ room₂ d₁ d₂) (level : Level) {r₁ r₂ : Reader (Expr Span)}
    (h : Follows r₁ r₂ (Ranked (level.rank + 1) room₁) (fun e => e.need ≤ room₂)) :
    Follows (r₁ >>= chain d₁ level) (r₂ >>= chain d₂ level) (Ranked level.rank room₁)
      (fun e => e.need ≤ room₂) := by
  refine .bind h fun left hleft => ?_
  have hrun : left.run level = 0 := run_eq_zero hleft.rank_le
  have hstarts : (Goal.chain level left).Starts room₁ := by
    refine ⟨hleft.graded, Nat.le_of_succ_le hleft.rank_le, ?_⟩
    rw [hrun, Nat.zero_add]
    exact hleft.need_le
  refine (chain_follows hd hstarts).mono ?_ ?_
  · rintro e ⟨hranked, hmono⟩
    rw [hrun, Nat.zero_add] at hranked
    exact ⟨hranked, Nat.le_trans hmono⟩
  · intro e _ hneed
    change e.need ≤ left.run level + room₂
    rw [hrun, Nat.zero_add]
    exact hneed

theorem signs_follows (hd : Deepens room₁ room₂ d₁ d₂) (level : Level) {rank : Nat}
    (hrank : rank ≤ 6) {r₁ r₂ : Reader (Expr Span)}
    (h : Follows r₁ r₂ (Ranked rank room₁) (fun e => e.need ≤ room₂)) :
    Follows (signs d₁ level r₁) (signs d₂ level r₂) (Ranked rank room₁)
      (fun e => e.need ≤ room₂) := by
  refine .bind_same fun sign => ?_
  cases sign with
  | none => exact h
  | some p =>
    refine .bind (hd.operand level) fun e he => .pure ?_
    exact ⟨⟨he.1, hrank, he.2.2⟩, fun hneed => hneed⟩

theorem exponent_follows (hd : Deepens room₁ room₂ d₁ d₂) :
    Follows (exponent d₁) (exponent d₂) (Ranked 6 room₁) (fun e => e.need ≤ room₂) :=
  signs_follows hd .power (Nat.le_refl 6) (primary_follows hd)

theorem factor_follows (hd : Deepens room₁ room₂ d₁ d₂) :
    Follows (factor d₁) (factor d₂) (Ranked 5 room₁) (fun e => e.need ≤ room₂) :=
  signs_follows hd .product (by decide) (chained hd .power (primary_follows hd))

theorem product_follows (hd : Deepens room₁ room₂ d₁ d₂) :
    Follows (product d₁) (product d₂) (Ranked 4 room₁) (fun e => e.need ≤ room₂) :=
  chained hd .product (factor_follows hd)

theorem sum_follows (hd : Deepens room₁ room₂ d₁ d₂) :
    Follows (sum d₁) (sum d₂) (Ranked 3 room₁) (fun e => e.need ≤ room₂) :=
  chained hd .sum (product_follows hd)

theorem comparison_follows (hd : Deepens room₁ room₂ d₁ d₂) :
    Follows (comparison d₁) (comparison d₂) (Ranked 2 room₁) (fun e => e.need ≤ room₂) :=
  chained hd .comparison (sum_follows hd)

theorem conjunction_follows (hd : Deepens room₁ room₂ d₁ d₂) :
    Follows (conjunction d₁) (conjunction d₂) (Ranked 1 room₁) (fun e => e.need ≤ room₂) :=
  chained hd .conjunction (comparison_follows hd)

theorem reach_follows (hd : Deepens room₁ room₂ d₁ d₂) (g : Goal) (hg : g.Starts room₁) :
    Follows (reach d₁ g) (reach d₂ g) (g.Meets room₁) (g.Fits room₂) := by
  cases g with
  | whole => exact chained hd .disjunction (conjunction_follows hd)
  | operand level =>
    cases level with
    | disjunction => exact conjunction_follows hd
    | conjunction => exact comparison_follows hd
    | comparison => exact sum_follows hd
    | sum => exact product_follows hd
    | product => exact factor_follows hd
    | power => exact exponent_follows hd
  | chain level left => exact chain_follows hd hg

end Levels

/-! ## The induction on the room -/

/-- What is read one level deeper than `room`. -/
def deeper (room : Nat) (g : Goal) : Reader (Expr Span) := nested (fun m => read m g) room

theorem read_eq_reach (room : Nat) : read room = reach (deeper room) := by
  funext g
  cases room <;> rfl

theorem deepens_deeper (room₁ room₂ : Nat)
    (h : ∀ m₁, room₁ = m₁ + 1 → ∀ m₂ g, Goal.Starts m₁ g →
      Follows (read m₁ g) (read m₂ g) (g.Meets m₁) (g.Fits m₂)) :
    Deepens room₁ room₂ (deeper room₁) (deeper room₂) :=
  fun g hg => .nested room₁ room₂ fun m₁ hm₁ m₂ => h m₁ hm₁ m₂ g (hg m₁ hm₁)

theorem read_follows (room₁ room₂ : Nat) (g : Goal) (hg : g.Starts room₁) :
    Follows (read room₁ g) (read room₂ g) (g.Meets room₁) (g.Fits room₂) := by
  rw [read_eq_reach, read_eq_reach]
  induction room₁ generalizing room₂ g with
  | zero => exact reach_follows (deepens_deeper 0 room₂ fun m₁ hm₁ => nomatch hm₁) g hg
  | succ room₁ ih =>
    refine reach_follows (deepens_deeper _ room₂ ?_) g hg
    rintro m₁ hm₁ m₂ g hg
    cases hm₁
    rw [read_eq_reach, read_eq_reach]
    exact ih m₂ g hg

/-- An expression is read with room for its levels, and with no less. -/
theorem reader_follows (room₁ room₂ : Nat) :
    Follows (reader room₁) (reader room₂) (fun e => e.levels ≤ room₁ ∧ e.height < ceiling room₁)
      (fun e => e.levels ≤ room₂) := by
  have hd := deepens_deeper room₁ room₂ fun m₁ _ m₂ g => read_follows m₁ m₂ g
  refine hd.whole.mono ?_ fun _ _ h => h
  rintro e ⟨hg, hn⟩
  exact ⟨hn, height_lt_ceiling hg hn⟩

end CalcBasic.Expr
