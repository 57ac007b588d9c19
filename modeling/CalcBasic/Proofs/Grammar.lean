import CalcBasic.Proofs.Nesting
import CalcBasic.Proofs.Resuming

/-!
# The grammar of expressions

The grammar says which tokens write which expression, without a word on how they are read. It has a
phrase for each level of operators, one for each of the two places where signs can stand, and one
for the primaries. All levels lean to the left: an operator has its own level before it and a
tighter one behind it.

A derivation knows whether its tokens are the last ones of a statement. Only there may a closing
mark be missing (`Closing`), so the operand before an operator and the item before a comma are
closed.

Expressions of the grammar carry no places. `Expr.bare` takes the places away from an expression
that was read.
-/

namespace CalcBasic

/-! ## Expressions without places -/

namespace Expr

variable {σ τ : Type}

/-- The expression without its annotations. -/
def bare (e : Expr σ) : Expr Unit := e.map fun _ => ()

theorem bare_list (s : σ) (es : List (Expr σ)) :
    (list s es).bare = list () (es.map bare) := by
  rw [bare, map, mapAll_eq]
  rfl

@[simp] theorem run_map (f : σ → τ) (l : Level) (e : Expr σ) : (e.map f).run l = e.run l := by
  induction e using run.induct l with
  | case1 s left op right h ih => rw [map, run, run, if_pos h, if_pos h, ih]
  | case2 s left op right h => rw [map, run, run, if_neg h, if_neg h]
  | case3 e h =>
    cases e with
    | binary s op left right => exact absurd rfl (h s op left right)
    | _ => rfl

mutual

@[simp] theorem need_map (f : σ → τ) : ∀ e : Expr σ, (e.map f).need = e.need
  | literal _ _ | var _ _ => rfl
  | element _ _ e | signed _ _ e | group _ e => by rw [map, need, need, need_map f e]
  | list _ items => by rw [map, need, need, needAll_mapAll f items]
  | binary _ _ left right => by
    rw [map, need, need, need_map f left, need_map f right, run_map]

theorem needAll_mapAll (f : σ → τ) : ∀ es : List (Expr σ), needAll (mapAll f es) = needAll es
  | [] => rfl
  | e :: es => by rw [mapAll, needAll, needAll, need_map f e, needAll_mapAll f es]

end

@[simp] theorem run_bare (l : Level) (e : Expr σ) : e.bare.run l = e.run l := run_map _ l e

@[simp] theorem need_bare (e : Expr σ) : e.bare.need = e.need := need_map _ e

end Expr

/-! ## The grammar -/

/-- The operator that is written like a sign. -/
def Sign.op : Sign → Op
  | plus => .add
  | minus => .sub

/-- The closing mark of a bracket. The flags say whether the content of the bracket, and the bracket
itself, stand at the end of a statement; there the mark may be missing. -/
inductive Closing (m : Mark) : Bool → Bool → List Token → Prop
  | written {last : Bool} : Closing m false last [.mark m]
  | omitted : Closing m true true []

/-- One or more items with commas between them. The flag says whether they stand at the end of a
statement. -/
inductive Separated {α : Type} (item : List Token → Bool → α → Prop) :
    List Token → Bool → List α → Prop
  | one {ts : List Token} {last : Bool} {x : α} (h : item ts last x) : Separated item ts last [x]
  | more {ts us : List Token} {last : Bool} {x : α} {xs : List α} (h : item ts false x)
      (hs : Separated item us last xs) :
      Separated item (ts ++ .mark .comma :: us) last (x :: xs)

/-- A kind of expression in the grammar. -/
inductive Phrase where
  /-- Operators of the level, or anything that binds tighter. -/
  | level (l : Level)
  /-- A power that may have signs. -/
  | factor
  /-- A primary that may have signs: what stands to the right of `^`. -/
  | exponent
  /-- A number, a name with or without an index, a group or a list. -/
  | primary
deriving DecidableEq, Repr

/-- Any expression. -/
abbrev Phrase.whole : Phrase := .level .disjunction

/-- What the operators of a level begin with. -/
def Level.first : Level → Phrase
  | disjunction => .level .conjunction
  | conjunction => .level .comparison
  | comparison => .level .sum
  | sum => .level .product
  | product => .factor
  | power => .primary

/-- What stands to the right of an operator of the level. -/
def Level.operand : Level → Phrase
  | power => .exponent
  | l => l.first

/-- The tokens write the expression, as a phrase of the grammar. The flag says whether they stand at
the end of a statement. -/
inductive Phrase.Derives : Phrase → List Token → Bool → Expr Unit → Prop
  | first {l : Level} {ts : List Token} {last : Bool} {e : Expr Unit}
      (h : Derives l.first ts last e) : Derives (.level l) ts last e
  | operation {op : Op} {ts us : List Token} {last : Bool} {left right : Expr Unit}
      (hl : Derives (.level op.level) ts false left) (hr : Derives op.level.operand us last right) :
      Derives (.level op.level) (ts ++ .op op :: us) last (.binary () op left right)
  | plainFactor {ts : List Token} {last : Bool} {e : Expr Unit}
      (h : Derives (.level .power) ts last e) : Derives .factor ts last e
  | signedFactor {ts : List Token} {last : Bool} {e : Expr Unit} (sign : Sign)
      (h : Derives .factor ts last e) :
      Derives .factor (.op sign.op :: ts) last (.signed () sign e)
  | plainExponent {ts : List Token} {last : Bool} {e : Expr Unit}
      (h : Derives .primary ts last e) : Derives .exponent ts last e
  | signedExponent {ts : List Token} {last : Bool} {e : Expr Unit} (sign : Sign)
      (h : Derives .exponent ts last e) :
      Derives .exponent (.op sign.op :: ts) last (.signed () sign e)
  | number {last : Bool} (x : Float) : Derives .primary [.number x] last (.literal () x)
  | name {last : Bool} (n : String) : Derives .primary [.name n] last (.var () n)
  | element {ts cs : List Token} {inner last : Bool} {n : String} {e : Expr Unit}
      (hn : (Region.of n).isIndexable = true) (h : Derives .whole ts inner e)
      (hc : Closing .rightParen inner last cs) :
      Derives .primary (.name n :: .mark .leftParen :: (ts ++ cs)) last (.element () n e)
  | group {ts cs : List Token} {inner last : Bool} {e : Expr Unit}
      (h : Derives .whole ts inner e) (hc : Closing .rightParen inner last cs) :
      Derives .primary (.mark .leftParen :: (ts ++ cs)) last (.group () e)
  /-- A list: its items, each with a comma behind it, and then the last one. -/
  | list {items : List (List Token × Expr Unit)} {ts cs : List Token} {inner last : Bool}
      {e : Expr Unit} (hitems : ∀ i ∈ items, Derives .whole i.1 false i.2)
      (h : Derives .whole ts inner e) (hc : Closing .rightBrace inner last cs) :
      Derives .primary
        (.mark .leftBrace :: (items.flatMap (fun i => i.1 ++ [.mark .comma]) ++ ts ++ cs)) last
        (.list () (items.map Prod.snd ++ [e]))

namespace Separated

variable {α β : Type} {item : List Token → Bool → α → Prop} {item' : List Token → Bool → β → Prop}
  {ts : List Token} {last : Bool} {xs : List α}

theorem map {f : α → β} (h : Separated item ts last xs)
    (hf : ∀ ts last x, x ∈ xs → item ts last x → item' ts last (f x)) :
    Separated item' ts last (xs.map f) := by
  induction h with
  | one hx => exact .one (hf _ _ _ List.mem_cons_self hx)
  | more hx _ ih =>
    refine .more (hf _ _ _ List.mem_cons_self hx) (ih fun ts last x hmem => ?_)
    exact hf ts last x (List.mem_cons_of_mem _ hmem)

theorem imp {item' : List Token → Bool → α → Prop} (h : Separated item ts last xs)
    (hi : ∀ ts last x, x ∈ xs → item ts last x → item' ts last x) :
    Separated item' ts last xs := by
  rw [← List.map_id xs]
  exact h.map hi

/-- Items with commas between them, taken apart: all but the last one have a comma behind them. -/
theorem iff_items : Separated item ts last xs ↔
    ∃ (items : List (List Token × α)) (us : List Token) (x : α),
      (∀ i ∈ items, item i.1 false i.2) ∧ item us last x ∧
        ts = items.flatMap (fun i => i.1 ++ [.mark .comma]) ++ us ∧
        xs = items.map Prod.snd ++ [x] := by
  constructor
  · intro h
    induction h with
    | @one us last x hx => exact ⟨[], us, x, nofun, hx, rfl, rfl⟩
    | @more us _ _ x _ hx _ ih =>
      obtain ⟨items, vs, y, hitems, hy, rfl, rfl⟩ := ih
      refine ⟨(us, x) :: items, vs, y, List.forall_mem_cons.mpr ⟨hx, hitems⟩, hy, ?_, rfl⟩
      simp
  · rintro ⟨items, us, x, hitems, hx, rfl, rfl⟩
    induction items with
    | nil => exact .one hx
    | cons i items ih =>
      rw [List.forall_mem_cons] at hitems
      have h := Separated.more hitems.1 (ih hitems.2)
      simpa using h

end Separated

/-! ## Ranks -/

/-- The place of a phrase in the order of tightness. -/
def Phrase.rank : Phrase → Nat
  | level l => l.rank
  | factor => 5
  | exponent | primary => 6

theorem Level.rank_first (l : Level) : l.first.rank = l.rank + 1 := by
  cases l <;> rfl

theorem Level.rank_operand (l : Level) : l.operand.rank = l.rank + 1 := by
  cases l <;> rfl

namespace Phrase.Derives

variable {ph : Phrase} {ts : List Token} {last : Bool} {e : Expr Unit}

theorem rank_le_tightness (h : ph.Derives ts last e) : ph.rank ≤ e.tightness := by
  induction h with
  | @first l _ _ _ _ ih =>
    rw [l.rank_first] at ih
    exact Nat.le_of_succ_le ih
  | operation => exact Nat.le_refl _
  | plainFactor _ ih => exact ih
  | signedFactor => exact (by decide : 5 ≤ 6)
  | plainExponent _ ih => exact ih
  | _ => exact Nat.le_refl _

/-- What an operator of a level begins with holds no operator of the level. -/
theorem run_first {l : Level} (h : l.first.Derives ts last e) : e.run l = 0 := by
  refine Expr.run_eq_zero ?_
  have := h.rank_le_tightness
  rw [l.rank_first] at this
  omega

end Phrase.Derives

end CalcBasic
