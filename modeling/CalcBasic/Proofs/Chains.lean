import CalcBasic.Program

/-!
# The numbering of chains

The chains of a program are its blocks in the order in which they begin. Behind every block stand
the blocks inside it (`preordered_chains`), so the first block inside a statement has a number that
depends only on the statement's own position: the number after its chain's, and one more for every
block of the statements before it (`Program.inner`, `chain_inner`).
-/

namespace CalcBasic

variable {σ : Type}

namespace Stmt

/-- The blocks that a statement has itself. -/
def blocks : Stmt σ → List (List (Stmt σ))
  | command _ _ => []
  | ifThen _ _ body | whileLoop _ _ body | forLoop _ _ body => [body]
  | ifElse _ _ body otherwise => [body, otherwise]

theorem blocks_subset_chains (s : Stmt σ) : s.blocks ⊆ s.chains := by
  cases s <;> simp [blocks, chains]

theorem mem_chainsOf {c : List (Stmt σ)} {ss : List (Stmt σ)} :
    c ∈ chainsOf ss ↔ ∃ s ∈ ss, c ∈ s.chains := by
  induction ss with
  | nil => simp [chainsOf]
  | cons s ss ih => simp [chainsOf, ih]

theorem chainsOf_append (as bs : List (Stmt σ)) :
    chainsOf (as ++ bs) = chainsOf as ++ chainsOf bs := by
  induction as with
  | nil => simp [chainsOf]
  | cons s as ih => simp [chainsOf, ih]

mutual

theorem length_chains (s : Stmt σ) : s.chains.length = s.chainCount := by
  cases s with
  | command => rfl
  | ifThen _ _ body | whileLoop _ _ body | forLoop _ _ body =>
    simp [chains, chainCount, length_chainsOf body]
  | ifElse _ _ body otherwise =>
    simp only [chains, chainCount, List.cons_append, List.length_cons, List.length_append,
      length_chainsOf body, length_chainsOf otherwise]
    omega

theorem length_chainsOf (ss : List (Stmt σ)) : (chainsOf ss).length = chainCountOf ss := by
  cases ss with
  | nil => rfl
  | cons s rest => simp [chainsOf, chainCountOf, length_chains s, length_chainsOf rest]

end

/-! ## Pre-order -/

/-- Behind every block of the list stand the blocks inside it. -/
def Preordered (blocks : List (List (Stmt σ))) : Prop :=
  ∀ n b, blocks[n]? = some b → ∃ after, blocks.drop n = b :: (chainsOf b ++ after)

theorem preordered_nil : Preordered ([] : List (List (Stmt σ))) := by
  intro n b h
  simp at h

theorem Preordered.append {as bs : List (List (Stmt σ))} (ha : Preordered as)
    (hb : Preordered bs) : Preordered (as ++ bs) := by
  intro n b h
  rcases Nat.lt_or_ge n as.length with hn | hn
  · rw [List.getElem?_append_left hn] at h
    obtain ⟨after, e⟩ := ha n b h
    refine ⟨after ++ bs, ?_⟩
    rw [List.drop_append_of_le_length (Nat.le_of_lt hn), e]
    simp
  · rw [List.getElem?_append_right hn] at h
    obtain ⟨after, e⟩ := hb (n - as.length) b h
    refine ⟨after, ?_⟩
    rw [List.drop_append, List.drop_of_length_le hn, e, List.nil_append]

theorem Preordered.block {b : List (Stmt σ)} (h : Preordered (chainsOf b)) :
    Preordered (b :: chainsOf b) := by
  intro n c hc
  cases n with
  | zero =>
    obtain rfl : b = c := by simpa using hc
    exact ⟨[], by simp⟩
  | succ n => exact h n c (by simpa using hc)

mutual

theorem preordered_chains (s : Stmt σ) : Preordered s.chains := by
  cases s with
  | command => exact preordered_nil
  | ifThen _ _ body | whileLoop _ _ body | forLoop _ _ body =>
    exact (preordered_chainsOf body).block
  | ifElse _ _ body otherwise =>
    exact (preordered_chainsOf body).block.append (preordered_chainsOf otherwise).block

theorem preordered_chainsOf (ss : List (Stmt σ)) : Preordered (chainsOf ss) := by
  cases ss with
  | nil => exact preordered_nil
  | cons s rest => exact (preordered_chains s).append (preordered_chainsOf rest)

end

end Stmt

namespace Program

open Stmt

variable {p : Program σ} {pos : Position} {s : Stmt σ} {rest : List (Stmt σ)}

/-- The number of the first block inside the statement at a position. -/
def inner (p : Program σ) (pos : Position) : Nat :=
  pos.chain + 1 + chainCountOf ((p.chain pos.chain).take pos.index)

theorem chains_of_suffix (h : p.suffix pos = s :: rest) :
    p.chains[pos.chain]? = some (p.chain pos.chain) := by
  unfold suffix at h
  unfold chain at h ⊢
  cases hc : p.chains[pos.chain]? with
  | none => simp [hc] at h
  | some b => rfl

/-- The blocks inside a statement stand together in the list of all chains. -/
theorem drop_inner (h : p.suffix pos = s :: rest) :
    ∃ after, p.chains.drop (p.inner pos) = s.chains ++ after := by
  obtain ⟨after, e⟩ := (preordered_chainsOf p.statements).block _ _ (chains_of_suffix h)
  have hsplit : chainsOf (p.chain pos.chain) =
      chainsOf ((p.chain pos.chain).take pos.index) ++ (s.chains ++ chainsOf rest) := by
    rw [← chainsOf, ← chainsOf_append, ← show (p.chain pos.chain).drop pos.index = s :: rest from h,
      List.take_append_drop]
  refine ⟨chainsOf rest ++ after, ?_⟩
  have hdrop : p.chains.drop (pos.chain + 1) = chainsOf (p.chain pos.chain) ++ after := by
    rw [← List.drop_drop, show p.chains.drop pos.chain = _ from e]
    rfl
  rw [inner, ← List.drop_drop, hdrop, hsplit, ← length_chainsOf, List.append_assoc,
    List.drop_left, List.append_assoc]

/-- **The number of a block.** Counted from `inner`, a chain of the program is the block of that
number inside the statement. -/
theorem chain_inner (h : p.suffix pos = s :: rest) {k : Nat} {b : List (Stmt σ)}
    (hk : s.chains[k]? = some b) : p.chain (p.inner pos + k) = b := by
  obtain ⟨after, e⟩ := drop_inner h
  have hlt : k < s.chains.length := (List.getElem?_eq_some_iff.1 hk).1
  rw [chain, ← List.getElem?_drop, e, List.getElem?_append_left hlt, hk]
  rfl

theorem chain_inner_zero {body : List (Stmt σ)} (h : p.suffix pos = s :: rest)
    (hb : s.chains[0]? = some body) : p.chain (p.inner pos) = body :=
  chain_inner h hb

/-- The second part of a conditional is numbered behind all blocks of the first. -/
theorem chain_inner_otherwise {span : σ} {condition : Expr σ} {body otherwise : List (Stmt σ)}
    (h : p.suffix pos = .ifElse span condition body otherwise :: rest) :
    p.chain (p.inner pos + 1 + chainCountOf body) = otherwise := by
  rw [Nat.add_assoc]
  refine chain_inner h ?_
  rw [Stmt.chains, Nat.add_comm 1, List.cons_append, List.getElem?_cons_succ, ← length_chainsOf,
    List.getElem?_append_right (Nat.le_refl _), Nat.sub_self]
  rfl

end Program

end CalcBasic
