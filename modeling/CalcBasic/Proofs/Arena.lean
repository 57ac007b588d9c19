import CalcBasic.Program.View
import CalcBasic.Proofs.FlatSimulation
import Mathlib.Data.List.Nodup
import Mathlib.Data.List.Pairwise
import Mathlib.Data.List.Perm.Basic

/-!
# Programs as arenas

A program is shown chain by chain, and its block statements name their blocks by number. In this
form it is an arena: a list of chains whose statements have no statements inside them, only numbers.

1. A walk follows the numbers (`Arena.Walk`). It enters a chain, takes its statements one after the
   other, and goes through the blocks of a statement before it takes the next one. An arena is
   numbered in pre-order if the walk from chain 0 meets all chains in the order of their numbers.
2. In such an arena the numbers are sound, whatever it comes from: every chain but the first is
   named by exactly one statement (`Arena.Preordered.owner`), which stands in an earlier chain
   (`Arena.Preordered.chain_lt`).
3. The arena of a program is numbered in pre-order (`Program.preordered_arena`), and every arena so
   numbered is the arena of exactly one program (`Arena.preordered_iff`).
-/

namespace CalcBasic

variable {σ : Type}

/-! ## Arenas -/

namespace Entry

/-- The label that a statement at a position is. -/
def labels (here : Position) : Entry σ → List (String × Position)
  | command _ (.label n) => [(n, here)]
  | _ => []

end Entry

/-- What a walk has still to do: to enter a chain, or to go through the blocks of a statement. -/
inductive Stop (σ : Type) where
  | chain (number : Nat)
  | statement (here : Position) (entry : Entry σ)

/-- The numbers that a walk comes to from a stop. -/
def Stop.ids : Stop σ → List Nat
  | chain c => [c]
  | statement _ e => e.ids

namespace Arena

/-- The statements of a chain as stops, from the index `first` on. -/
def stops (c first : Nat) (entries : List (Entry σ)) : List (Stop σ) :=
  (entries.zipIdx first).map fun (e, i) => .statement ⟨c, i⟩ e

/-- The walk through the stops enters these chains and meets these labels. -/
inductive Walk (a : Arena σ) : List (Stop σ) → List Nat → List (String × Position) → Prop
  | done : Walk a [] [] []
  | chain {c : Nat} {todo : List (Stop σ)} {entered : List Nat} {labels : List (String × Position)}
      (h : Walk a (stops c 0 (a.chain c) ++ todo) entered labels) :
      Walk a (.chain c :: todo) (c :: entered) labels
  | statement {here : Position} {e : Entry σ} {todo : List (Stop σ)} {entered : List Nat}
      {labels : List (String × Position)}
      (h : Walk a (e.ids.map .chain ++ todo) entered labels) :
      Walk a (.statement here e :: todo) entered (e.labels here ++ labels)

/-- The walk from chain 0 enters all chains in the order of their numbers. -/
def Preordered (a : Arena σ) : Prop :=
  ∃ labels, a.Walk [.chain 0] (List.range a.chains.length) labels

theorem Walk.unique {a : Arena σ} {todo : List (Stop σ)} {entered entered' : List Nat}
    {labels labels' : List (String × Position)} (h : a.Walk todo entered labels)
    (h' : a.Walk todo entered' labels') : entered' = entered ∧ labels' = labels := by
  induction h generalizing entered' labels' with
  | done =>
    cases h'
    exact ⟨rfl, rfl⟩
  | chain _ ih =>
    cases h' with
    | chain h' =>
      obtain ⟨rfl, rfl⟩ := ih h'
      exact ⟨rfl, rfl⟩
  | statement _ ih =>
    cases h' with
    | statement h' =>
      obtain ⟨rfl, rfl⟩ := ih h'
      exact ⟨rfl, rfl⟩

/-! ## Numbers in an arena -/

@[simp] theorem stops_cons (c first : Nat) (e : Entry σ) (entries : List (Entry σ)) :
    stops c first (e :: entries) = .statement ⟨c, first⟩ e :: stops c (first + 1) entries := rfl

theorem flatMap_ids_stops (c first : Nat) (entries : List (Entry σ)) :
    (stops c first entries).flatMap Stop.ids = entries.flatMap Entry.ids := by
  induction entries generalizing first with
  | nil => rfl
  | cons e entries ih => rw [stops_cons, List.flatMap_cons, List.flatMap_cons, ih, Stop.ids]

theorem flatMap_ids_chain (ids : List Nat) :
    (ids.map (Stop.chain : Nat → Stop σ)).flatMap Stop.ids = ids := by
  induction ids with
  | nil => rfl
  | cons c ids ih => rw [List.map_cons, List.flatMap_cons, ih, Stop.ids, List.singleton_append]

/-- All statements of an arena with their positions. -/
def entries (a : Arena σ) : List (Position × Entry σ) :=
  (List.range a.chains.length).flatMap fun c => (a.chain c).zipIdx.map fun (e, i) => (⟨c, i⟩, e)

theorem lt_of_entryAt? {a : Arena σ} {pos : Position} {e : Entry σ}
    (h : a.entryAt? pos = some e) : pos.chain < a.chains.length := by
  by_contra hc
  rw [entryAt?, chain, List.getElem?_eq_none (Nat.not_lt.mp hc)] at h
  cases h

theorem mem_entries {a : Arena σ} {pos : Position} {e : Entry σ} :
    (pos, e) ∈ a.entries ↔ a.entryAt? pos = some e := by
  obtain ⟨c, i⟩ := pos
  simp only [entries, List.mem_flatMap, List.mem_range, List.mem_map, Prod.mk.injEq,
    Position.mk.injEq, Prod.exists]
  constructor
  · rintro ⟨c', -, e', i', hmem, ⟨rfl, rfl⟩, rfl⟩
    exact List.mem_zipIdx_iff_getElem?.mp hmem
  · intro h
    exact ⟨c, lt_of_entryAt? h, e, i, List.mem_zipIdx_iff_getElem?.mpr h, ⟨rfl, rfl⟩, rfl⟩

/-- The walk enters what its stops name, and what the chains name that it enters. -/
theorem Walk.perm {a : Arena σ} {todo : List (Stop σ)} {entered : List Nat}
    {labels : List (String × Position)} (h : a.Walk todo entered labels) :
    entered.Perm (todo.flatMap Stop.ids ++
      entered.flatMap fun c => (a.chain c).flatMap Entry.ids) := by
  induction h with
  | done => exact .nil
  | @chain c todo entered labels _ ih =>
    rw [List.flatMap_append, flatMap_ids_stops] at ih
    rw [List.flatMap_cons, List.flatMap_cons, Stop.ids, List.singleton_append, List.cons_append]
    refine (ih.trans ?_).cons c
    rw [← List.append_assoc (todo.flatMap Stop.ids)]
    exact List.perm_append_comm.append_right _
  | statement _ ih =>
    rw [List.flatMap_append, flatMap_ids_chain] at ih
    exact ih

/-- What a chain names is entered after it. -/
theorem Walk.entered_after {a : Arena σ} {todo : List (Stop σ)} {entered : List Nat}
    {labels : List (String × Position)} (h : a.Walk todo entered labels) {before after : List Nat}
    {c k : Nat} (hsplit : entered = before ++ c :: after)
    (hk : k ∈ (a.chain c).flatMap Entry.ids) : k ∈ after := by
  induction h generalizing before with
  | done => simp at hsplit
  | chain h ih =>
    cases before with
    | nil =>
      obtain ⟨rfl, rfl⟩ := List.cons.inj hsplit
      refine h.perm.mem_iff.mpr (List.mem_append_left _ ?_)
      rw [List.flatMap_append, flatMap_ids_stops]
      exact List.mem_append_left _ hk
    | cons _ before => exact ih (List.cons.inj hsplit).2
  | statement _ ih => exact ih hsplit

namespace Preordered

variable {a : Arena σ} (h : a.Preordered)

include h

/-- The statements name each chain but the first, and each of them once. -/
theorem names_perm : (a.entries.flatMap fun x => x.2.ids).Perm
    (List.range' 1 (a.chains.length - 1)) := by
  obtain ⟨labels, hwalk⟩ := h
  have hperm := hwalk.perm
  obtain ⟨n, hn⟩ : ∃ n, a.chains.length = n + 1 := by
    cases hlength : a.chains.length with
    | zero =>
      rw [hlength] at hwalk
      cases hwalk
    | succ n => exact ⟨n, rfl⟩
  have hnames : (a.entries.flatMap fun x => x.2.ids) =
      (List.range a.chains.length).flatMap fun c => (a.chain c).flatMap Entry.ids := by
    rw [entries, List.flatMap_assoc]
    congr 1
    funext c
    rw [List.flatMap_map, ← List.flatMap_map, List.zipIdx_map_fst]
  rw [← hnames, hn, List.range_eq_range', List.range'_succ] at hperm
  rw [hn]
  exact hperm.cons_inv.symm

theorem names_nodup : (a.entries.flatMap fun x => x.2.ids).Nodup :=
  h.names_perm.nodup_iff.mpr List.nodup_range'

theorem id_lt {pos : Position} {e : Entry σ} (he : a.entryAt? pos = some e) {k : Nat}
    (hk : k ∈ e.ids) : 0 < k ∧ k < a.chains.length := by
  have hmem : k ∈ a.entries.flatMap fun x => x.2.ids :=
    List.mem_flatMap.mpr ⟨(pos, e), mem_entries.mpr he, hk⟩
  have hrange := List.mem_range'_1.mp (h.names_perm.mem_iff.mp hmem)
  omega

theorem chain_lt {pos : Position} {e : Entry σ} (he : a.entryAt? pos = some e) {k : Nat}
    (hk : k ∈ e.ids) : pos.chain < k := by
  have hlt := lt_of_entryAt? he
  obtain ⟨labels, hwalk⟩ := h
  obtain ⟨n, hn⟩ : ∃ n, a.chains.length = pos.chain + (n + 1) :=
    ⟨a.chains.length - pos.chain - 1, by omega⟩
  have hsplit : List.range a.chains.length =
      List.range' 0 pos.chain ++ pos.chain :: List.range' (pos.chain + 1) n := by
    rw [hn, List.range_eq_range', ← List.range'_append, Nat.one_mul, Nat.zero_add, List.range'_succ]
  have hchain : k ∈ (a.chain pos.chain).flatMap Entry.ids :=
    List.mem_flatMap.mpr ⟨e, List.mem_of_getElem? he, hk⟩
  have hafter := List.mem_range'_1.mp (hwalk.entered_after hsplit hchain)
  omega

/-- **Ownership.** Every chain but the first is named by exactly one statement. -/
theorem owner {k : Nat} (hpos : 0 < k) (hk : k < a.chains.length) :
    ∃! pos, ∃ e, a.entryAt? pos = some e ∧ k ∈ e.ids := by
  have hmem : k ∈ a.entries.flatMap fun x => x.2.ids :=
    h.names_perm.mem_iff.mpr (List.mem_range'_1.mpr (by omega))
  obtain ⟨⟨pos, e⟩, he, hke⟩ := List.mem_flatMap.mp hmem
  refine ⟨pos, ⟨e, mem_entries.mp he, hke⟩, ?_⟩
  rintro pos' ⟨e', he', hke'⟩
  by_contra hne
  have : Std.Symm (Function.onFun List.Disjoint fun x : Position × Entry σ => x.2.ids) :=
    ⟨fun _ _ hdisjoint _ hk hk' => hdisjoint hk' hk⟩
  have hne : (pos, e) ≠ (pos', e') := fun heq => hne (Prod.mk.inj heq).1.symm
  exact (List.nodup_flatMap.mp h.names_nodup).2.forall he (mem_entries.mpr he') hne hke hke'

theorem nodup_ids {pos : Position} {e : Entry σ} (he : a.entryAt? pos = some e) : e.ids.Nodup :=
  (List.nodup_flatMap.mp h.names_nodup).1 (pos, e) (mem_entries.mpr he)

end Preordered

end Arena

/-! ## The arena of a program -/

namespace Stmt

/-- The statement with the numbers of its blocks, of which the first is `next`. -/
def entry (next : Nat) : Stmt σ → Entry σ
  | command s c => .command s c
  | ifThen s e _ => .ifThen s e next
  | ifElse s e body _ => .ifElse s e next (next + 1 + chainCountOf body)
  | whileLoop s e _ => .whileLoop s e next
  | forLoop s r _ => .forLoop s r next

/-- The statements of a chain with the numbers of their blocks. -/
def entriesOf (next : Nat) (ss : List (Stmt σ)) : List (Entry σ) :=
  (numbered next ss).map fun (n, s) => s.entry n

@[simp] theorem entriesOf_cons (next : Nat) (s : Stmt σ) (rest : List (Stmt σ)) :
    entriesOf next (s :: rest) = s.entry next :: entriesOf (next + s.chainCount) rest := rfl

theorem entriesOf_append (next : Nat) (as bs : List (Stmt σ)) :
    entriesOf next (as ++ bs) = entriesOf next as ++ entriesOf (next + chainCountOf as) bs := by
  induction as generalizing next with
  | nil => rfl
  | cons s as ih =>
    rw [List.cons_append, entriesOf_cons, entriesOf_cons, ih, chainCountOf, Nat.add_assoc]
    rfl

/-- Blocks as the chains of an arena from a number on. -/
def chainsFrom (first : Nat) (blocks : List (List (Stmt σ))) : List (List (Entry σ)) :=
  (blocks.zipIdx first).map fun (chain, i) => entriesOf (i + 1) chain

theorem chainsFrom_cons (first : Nat) (b : List (Stmt σ)) (bs : List (List (Stmt σ))) :
    chainsFrom first (b :: bs) = entriesOf (first + 1) b :: chainsFrom (first + 1) bs := rfl

theorem chainsFrom_append (first : Nat) (as bs : List (List (Stmt σ))) :
    chainsFrom first (as ++ bs) = chainsFrom first as ++ chainsFrom (first + as.length) bs := by
  rw [chainsFrom, List.zipIdx_append, List.map_append]
  rfl

end Stmt

/-- The program as an arena. The first block inside a chain has the number after the chain's own. It
is the arena that is built when the program is read (`Arena.parse_eq`). -/
def Program.arena (p : Program σ) : Arena σ :=
  ⟨p.chains.zipIdx.map fun (chain, i) => Stmt.entriesOf (i + 1) chain⟩

theorem Program.viewChains_eq (p : Program Span) :
    p.viewChains = p.arena.chains.map Arena.viewChain := by
  have hentry : ∀ (n : Nat) (s : Stmt Span),
      (s.entry n).viewContent = s.viewContent n ∧ (s.entry n).span = s.span := by
    intro n s
    cases s <;> exact ⟨rfl, rfl⟩
  simp only [viewChains, arena, List.map_map]
  refine List.map_congr_left fun x _ => ?_
  simp only [viewChain, Function.comp_apply, Arena.viewChain, Stmt.entriesOf, List.map_map, hentry,
    Function.comp_def]

theorem Program.view_arena (p : Program Span) : p.arena.view = p.view := by
  rw [view, viewChains_eq]
  rfl

namespace Arena

open Stmt

/-- From the number `m` on, the chains of the arena are the blocks. -/
def Stores (a : Arena σ) (m : Nat) (blocks : List (List (Stmt σ))) : Prop :=
  ∀ i b, blocks[i]? = some b → a.chain (m + i) = entriesOf (m + i + 1) b

theorem stores_append {a : Arena σ} {m : Nat} {xs ys : List (List (Stmt σ))} :
    a.Stores m (xs ++ ys) ↔ a.Stores m xs ∧ a.Stores (m + xs.length) ys := by
  constructor
  · intro h
    refine ⟨fun i b hb => h i b ?_, fun i b hb => ?_⟩
    · rw [List.getElem?_append_left (List.getElem?_eq_some_iff.mp hb).1]
      exact hb
    · rw [Nat.add_assoc]
      refine h (xs.length + i) b ?_
      rw [List.getElem?_append_right (Nat.le_add_right _ _), Nat.add_sub_cancel_left]
      exact hb
  · rintro ⟨hxs, hys⟩ i b hb
    rcases Nat.lt_or_ge i xs.length with hi | hi
    · rw [List.getElem?_append_left hi] at hb
      exact hxs i b hb
    · rw [List.getElem?_append_right hi] at hb
      have h := hys (i - xs.length) b hb
      rw [Nat.add_assoc, Nat.add_sub_cancel' hi] at h
      exact h

theorem stores_cons {a : Arena σ} {m : Nat} {b : List (Stmt σ)} {bs : List (List (Stmt σ))} :
    a.Stores m (b :: bs) ↔ a.chain m = entriesOf (m + 1) b ∧ a.Stores (m + 1) bs := by
  rw [← List.singleton_append, stores_append]
  refine and_congr_left fun _ => ⟨fun h => h 0 b rfl, fun h i c hc => ?_⟩
  cases i with
  | zero =>
    cases hc
    exact h
  | succ i => cases hc

theorem stores_nil (a : Arena σ) (m : Nat) : a.Stores m [] := nofun

end Arena

theorem Program.stores_arena (p : Program σ) : p.arena.Stores 0 p.chains := by
  intro i b hb
  rw [Nat.zero_add, Arena.chain, arena, List.getElem?_map, List.getElem?_zipIdx, hb]
  simp

namespace Arena

open Stmt

/-! ## The walk through a program -/

section Walk

variable {a : Arena σ} {todo : List (Stop σ)} {entered : List Nat}
  {labels : List (String × Position)}

/-- The walk enters a block and the blocks inside it. -/
theorem walk_block {c : Nat} {b : List (Stmt σ)} (hb : a.chain c = entriesOf (c + 1) b)
    (h : a.Walk (stops c 0 (entriesOf (c + 1) b) ++ todo)
      (List.range' (c + 1) (chainCountOf b) ++ entered) (labelsOf ⟨c, 0⟩ (c + 1) b ++ labels)) :
    a.Walk (.chain c :: todo) (List.range' c (chainCountOf b + 1) ++ entered)
      (labelsOf ⟨c, 0⟩ (c + 1) b ++ labels) := by
  rw [List.range'_succ, List.cons_append]
  refine .chain ?_
  rw [hb]
  exact h

mutual

theorem walk_statement (s : Stmt σ) (here : Position) (next : Nat) {todo : List (Stop σ)}
    {entered : List Nat} {labels : List (String × Position)} (hs : a.Stores next s.chains)
    (h : a.Walk todo entered labels) :
    a.Walk (.statement here (s.entry next) :: todo)
      (List.range' next s.chainCount ++ entered) (s.labels here next ++ labels) := by
  cases s with
  | command span c =>
    have hwalk : a.Walk (.statement here (.command span c) :: todo) entered
        ((Entry.command span c).labels here ++ labels) := .statement h
    cases c <;> exact hwalk
  | ifThen _ _ body | whileLoop _ _ body | forLoop _ _ body =>
    obtain ⟨hbody, hinner⟩ := stores_cons.mp hs
    exact .statement (walk_block hbody (walk_statements body next 0 (next + 1) hinner h))
  | ifElse _ _ body otherwise =>
    rw [Stmt.chains, List.cons_append, stores_cons, stores_append, stores_cons,
      length_chainsOf] at hs
    obtain ⟨hbody, hinner, hotherwise, hinner'⟩ := hs
    have hsecond := walk_block hotherwise (walk_statements otherwise _ 0 _ hinner' h)
    have hfirst := walk_block hbody (walk_statements body next 0 (next + 1) hinner hsecond)
    rw [chainCount, Stmt.labels, ← List.range'_append, Nat.one_mul, List.append_assoc,
      List.append_assoc, Nat.add_comm (chainCountOf body), ← Nat.add_assoc]
    rw [Nat.add_comm (chainCountOf body)] at hfirst
    exact .statement hfirst

theorem walk_statements (ss : List (Stmt σ)) (c first next : Nat) {todo : List (Stop σ)}
    {entered : List Nat} {labels : List (String × Position)} (hs : a.Stores next (chainsOf ss))
    (h : a.Walk todo entered labels) :
    a.Walk (stops c first (entriesOf next ss) ++ todo)
      (List.range' next (chainCountOf ss) ++ entered) (labelsOf ⟨c, first⟩ next ss ++ labels) := by
  cases ss with
  | nil => exact h
  | cons s rest =>
    rw [chainsOf, stores_append, length_chains] at hs
    have hrest := walk_statements rest c (first + 1) _ hs.2 h
    rw [chainCountOf, labelsOf, ← List.range'_append, Nat.one_mul, List.append_assoc,
      List.append_assoc]
    exact walk_statement s ⟨c, first⟩ next hs.1 hrest

end

end Walk

end Arena

namespace Program

open Stmt

theorem length_chains (p : Program σ) : p.chains.length = chainCountOf p.statements + 1 := by
  rw [chains, List.length_cons, length_chainsOf]

theorem length_arena (p : Program σ) : p.arena.chains.length = p.chains.length := by
  rw [arena, List.length_map, List.length_zipIdx]

/-- The walk through the arena of a program enters every chain once, in the order of the numbers,
and meets the labels of the program in their order. -/
theorem walk_arena (p : Program σ) :
    p.arena.Walk [.chain 0] (List.range p.arena.chains.length) p.labels := by
  obtain ⟨hblock, hinner⟩ := Arena.stores_cons.mp p.stores_arena
  have hwalk := Arena.walk_block hblock (Arena.walk_statements p.statements 0 0 1 hinner .done)
  rw [List.append_nil, List.append_nil] at hwalk
  rw [length_arena, length_chains, List.range_eq_range']
  exact hwalk

theorem preordered_arena (p : Program σ) : p.arena.Preordered := ⟨p.labels, p.walk_arena⟩

end Program

/-! ## The program of an arena -/

namespace Arena

open Stmt

/-- The stops are those of some blocks and statements that are numbered from `m` on; the last
argument lists their blocks and all blocks inside them. -/
inductive Grown : Nat → List (Stop σ) → List (List (Stmt σ)) → Prop
  | nil {m : Nat} : Grown m [] []
  | block {m : Nat} {b : List (Stmt σ)} {todo : List (Stop σ)} {blocks : List (List (Stmt σ))}
      (h : Grown (m + 1 + chainCountOf b) todo blocks) :
      Grown m (.chain m :: todo) (b :: chainsOf b ++ blocks)
  | statement {m : Nat} {s : Stmt σ} {here : Position} {todo : List (Stop σ)}
      {blocks : List (List (Stmt σ))} (h : Grown (m + s.chainCount) todo blocks) :
      Grown m (.statement here (s.entry m) :: todo) (s.chains ++ blocks)

namespace Grown

variable {m : Nat} {todo : List (Stop σ)} {blocks : List (List (Stmt σ))}

theorem chain_inv {c : Nat} (h : Grown m (.chain c :: todo) blocks) :
    c = m ∧ ∃ b blocks', blocks = b :: chainsOf b ++ blocks' ∧
      Grown (m + 1 + chainCountOf b) todo blocks' := by
  cases h with
  | block h => exact ⟨rfl, _, _, rfl, h⟩

theorem stops_inv {c first : Nat} {entries : List (Entry σ)}
    (h : Grown m (stops c first entries ++ todo) blocks) :
    ∃ ss blocks', entries = entriesOf m ss ∧ blocks = chainsOf ss ++ blocks' ∧
      Grown (m + chainCountOf ss) todo blocks' := by
  induction entries generalizing m first blocks with
  | nil => exact ⟨[], blocks, rfl, rfl, h⟩
  | cons e entries ih =>
    cases h with
    | @statement _ s _ _ _ h =>
      obtain ⟨ss, blocks', rfl, rfl, hrest⟩ := ih h
      refine ⟨s :: ss, blocks', rfl, by rw [chainsOf, List.append_assoc], ?_⟩
      rw [chainCountOf, ← Nat.add_assoc]
      exact hrest

theorem of_body {here : Position} {c : Nat} {e : Entry σ} {f : List (Stmt σ) → Stmt σ}
    (h : Grown m (.chain c :: todo) blocks) (hentry : ∀ b, (f b).entry c = e)
    (hchains : ∀ b, (f b).chains = b :: chainsOf b)
    (hcount : ∀ b, (f b).chainCount = chainCountOf b + 1) :
    Grown m (.statement here e :: todo) blocks := by
  obtain ⟨rfl, b, blocks', rfl, hrest⟩ := h.chain_inv
  rw [← hentry b, ← hchains b]
  refine statement ?_
  rw [hcount, Nat.add_comm (chainCountOf b), ← Nat.add_assoc]
  exact hrest

/-- A statement grows from the blocks that it names. -/
theorem of_ids {here : Position} {e : Entry σ} (h : Grown m (e.ids.map .chain ++ todo) blocks) :
    Grown m (.statement here e :: todo) blocks := by
  cases e with
  | command span c => exact statement (s := .command span c) h
  | ifThen span e body =>
    exact h.of_body (f := .ifThen span e) (fun _ => rfl) (fun _ => rfl) fun _ => rfl
  | whileLoop span e body =>
    exact h.of_body (f := .whileLoop span e) (fun _ => rfl) (fun _ => rfl) fun _ => rfl
  | forLoop span r body =>
    exact h.of_body (f := .forLoop span r) (fun _ => rfl) (fun _ => rfl) fun _ => rfl
  | ifElse span e body otherwise =>
    obtain ⟨rfl, b, blocks', rfl, hsecond⟩ := h.chain_inv
    obtain ⟨rfl, o, blocks'', rfl, hrest⟩ := hsecond.chain_inv
    have hstatement : Grown body (.statement here (entry body (.ifElse span e b o)) :: todo)
        ((Stmt.ifElse span e b o).chains ++ blocks'') := by
      refine statement ?_
      rw [chainCount, Nat.add_comm (chainCountOf b), Nat.add_comm (chainCountOf o),
        ← Nat.add_assoc, ← Nat.add_assoc, ← Nat.add_assoc]
      exact hrest
    rw [Stmt.chains, List.append_assoc] at hstatement
    exact hstatement

end Grown

/-- A walk that enters chains in the order of their numbers goes through blocks so numbered. -/
theorem Walk.grown {a : Arena σ} {todo : List (Stop σ)} {entered : List Nat}
    {labels : List (String × Position)} (h : a.Walk todo entered labels) {m n : Nat}
    (hentered : entered = List.range' m n) :
    ∃ blocks, Grown m todo blocks ∧ blocks.length = n ∧ a.Stores m blocks := by
  induction h generalizing m n with
  | done =>
    obtain rfl : n = 0 := by simpa using hentered.symm
    exact ⟨[], .nil, rfl, a.stores_nil m⟩
  | chain _ ih =>
    obtain ⟨n, rfl⟩ : ∃ k, n = k + 1 := by
      cases n with
      | zero => cases hentered
      | succ n => exact ⟨n, rfl⟩
    rw [List.range'_succ] at hentered
    obtain ⟨rfl, hentered⟩ := List.cons.inj hentered
    obtain ⟨blocks, hgrown, rfl, hstores⟩ := ih hentered
    obtain ⟨b, blocks', hb, rfl, hrest⟩ := hgrown.stops_inv
    exact ⟨b :: chainsOf b ++ blocks', .block hrest, rfl, stores_cons.mpr ⟨hb, hstores⟩⟩
  | statement _ ih =>
    obtain ⟨blocks, hgrown, hlength, hstores⟩ := ih hentered
    exact ⟨blocks, hgrown.of_ids, hlength, hstores⟩

theorem eq_of_stores {a a' : Arena σ} {blocks : List (List (Stmt σ))} (h : a.Stores 0 blocks)
    (h' : a'.Stores 0 blocks) (hlength : a.chains.length = blocks.length)
    (hlength' : a'.chains.length = blocks.length) : a = a' := by
  obtain ⟨chains⟩ := a
  obtain ⟨chains'⟩ := a'
  congr 1
  refine List.ext_getElem (hlength.trans hlength'.symm) fun i hi hi' => ?_
  have hb : blocks[i]? = some (blocks.get ⟨i, hlength ▸ hi⟩) := List.getElem?_eq_getElem _
  have heq := (h i _ hb).trans (h' i _ hb).symm
  simpa [Arena.chain, hi, hi'] using heq

mutual

theorem statement_unique {a : Arena σ} {next : Nat} (s s' : Stmt σ) (hs : a.Stores next s.chains)
    (hs' : a.Stores next s'.chains) (h : s.entry next = s'.entry next) : s = s' := by
  cases s with
  | command => cases s' <;> cases h; rfl
  | ifThen _ _ body | whileLoop _ _ body | forLoop _ _ body =>
    cases s' <;> cases h
    rw [block_unique body _ hs hs']
  | ifElse _ _ body otherwise =>
    cases s' with
    | ifElse _ _ body' otherwise' =>
      obtain ⟨hbody, hotherwise⟩ := stores_append.mp hs
      obtain ⟨hbody', hotherwise'⟩ := stores_append.mp hs'
      obtain rfl := block_unique body body' hbody hbody'
      obtain rfl := block_unique otherwise otherwise' hotherwise hotherwise'
      cases h
      rfl
    | _ => cases h

theorem block_unique {a : Arena σ} {c : Nat} (b b' : List (Stmt σ))
    (hb : a.Stores c (b :: chainsOf b)) (hb' : a.Stores c (b' :: chainsOf b')) : b = b' := by
  rw [stores_cons] at hb hb'
  exact statements_unique b b' hb.2 hb'.2 (hb.1.symm.trans hb'.1)

theorem statements_unique {a : Arena σ} {next : Nat} (ss ss' : List (Stmt σ))
    (hs : a.Stores next (chainsOf ss)) (hs' : a.Stores next (chainsOf ss'))
    (h : entriesOf next ss = entriesOf next ss') : ss = ss' := by
  cases ss with
  | nil =>
    cases ss' with
    | nil => rfl
    | cons => cases h
  | cons s ss =>
    cases ss' with
    | nil => cases h
    | cons s' ss' =>
      rw [chainsOf, stores_append, length_chains] at hs hs'
      obtain ⟨hentry, hentries⟩ := List.cons.inj h
      obtain rfl := statement_unique s s' hs.1 hs'.1 hentry
      rw [statements_unique ss ss' hs.2 hs'.2 hentries]

end

/-- **Arenas and programs.** An arena is numbered in pre-order exactly if it is the arena of a
program, and then of one only. -/
theorem preordered_iff {a : Arena σ} : a.Preordered ↔ ∃! p : Program σ, p.arena = a := by
  constructor
  · rintro ⟨labels, hwalk⟩
    rw [List.range_eq_range'] at hwalk
    obtain ⟨blocks, hgrown, hlength, hstores⟩ := hwalk.grown rfl
    obtain ⟨-, b, blocks', rfl, hrest⟩ := hgrown.chain_inv
    cases hrest
    rw [List.append_nil] at hlength hstores
    let p : Program σ := ⟨b⟩
    refine ⟨p, eq_of_stores p.stores_arena hstores p.length_arena hlength.symm, ?_⟩
    rintro ⟨ss⟩ rfl
    have hp := Program.stores_arena ⟨ss⟩
    rw [block_unique ss b hp hstores]
  · rintro ⟨p, rfl, -⟩
    exact p.preordered_arena

end Arena

/-! ## The numbering -/

namespace Program

open Stmt

theorem getElem?_entriesOf (next : Nat) (ss : List (Stmt σ)) (i : Nat) :
    (entriesOf next ss)[i]? = ss[i]?.map (entry (next + chainCountOf (ss.take i))) := by
  induction ss generalizing next i with
  | nil => rfl
  | cons s ss ih =>
    cases i with
    | zero => simp [chainCountOf]
    | succ i => simp [ih, chainCountOf, Nat.add_assoc]

/-- The statement at a position, with the numbers of its blocks. -/
theorem entryAt?_arena (p : Program σ) (pos : Position) :
    p.arena.entryAt? pos = (p.statement? pos).map (entry (p.inner pos)) := by
  have hchain : p.arena.chain pos.chain = entriesOf (pos.chain + 1) (p.chain pos.chain) := by
    rw [chain]
    cases hb : p.chains[pos.chain]? with
    | none =>
      have hlength : p.arena.chains.length ≤ pos.chain := by
        rw [length_arena]
        exact List.getElem?_eq_none_iff.mp hb
      rw [Arena.chain, List.getElem?_eq_none hlength]
      rfl
    | some b =>
      have hstored := p.stores_arena _ _ hb
      rw [Nat.zero_add] at hstored
      exact hstored
  rw [Arena.entryAt?, hchain, getElem?_entriesOf]
  rfl

theorem map_chain_ids {p : Program σ} {pos : Position} {s : Stmt σ}
    (h : p.statement? pos = some s) : (s.entry (p.inner pos)).ids.map p.chain = s.blocks := by
  obtain ⟨rest, hsuffix⟩ : ∃ rest, p.suffix pos = s :: rest := by
    rw [statement?, ← List.head?_drop] at h
    exact List.head?_eq_some_iff.mp h
  cases s with
  | command => rfl
  | ifThen _ _ body | whileLoop _ _ body | forLoop _ _ body =>
    exact congrArg (fun b => [b]) (chain_inner_zero hsuffix rfl)
  | ifElse _ _ body otherwise =>
    have hbody := chain_inner_zero hsuffix rfl
    have hotherwise := chain_inner_otherwise hsuffix
    simp [entry, Entry.ids, blocks, hbody, hotherwise]

end Program

end CalcBasic
