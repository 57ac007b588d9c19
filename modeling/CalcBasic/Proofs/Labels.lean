import CalcBasic.Proofs.Arena
import CalcBasic.Proofs.ByteOrder
import CalcBasic.Proofs.StmtReading
import Mathlib.Data.List.Dedup

/-!
# Labels and the text

A label is resolved to the first place in the text where it is defined, at whatever depth
(`resolve?_textual`). The positions of labels come from the numbering of blocks, and their order
from the tree, so both have to be tied to the text.

1. The tokens of a source begin one behind the other (`Token.read_ascending`).
2. The labels of a program, in the order of the tree, are the labels among the tokens
   (`Program.reader_finds`), and each has the position of its statement
   (`Program.labels_located`).
3. The walk through the arena comes to all statements, so no label statement is left out
   (`Program.mem_labels`).
-/

namespace CalcBasic

open Reader Stmt

variable {σ : Type}

/-! ## The order of the tokens -/

/-- The tokens begin one behind the other. -/
def Ascending (ts : List (Spanned Token)) : Prop :=
  ts.Pairwise fun t u => t.span.start < u.span.start

theorem Token.readFrom_ascending {cs : List Char} {skip offset : Nat}
    {tokens ts : List (Spanned Token)} (h : Token.readFrom skip offset tokens cs = .ok ts)
    (htokens : Ascending tokens.reverse) (hoffset : ∀ t ∈ tokens, t.span.start < offset) :
    Ascending ts := by
  induction cs generalizing skip offset tokens with
  | nil =>
    cases h
    exact htokens
  | cons c cs ih =>
    have hnext : offset < offset + c.utf8Size := Nat.lt_add_of_pos_right c.utf8Size_pos
    have hlater : ∀ t ∈ tokens, t.span.start < offset + c.utf8Size :=
      fun t ht => (hoffset t ht).trans hnext
    cases skip with
    | succ n => exact ih h htokens hlater
    | zero =>
      rw [Token.readFrom] at h
      by_cases hc : isSkipped c = true
      · rw [if_pos hc] at h
        exact ih h htokens hlater
      · rw [if_neg hc] at h
        rcases hlexeme : Token.next c cs with slice | ⟨token, lexeme⟩
        · rw [hlexeme] at h
          cases h
        · rw [hlexeme] at h
          refine ih h ?_ (List.forall_mem_cons.mpr ⟨hnext, hlater⟩)
          rw [List.reverse_cons, Ascending, List.pairwise_append]
          refine ⟨htokens, List.pairwise_singleton _ _, fun t ht u hu => ?_⟩
          obtain rfl := List.mem_singleton.mp hu
          exact hoffset t (List.mem_reverse.mp ht)

theorem Token.read_ascending {source : String} {ts : List (Spanned Token)}
    (h : Token.read source = .ok ts) : Ascending ts :=
  Token.readFrom_ascending h List.Pairwise.nil nofun

theorem landmarks_ascending {ts : List (Spanned Token)} (h : Ascending ts) :
    (landmarks ts).Pairwise fun l m => l.2.start < m.2.start := by
  refine h.filterMap landmark? fun t u htu l hl m hm => ?_
  unfold landmark? at hl hm
  split at hl
  · split at hm
    · cases hl
      cases hm
      exact htu
    · cases hm
  · cases hl

/-- The name of the label that a token is. -/
def Token.label? : Token → Option String
  | label n => some n
  | _ => none

theorem map_fst_landmarks (ts : List (Spanned Token)) :
    (landmarks ts).map Prod.fst = (nodes ts).filterMap Token.label? := by
  induction ts with
  | nil => rfl
  | cons t ts ih =>
    obtain ⟨node, span⟩ := t
    rw [landmarks_cons, List.map_append, ih, nodes_cons]
    cases node <;> rfl

/-! ## Where the labels are -/

namespace Arena

/-- The label has the position of a label statement of that name and annotation. -/
def Locates (a : Arena σ) (label : String × Position) (landmark : String × σ) : Prop :=
  label.1 = landmark.1 ∧ a.entryAt? label.2 = some (.command landmark.2 (.label landmark.1))

variable {a : Arena σ}

mutual

theorem labels_locate (s : Stmt σ) {here : Position} {next : Nat} (hs : a.Stores next s.chains)
    (hentry : a.entryAt? here = some (s.entry next)) :
    List.Forall₂ a.Locates (s.labels here next) s.landmarks := by
  cases s with
  | command span c =>
    cases c with
    | label n => exact .cons ⟨rfl, hentry⟩ .nil
    | _ => exact .nil
  | ifThen _ _ body | whileLoop _ _ body | forLoop _ _ body =>
    obtain ⟨hbody, hinner⟩ := stores_cons.mp hs
    exact labelsOf_locate body hinner (List.drop_zero.trans hbody)
  | ifElse _ _ body otherwise =>
    rw [Stmt.chains, List.cons_append, stores_cons, stores_append, stores_cons,
      length_chainsOf] at hs
    obtain ⟨hbody, hinner, hotherwise, hinner'⟩ := hs
    exact List.rel_append (labelsOf_locate body hinner (List.drop_zero.trans hbody))
      (labelsOf_locate otherwise hinner' (List.drop_zero.trans hotherwise))

theorem labelsOf_locate (ss : List (Stmt σ)) {c first next : Nat}
    (hs : a.Stores next (chainsOf ss)) (hentries : (a.chain c).drop first = entriesOf next ss) :
    List.Forall₂ a.Locates (labelsOf ⟨c, first⟩ next ss) (landmarksOf ss) := by
  cases ss with
  | nil => exact .nil
  | cons s rest =>
    rw [chainsOf, stores_append, length_chains] at hs
    have hentry : a.entryAt? ⟨c, first⟩ = some (s.entry next) := by
      rw [entryAt?, ← List.head?_drop, hentries]
      rfl
    have htail : (a.chain c).drop (first + 1) = entriesOf (next + s.chainCount) rest := by
      rw [← List.drop_drop, hentries]
      rfl
    exact List.rel_append (labels_locate s hs.1 hentry) (labelsOf_locate rest hs.2 htail)

end

theorem mem_stops {c i : Nat} {entries : List (Entry σ)} {e : Entry σ}
    (h : entries[i]? = some e) : .statement ⟨c, i⟩ e ∈ stops c 0 entries :=
  List.mem_map.mpr ⟨(e, i), List.mem_zipIdx_iff_getElem?.mpr h, rfl⟩

/-- A walk meets the labels of its stops and of all chains that it enters. -/
theorem Walk.meets {todo : List (Stop σ)} {entered : List Nat}
    {labels : List (String × Position)} (h : a.Walk todo entered labels) :
    (∀ here e, .statement here e ∈ todo → Entry.labels here e ⊆ labels) ∧
      ∀ c ∈ entered, ∀ i e, a.entryAt? ⟨c, i⟩ = some e → e.labels ⟨c, i⟩ ⊆ labels := by
  induction h with
  | done => exact ⟨nofun, nofun⟩
  | chain _ ih =>
    refine ⟨fun here e he => ?_, List.forall_mem_cons.mpr ⟨fun i e he => ?_, ih.2⟩⟩
    · refine ih.1 here e (List.mem_append_right _ ?_)
      simpa using he
    · exact ih.1 _ e (List.mem_append_left _ (mem_stops he))
  | statement _ ih =>
    refine ⟨fun here e he => ?_, fun c hc i e he => ?_⟩
    · rcases List.mem_cons.mp he with heq | he
      · cases heq
        exact List.subset_append_left _ _
      · exact List.Subset.trans (ih.1 here e (List.mem_append_right _ he))
          (List.subset_append_right _ _)
    · exact List.Subset.trans (ih.2 c hc i e he) (List.subset_append_right _ _)

end Arena

namespace Program

/-- The labels of a program have the positions of their statements. -/
theorem labels_located (p : Program σ) : List.Forall₂ p.arena.Locates p.labels p.landmarks := by
  obtain ⟨hblock, hinner⟩ := Arena.stores_cons.mp p.stores_arena
  exact Arena.labelsOf_locate p.statements hinner (List.drop_zero.trans hblock)

theorem entryAt?_eq_command {p : Program σ} {pos : Position} {span : σ} {c : Command σ} :
    p.arena.entryAt? pos = some (.command span c) ↔ p.statement? pos = some (.command span c) := by
  rw [entryAt?_arena]
  cases p.statement? pos with
  | none => simp
  | some s => cases s <;> simp [entry]

/-- No label statement is left out. -/
theorem mem_labels {p : Program σ} {pos : Position} {span : σ} {n : String}
    (h : p.statement? pos = some (.command span (.label n))) : (n, pos) ∈ p.labels := by
  have hentry := entryAt?_eq_command.mpr h
  have hchain : pos.chain ∈ List.range p.arena.chains.length :=
    List.mem_range.mpr (Arena.lt_of_entryAt? hentry)
  exact p.walk_arena.meets.2 _ hchain _ _ hentry List.mem_cons_self

theorem map_fst_labels (p : Program σ) : p.labels.map Prod.fst = p.landmarks.map Prod.fst := by
  have h := p.labels_located
  generalize p.labels = labels at h
  generalize p.landmarks = marks at h
  induction h with
  | nil => rfl
  | cons h _ ih => rw [List.map_cons, List.map_cons, h.1, ih]

/-! ## The first label of a name -/

theorem exists_landmark {a : Arena σ} {labels : List (String × Position)}
    {marks : List (String × σ)} (h : List.Forall₂ a.Locates labels marks) {l : String × Position}
    (hl : l ∈ labels) : ∃ m ∈ marks, a.Locates l m := by
  induction h with
  | nil => cases hl
  | cons h _ ih =>
    rcases List.mem_cons.mp hl with rfl | hl
    · exact ⟨_, List.mem_cons_self, h⟩
    · obtain ⟨m, hm, hlocates⟩ := ih hl
      exact ⟨m, List.mem_cons_of_mem _ hm, hlocates⟩

/-- If the labels stand in ascending order, the first one of a name begins before all others of that
name. -/
theorem lookup_first {a : Arena Span} {labels : List (String × Position)}
    {marks : List (String × Span)} (h : List.Forall₂ a.Locates labels marks)
    (hmarks : marks.Pairwise fun l m => l.2.start < m.2.start) {n : String} {pos : Position}
    (hpos : labels.lookup n = some pos) :
    ∃ span, a.entryAt? pos = some (.command span (.label n)) ∧
      ∀ pos' span', (n, pos') ∈ labels → a.entryAt? pos' = some (.command span' (.label n)) →
        pos' ≠ pos → span.start < span'.start := by
  induction h with
  | nil => cases hpos
  | @cons l m labels marks hlocates hrest ih =>
    obtain ⟨name, here⟩ := l
    obtain ⟨hname, hentry⟩ := hlocates
    obtain ⟨hfirst, hmarks⟩ := List.pairwise_cons.mp hmarks
    by_cases hn : n = name
    · subst hn
      rw [List.lookup_cons_self] at hpos
      cases hpos
      rw [← hname] at hentry
      refine ⟨m.2, hentry, fun pos' span' hmem hentry' hne => ?_⟩
      rcases List.mem_cons.mp hmem with heq | hmem
      · exact absurd (Prod.mk.inj heq).2 hne
      · obtain ⟨m', hm', -, hlocates'⟩ := exists_landmark hrest hmem
        rw [hentry'] at hlocates'
        cases hlocates'
        exact hfirst m' hm'
    · rw [List.lookup_cons, beq_false_of_ne hn] at hpos
      obtain ⟨span, hspan, hleast⟩ := ih hmarks hpos
      refine ⟨span, hspan, fun pos' span' hmem => hleast pos' span' ?_⟩
      rcases List.mem_cons.mp hmem with heq | hmem
      · exact absurd (Prod.mk.inj heq).1 hn
      · exact hmem

/-! ## The names of labels -/

theorem eraseReps_loop_append (names : List String) (a : String) (done : List String) :
    List.eraseRepsBy.loop (· == ·) a names done =
      done.reverse ++ List.eraseRepsBy.loop (· == ·) a names [] := by
  induction names generalizing a done with
  | nil => simp [List.eraseRepsBy.loop]
  | cons b names ih =>
    rw [List.eraseRepsBy.loop, List.eraseRepsBy.loop]
    cases a == b with
    | true => exact ih a done
    | false =>
      dsimp only
      rw [ih b (a :: done), ih b [a]]
      simp

theorem eraseReps_cons_cons (a b : String) (names : List String) :
    (a :: b :: names).eraseReps =
      if a = b then (a :: names).eraseReps else a :: (b :: names).eraseReps := by
  change List.eraseRepsBy.loop (· == ·) a (b :: names) [] = _
  rw [List.eraseRepsBy.loop]
  by_cases h : a = b
  · subst h
    rw [beq_self_eq_true, if_pos rfl]
    rfl
  · rw [if_neg h, beq_false_of_ne h]
    dsimp only
    rw [eraseReps_loop_append]
    rfl

theorem mem_eraseReps_cons (a : String) (names : List String) {x : String} :
    x ∈ (a :: names).eraseReps ↔ x ∈ a :: names := by
  induction names generalizing a with
  | nil => rfl
  | cons b names ih =>
    rw [eraseReps_cons_cons]
    by_cases h : a = b
    · subst h
      rw [if_pos rfl, ih]
      simp
    · rw [if_neg h, List.mem_cons, ih, ← List.mem_cons]

theorem nodup_eraseReps_cons (a : String) (names : List String)
    (h : (a :: names).Pairwise (· ≤ ·)) : (a :: names).eraseReps.Nodup := by
  induction names generalizing a with
  | nil => exact List.nodup_singleton a
  | cons b names ih =>
    obtain ⟨ha, hrest⟩ := List.pairwise_cons.mp h
    rw [eraseReps_cons_cons]
    by_cases hab : a = b
    · subst hab
      rw [if_pos rfl]
      exact ih a hrest
    · rw [if_neg hab]
      refine List.nodup_cons.mpr ⟨fun hmem => hab ?_, ih b hrest⟩
      -- what stands behind `b` is not less than `b`, so `a` cannot be there
      rcases List.mem_cons.mp ((mem_eraseReps_cons b names).mp hmem) with hmem | hmem
      · exact hmem
      · exact String.le_antisymm (ha b List.mem_cons_self) ((List.pairwise_cons.mp hrest).1 a hmem)

/-- The names of a program's labels are listed once each. -/
theorem labelNames_spec (p : Program σ) :
    p.labelNames.Nodup ∧ ∀ n, n ∈ p.labelNames ↔ n ∈ p.labels.map Prod.fst := by
  have hsorted : ((p.labels.map Prod.fst).mergeSort fun a b => decide (a ≤ b)).Pairwise (· ≤ ·) :=
    Text.pairwise_mergeSort id _
  have hmem : ∀ n, n ∈ (p.labels.map Prod.fst).mergeSort (fun a b => decide (a ≤ b)) ↔
      n ∈ p.labels.map Prod.fst := fun n => List.mem_mergeSort
  unfold labelNames
  generalize (p.labels.map Prod.fst).mergeSort (fun a b => decide (a ≤ b)) = names at hsorted hmem
  cases names with
  | nil => exact ⟨List.nodup_nil, hmem⟩
  | cons a names =>
    exact ⟨nodup_eraseReps_cons a names hsorted,
      fun n => (mem_eraseReps_cons a names).trans (hmem n)⟩

/-- **Labels are resolved by the text.** In a program that is read from a source, a label has a
position exactly if a token defines it; the position is that of the label's statement that begins
first in the source, among all at any depth. There are as many names of labels as the tokens
define. -/
theorem resolve?_textual {source : String} {p : Program Span} (h : parse source = .ok p) :
    ∃ ts, Token.read source = .ok ts ∧
      (∀ n, (p.resolve? n).isSome = true ↔ Token.label n ∈ nodes ts) ∧
      (∀ n pos, p.resolve? n = some pos →
        ∃ span, p.statement? pos = some (.command span (.label n)) ∧
          ∀ pos' span', p.statement? pos' = some (.command span' (.label n)) → pos' ≠ pos →
            span.start < span'.start) ∧
      p.labelNames.length = ((nodes ts).filterMap Token.label?).dedup.length := by
  obtain ⟨ts, hts, hread⟩ := ofSource_eq_ok.mp h
  have hmarks := (reader_finds hread).2.landmarks_eq
  have hnames : p.labels.map Prod.fst = (nodes ts).filterMap Token.label? := by
    rw [map_fst_labels, ← hmarks, map_fst_landmarks]
  have hmem : ∀ n, n ∈ p.labels.map Prod.fst ↔ Token.label n ∈ nodes ts := by
    intro n
    rw [hnames, List.mem_filterMap]
    constructor
    · rintro ⟨t, ht, hn⟩
      cases t <;> cases hn
      exact ht
    · exact fun ht => ⟨_, ht, rfl⟩
  refine ⟨ts, hts, fun n => ?_, fun n pos hpos => ?_, ?_⟩
  · rw [← hmem, resolve?, List.lookup_isSome_iff, List.mem_map]
    refine exists_congr fun l => and_congr_right fun _ => ?_
    rw [beq_iff_eq, eq_comm]
  · have hascending := landmarks_ascending (Token.read_ascending hts)
    rw [hmarks] at hascending
    obtain ⟨span, hspan, hleast⟩ := lookup_first p.labels_located hascending hpos
    refine ⟨span, entryAt?_eq_command.mp hspan, fun pos' span' hpos' hne => ?_⟩
    exact hleast pos' span' (mem_labels hpos') (entryAt?_eq_command.mpr hpos') hne
  · obtain ⟨hnodup, hlisted⟩ := p.labelNames_spec
    refine ((List.perm_ext_iff_of_nodup hnodup (List.nodup_dedup _)).mpr fun n => ?_).length_eq
    rw [hlisted, List.mem_dedup, hnames]

/-- A label inside a block comes before one of the same name behind the block. -/
theorem resolve?_inner_label : ∃ p, parse "If A:Lbl B:Lbl B" = .ok p ∧
    p.resolve? "B" = some ⟨1, 0⟩ ∧ ∃ span, p.statement? ⟨1, 0⟩ = some (.command span (.label "B")) ∧
      ∀ pos span', p.statement? pos = some (.command span' (.label "B")) → pos ≠ ⟨1, 0⟩ →
        span.start < span'.start := by
  have hpos : (parse "If A:Lbl B:Lbl B").toOption.bind (resolve? · "B") = some ⟨1, 0⟩ := by
    decide +kernel
  obtain ⟨p, hp, hpos⟩ := Option.bind_eq_some_iff.mp hpos
  have hp : parse "If A:Lbl B:Lbl B" = .ok p := by
    cases h : parse "If A:Lbl B:Lbl B" with
    | error e =>
      rw [h] at hp
      cases hp
    | ok q =>
      rw [h] at hp
      cases hp
      rfl
  obtain ⟨ts, -, -, hfirst, -⟩ := resolve?_textual hp
  exact ⟨p, hp, hpos, hfirst "B" ⟨1, 0⟩ hpos⟩

end Program

end CalcBasic
