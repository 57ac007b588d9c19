import CalcBasic.Proofs.Extents

/-!
# Exact spans of expressions

Every node of an expression that is read carries the extent of the tokens that write it.

1. `Expr.Exact` says which tokens write an expression and that each node carries the extent of its
   own ones; it is what the readers of expressions find (`Expr.reader_exact`).
2. The tokens of the expressions right inside a node are runs of its tokens, so they stand in order
   inside its span (`Expr.Exact.nested`).
-/

namespace CalcBasic

open Reader Stmt

/-! ## Items and closing marks -/

namespace Reader

section Items

variable {α : Type} {E : List (Spanned Token) → Bool → α → Prop} {ts : List (Spanned Token)}
  {last : Bool} {xs : List α}

theorem Items.of_ordered (h : Items (fun us last x => Ordered us → E us last x) ts last xs)
    (hts : Ordered ts) : Items E ts last xs := by
  induction h with
  | one h => exact .one (h hts)
  | more h span _ ih => exact .more (h hts.left) span (ih hts.right.tail)

variable {f : α → Span}

/-- Items end with the last one. -/
theorem Items.endsWith (h : Items E ts last xs)
    (hE : ∀ {us last x}, E us last x → EndsWith us (f x)) (other : Span) :
    EndsWith ts ((xs.getLast?.map f).getD other) := by
  induction h with
  | one h => exact hE h
  | @more us vs _ x xs h span hs ih =>
    obtain ⟨y, ys, rfl⟩ : ∃ y ys, xs = y :: ys := by
      cases hs <;> exact ⟨_, _, rfl⟩
    rw [List.getLast?_cons_cons]
    exact (ih.behind [_]).behind us

/-- The tokens of items are runs of the tokens. -/
theorem Items.runs (h : Items E ts last xs) (hE : ∀ {us last x}, E us last x → Runs us [f x]) :
    Runs ts (xs.map f) := by
  induction h with
  | one h => exact hE h
  | @more us vs _ x xs h span hs ih => exact (hE h).append (ih.behind [_])

end Items

/-- What is closed by a mark that may be missing ends with the mark or without it. -/
theorem close_takes {m : Mark} {ts rest : List (Spanned Token)} {closed : Option Span}
    (h : close m ts = .ok (closed, rest)) :
    ∃ cs, ts = cs ++ rest ∧ Closing m (endsHere ts) (endsHere rest) (nodes cs) ∧
      ∀ us s, EndsWith us s → EndsWith (us ++ cs) (closed.getD s) := by
  obtain ⟨span, rfl, rfl⟩ | ⟨rfl, rfl, hends⟩ := close_cases h
  · refine ⟨[⟨.mark m, span⟩], rfl, .written, fun us s _ => ?_⟩
    exact (endsWith_extent (List.cons_ne_nil _ _)).behind us
  · rw [hends]
    refine ⟨[], rfl, .omitted, fun us s hs => ?_⟩
    rwa [List.append_nil]

end Reader

/-! ## Expressions -/

namespace Expr

mutual

/-- The tokens write the expression, and each of its nodes carries the extent of its tokens. The flag
says whether they stand at the end of a statement. -/
def Exact : Expr Span → List (Spanned Token) → Bool → Prop
  | literal s x, ts, _ => ts = [⟨.number x, s⟩]
  | var s n, ts, _ => ts = [⟨.name n, s⟩]
  | element s n index, ts, last => s = extent ts ∧ ∃ name paren us cs inner,
      ts = ⟨.name n, name⟩ :: ⟨.mark .leftParen, paren⟩ :: (us ++ cs) ∧ index.Exact us inner ∧
        Closing .rightParen inner last (nodes cs)
  | list s items, ts, last => s = extent ts ∧ ∃ brace us cs inner,
      ts = ⟨.mark .leftBrace, brace⟩ :: (us ++ cs) ∧ ExactAll items us inner ∧
        Closing .rightBrace inner last (nodes cs)
  | binary s op left right, ts, last => s = extent ts ∧ ∃ us span vs,
      ts = us ++ ⟨.op op, span⟩ :: vs ∧ left.Exact us false ∧ right.Exact vs last
  | signed s sign operand, ts, last => s = extent ts ∧ ∃ span us,
      ts = ⟨.op sign.op, span⟩ :: us ∧ operand.Exact us last
  | group s e, ts, last => s = extent ts ∧ ∃ paren us cs inner,
      ts = ⟨.mark .leftParen, paren⟩ :: (us ++ cs) ∧ e.Exact us inner ∧
        Closing .rightParen inner last (nodes cs)

/-- The tokens write the expressions with commas between them. -/
def ExactAll : List (Expr Span) → List (Spanned Token) → Bool → Prop
  | [], _, _ => False
  | e :: es, ts, last => (es = [] ∧ e.Exact ts last) ∨ ∃ us span vs,
      ts = us ++ ⟨.mark .comma, span⟩ :: vs ∧ e.Exact us false ∧ ExactAll es vs last

end

variable {e : Expr Span} {es : List (Expr Span)} {ts us : List (Spanned Token)} {last : Bool}

theorem exactAll_of_items (h : Items (fun us last (e : Expr Span) => e.Exact us last) ts last es) :
    ExactAll es ts last := by
  induction h with
  | one h => exact .inl ⟨rfl, h⟩
  | more h span _ ih => exact .inr ⟨_, span, _, rfl, h, ih⟩

theorem Exact.ne_nil (h : e.Exact ts last) : ts ≠ [] := by
  cases e with
  | literal | var =>
    obtain rfl := h
    exact List.cons_ne_nil _ _
  | element =>
    obtain ⟨-, _, _, _, _, _, rfl, -⟩ := h
    exact List.cons_ne_nil _ _
  | list | group =>
    obtain ⟨-, _, _, _, _, rfl, -⟩ := h
    exact List.cons_ne_nil _ _
  | binary =>
    obtain ⟨-, _, _, _, rfl, -⟩ := h
    exact List.append_ne_nil_of_right_ne_nil _ (List.cons_ne_nil _ _)
  | signed =>
    obtain ⟨-, _, _, rfl, -⟩ := h
    exact List.cons_ne_nil _ _

/-- The span of the expression is the extent of its tokens. -/
theorem Exact.span_eq (h : e.Exact ts last) : e.span = extent ts := by
  cases e with
  | literal | var =>
    obtain rfl := h
    rfl
  | element | list | binary | signed | group => exact h.1

/-- An expression ends with its tokens. -/
theorem Exact.endsWith (h : e.Exact ts last) : EndsWith ts e.span :=
  h.span_eq ▸ endsWith_extent h.ne_nil

/-! ### What is read -/

/-- The tokens write the expression exactly, if they stand in order. -/
def Written (ts : List (Spanned Token)) (last : Bool) (e : Expr Span) : Prop :=
  Ordered ts → e.Exact ts last

/-- What it means that a reader for a goal gives exact spans. -/
def Goal.Exact (r : Reader (Expr Span)) : Goal → Prop
  | whole | operand _ => r.Finds Written
  | chain _ left => ∀ before ts e rest, r ts = .ok (e, rest) → Written before (endsHere ts) left →
      ∃ used, ts = used ++ rest ∧ Written (before ++ used) (endsHere rest) e

section Levels

variable {d : Goal → Reader (Expr Span)} (hd : ∀ g : Goal, g.Exact (d g))

include hd

theorem primary_exact : (primary d).Finds Written := by
  intro ts e rest h
  unfold primary at h
  split at h
  case h_1 x span us =>
    cases h
    exact ⟨[⟨.number x, span⟩], rfl, fun _ => rfl⟩
  case h_2 n span us =>
    obtain ⟨found, mid, hindex, hmore⟩ := bind_eq_ok.mp h
    obtain ⟨rfl, rfl⟩ | ⟨e, closed, paren, us, mid, rfl, -, rfl, hwritten, hclosed⟩ :=
      index?_cases (hd .whole) hindex
    · cases hmore
      exact ⟨[⟨.name n, span⟩], rfl, fun _ => rfl⟩
    · cases hmore
      obtain ⟨cs, rfl, hclosing, hends⟩ := close_takes hclosed
      refine ⟨⟨.name n, span⟩ :: ⟨.mark .leftParen, paren⟩ :: (us ++ cs), by simp, fun hts => ?_⟩
      have he := hwritten hts.tail.tail.left
      have hend := (hends us _ he.endsWith).behind [⟨.mark .leftParen, paren⟩]
      exact ⟨merge_first hts hend, span, paren, us, cs, _, rfl, he, hclosing⟩
  case h_3 span us =>
    obtain ⟨inner, mid, hinner, hmore⟩ := bind_eq_ok.mp h
    obtain ⟨us, rfl, hwritten⟩ := hd .whole _ _ _ hinner
    obtain ⟨closed, mid', hclosed, he⟩ := bind_eq_ok.mp hmore
    cases he
    obtain ⟨cs, rfl, hclosing, hends⟩ := close_takes hclosed
    refine ⟨⟨.mark .leftParen, span⟩ :: (us ++ cs), by simp, fun hts => ?_⟩
    have he := hwritten hts.tail.left
    exact ⟨merge_first hts (hends us _ he.endsWith),
      span, us, cs, _, rfl, he, hclosing⟩
  case h_4 span us =>
    obtain ⟨items, mid, hitems, hmore⟩ := bind_eq_ok.mp h
    obtain ⟨us, rfl, hwritten⟩ := separated_items (hd .whole) _ _ _ hitems
    obtain ⟨closed, mid', hclosed, he⟩ := bind_eq_ok.mp hmore
    cases he
    obtain ⟨cs, rfl, hclosing, hends⟩ := close_takes hclosed
    refine ⟨⟨.mark .leftBrace, span⟩ :: (us ++ cs), by simp, fun hts => ?_⟩
    have hitems := hwritten.of_ordered hts.tail.left
    have hend := hitems.endsWith (fun h => h.endsWith) span
    exact ⟨merge_first hts (hends us _ hend), span, us, cs, _, rfl, exactAll_of_items hitems, hclosing⟩
  case h_5 => cases h

theorem chain_exact (l : Level) (left : Expr Span) : (Goal.chain l left).Exact (chain d l left) := by
  intro before ts e rest h hleft
  obtain ⟨op?, mid, hop, hmore⟩ := bind_eq_ok.mp h
  cases op? with
  | none =>
    cases hmore
    obtain ⟨rfl, -⟩ := operator?_eq_none.mp hop
    exact ⟨[], rfl, by simpa using hleft⟩
  | some op =>
    obtain ⟨rfl, span, rfl⟩ := operator?_eq_some.mp hop
    obtain ⟨right, mid', hright, hjoined⟩ := bind_eq_ok.mp hmore
    obtain ⟨us, rfl, hwritten⟩ := hd (.operand op.level) _ _ _ hright
    have hjoin : Written (before ++ ⟨.op op, span⟩ :: us) (endsHere mid') (join left op right) := by
      intro hts
      have hl := hleft hts.left
      have hr := hwritten hts.right.tail
      refine ⟨?_, before, span, us, rfl, hl, hr⟩
      rw [hl.span_eq]
      exact merge_extent hts hl.ne_nil (hr.endsWith.behind [_])
    obtain ⟨used, rfl, he⟩ := hd (.chain op.level (join left op right)) _ _ _ _ hjoined hjoin
    refine ⟨⟨.op op, span⟩ :: (us ++ used), by simp, ?_⟩
    simpa using he

theorem level_exact (l : Level) {operand : Reader (Expr Span)} (h : operand.Finds Written) :
    (operand >>= chain d l).Finds Written := by
  intro ts e rest he
  obtain ⟨left, mid, hleft, hchain⟩ := bind_eq_ok.mp he
  obtain ⟨us, rfl, hwritten⟩ := h _ _ _ hleft
  obtain ⟨used, rfl, hjoined⟩ := chain_exact hd l left _ _ _ _ hchain hwritten
  exact ⟨us ++ used, by simp, hjoined⟩

theorem signs_exact (l : Level) {unsigned : Reader (Expr Span)} (h : unsigned.Finds Written) :
    (signs d l unsigned).Finds Written := by
  intro ts e rest he
  obtain ⟨sign?, mid, hsign, hmore⟩ := bind_eq_ok.mp he
  cases sign? with
  | none =>
    obtain ⟨rfl, -⟩ := sign?_eq_none.mp hsign
    exact h _ _ _ hmore
  | some p =>
    obtain ⟨sign, span⟩ := p
    obtain rfl := sign?_eq_some.mp hsign
    obtain ⟨operand, mid', hoperand, hjoined⟩ := bind_eq_ok.mp hmore
    cases hjoined
    obtain ⟨us, rfl, hwritten⟩ := hd (.operand l) _ _ _ hoperand
    refine ⟨⟨.op sign.op, span⟩ :: us, rfl, fun hts => ?_⟩
    have ho := hwritten hts.tail
    exact ⟨merge_first hts ho.endsWith, span, us, rfl, ho⟩

theorem phrase_exact (ph : Phrase) : (phraseReader d ph).Finds Written :=
  phraseReader_induction (P := fun r => r.Finds Written) (primary_exact hd) (fun l _ h => level_exact hd l h)
    (fun l _ h => signs_exact hd l h) ph

theorem reach_exact (g : Goal) : g.Exact (reach d g) := by
  cases g with
  | whole => exact phrase_exact hd .whole
  | operand l =>
    have h := phrase_exact hd l.operand
    rw [← operand_eq] at h
    exact h
  | chain l left => exact chain_exact hd l left

end Levels

theorem exact_fail (cause : Cause) (g : Goal) : g.Exact (fail cause) := by
  cases g with
  | whole => exact nofun
  | operand l => exact nofun
  | chain l left => exact nofun

theorem read_exact (room : Nat) (g : Goal) : g.Exact (read room g) := by
  induction room generalizing g with
  | zero => exact reach_exact (exact_fail .tooDeep) g
  | succ room ih => exact reach_exact ih g

theorem reader_exact (room : Nat) : (reader room).Finds Written := by
  cases room with
  | zero => exact nofun
  | succ room => exact read_exact room .whole

/-! ### Nodes inside an expression -/

section

variable {σ : Type}

/-- The annotations of the expressions right inside an expression. -/
def parts : Expr σ → List σ
  | literal _ _ | var _ _ => []
  | element _ _ e | signed _ _ e | group _ e => [e.span]
  | list _ items => items.map span
  | binary _ _ left right => [left.span, right.span]

mutual

/-- An expression and all expressions inside it. -/
def subexprs : Expr σ → List (Expr σ)
  | literal s x => [literal s x]
  | var s n => [var s n]
  | element s n index => element s n index :: index.subexprs
  | list s items => list s items :: subexprsAll items
  | binary s op left right => binary s op left right :: (left.subexprs ++ right.subexprs)
  | signed s sign e => signed s sign e :: e.subexprs
  | group s e => group s e :: e.subexprs

/-- Some expressions and all expressions inside them. -/
def subexprsAll : List (Expr σ) → List (Expr σ)
  | [] => []
  | e :: es => e.subexprs ++ subexprsAll es

end

end

theorem Exact.runs (h : e.Exact ts last) : Runs ts [e.span] :=
  h.span_eq ▸ .one h.ne_nil

theorem ExactAll.runs (h : ExactAll es ts last) : Runs ts (es.map span) := by
  induction es generalizing ts with
  | nil => exact h.elim
  | cons e es ih =>
    obtain ⟨rfl, he⟩ | ⟨us, span, vs, rfl, he, hes⟩ := h
    · exact he.runs
    · exact he.runs.append ((ih hes).behind [_])

/-- The expressions right inside an expression are written by runs of its tokens. -/
theorem Exact.runs_parts (h : e.Exact ts last) : Runs ts e.parts := by
  cases e with
  | literal | var => exact .nil
  | element =>
    obtain ⟨-, name, paren, us, cs, inner, rfl, he, -⟩ := h
    exact (he.runs.front cs).behind [_, _]
  | list =>
    obtain ⟨-, brace, us, cs, inner, rfl, hes, -⟩ := h
    exact (hes.runs.front cs).behind [_]
  | binary =>
    obtain ⟨-, us, span, vs, rfl, hl, hr⟩ := h
    exact hl.runs.append (hr.runs.behind [_])
  | signed =>
    obtain ⟨-, span, us, rfl, he⟩ := h
    exact he.runs.behind [_]
  | group =>
    obtain ⟨-, paren, us, cs, inner, rfl, he, -⟩ := h
    exact (he.runs.front cs).behind [_]

theorem Exact.nested_parts (h : e.Exact ts last) (hts : Ordered ts) : Nested e.span e.parts :=
  h.span_eq ▸ h.runs_parts.nested hts h.ne_nil

mutual

/-- All expressions inside an expression hold those right inside them in order. -/
theorem Exact.nested : ∀ {e : Expr Span} {ts : List (Spanned Token)} {last : Bool},
    e.Exact ts last → Ordered ts → ∀ e' ∈ e.subexprs, Nested e'.span e'.parts
  | literal _ _, _, _, h, hts | var _ _, _, _, h, hts =>
    List.forall_mem_singleton.mpr (h.nested_parts hts)
  | element _ _ _, _, _, h, hts => by
    refine List.forall_mem_cons.mpr ⟨h.nested_parts hts, ?_⟩
    obtain ⟨-, name, paren, us, cs, inner, rfl, he, -⟩ := h
    exact he.nested hts.tail.tail.left
  | list _ _, _, _, h, hts => by
    refine List.forall_mem_cons.mpr ⟨h.nested_parts hts, ?_⟩
    obtain ⟨-, brace, us, cs, inner, rfl, hes, -⟩ := h
    exact hes.nested hts.tail.left
  | binary _ _ _ _, _, _, h, hts => by
    refine List.forall_mem_cons.mpr ⟨h.nested_parts hts, ?_⟩
    obtain ⟨-, us, span, vs, rfl, hl, hr⟩ := h
    exact List.forall_mem_append.mpr ⟨hl.nested hts.left, hr.nested hts.right.tail⟩
  | signed _ _ _, _, _, h, hts => by
    refine List.forall_mem_cons.mpr ⟨h.nested_parts hts, ?_⟩
    obtain ⟨-, span, us, rfl, he⟩ := h
    exact he.nested hts.tail
  | group _ _, _, _, h, hts => by
    refine List.forall_mem_cons.mpr ⟨h.nested_parts hts, ?_⟩
    obtain ⟨-, paren, us, cs, inner, rfl, he, -⟩ := h
    exact he.nested hts.tail.left

theorem ExactAll.nested : ∀ {es : List (Expr Span)} {ts : List (Spanned Token)} {last : Bool},
    ExactAll es ts last → Ordered ts → ∀ e' ∈ subexprsAll es, Nested e'.span e'.parts
  | [], _, _, h, _ => h.elim
  | _ :: _, _, _, h, hts => by
    refine List.forall_mem_append.mpr ?_
    obtain ⟨rfl, he⟩ | ⟨us, span, vs, rfl, he, hes⟩ := h
    · exact ⟨he.nested hts, nofun⟩
    · exact ⟨he.nested hts.left, hes.nested hts.right.tail⟩

end

end Expr

end CalcBasic
