import CalcBasic.Proofs.ExactExprs

/-!
# Exact spans

Every node of a program that is read carries the extent of the tokens that write it
(`Program.parse_exact`).

1. `Stmt.HeadExact` says which tokens write the head of a statement. A command is all head; a block
   statement carries the extent of its head and not of its blocks.
2. `Stmt.BodyExact` and `Stmt.ExactAll` put heads and blocks together. They are what the readers of
   statements find (`Stmt.reader_exact`), by the same steps as for expressions.
3. The heads of the statements in pre-order are runs of the tokens (`Stmt.ExactAll.runs`), so they
   stand one behind the other, and the nodes inside a head stand in order inside its span.
-/

namespace CalcBasic

open Reader Stmt

/-! ## Heads of statements -/

section

variable {σ : Type}

/-- The annotations of the nodes right inside a target. -/
def Target.parts : Target σ → List σ
  | whole n => [n.span]
  | element _ n index => [n.span, index.span]

/-- The annotations of the nodes right inside a command. -/
def Command.parts : Command σ → List σ
  | evaluate e => [e.span]
  | display es => es.map Expr.span
  | store e t => e.span :: t.parts
  | prompt ns => ns.map Name.span
  | input _ n => [n.span]
  | label _ | goto _ | stop => []

/-- The bounds of a counting loop and its step, if there is one. -/
def Range.bounds (r : Range σ) : List (Expr σ) := r.start :: r.last :: r.step.toList

/-- The annotations of the nodes right inside the head of a counting loop. -/
def Range.parts (r : Range σ) : List σ := r.counter.span :: r.bounds.map Expr.span

/-- The annotations of the nodes right inside the head of a statement. -/
def Stmt.parts : Stmt σ → List σ
  | .command _ c => c.parts
  | .ifThen _ e _ | .ifElse _ e _ _ | .whileLoop _ e _ => [e.span]
  | .forLoop _ r _ => r.parts

/-- The expressions of a target. -/
def Target.exprs : Target σ → List (Expr σ)
  | whole _ => []
  | element _ _ index => [index]

/-- The expressions of a command. -/
def Command.exprs : Command σ → List (Expr σ)
  | evaluate e => [e]
  | display es => es
  | store e t => e :: t.exprs
  | prompt _ | input _ _ | label _ | goto _ | stop => []

/-- The expressions in the head of a statement. -/
def Stmt.exprs : Stmt σ → List (Expr σ)
  | .command _ c => c.exprs
  | .ifThen _ e _ | .ifElse _ e _ _ | .whileLoop _ e _ => [e]
  | .forLoop _ r _ => r.bounds

end

/-- The token writes the name and stands where the name does. -/
def Name.Exact (ts : List (Spanned Token)) (_ : Bool) (n : Name Span) : Prop :=
  ts = [⟨.name n.text, n.span⟩]

/-- The tokens of some expressions with commas between them. -/
abbrev Expr.ExactItems : List (Spanned Token) → Bool → List (Expr Span) → Prop :=
  Items fun us last e => e.Exact us last

/-- The tokens write the target. The annotation of an element leaves the closing mark out. -/
def Target.Exact : Target Span → List (Spanned Token) → Bool → Prop
  | whole n, ts, last => n.Exact ts last
  | element s n index, ts, last => ∃ name paren us cs inner,
      ts = name :: ⟨.mark .leftParen, paren⟩ :: (us ++ cs) ∧ n.Exact [name] false ∧
        index.Exact us inner ∧ Closing .rightParen inner last (nodes cs) ∧
        s = extent (name :: ⟨.mark .leftParen, paren⟩ :: us)

/-- The tokens write the command, with exact spans. -/
def Command.Exact : Command Span → List (Spanned Token) → Bool → Prop
  | evaluate e, ts, last => e.Exact ts last
  | display es, ts, last => ∃ span us, ts = ⟨.keyword .disp, span⟩ :: us ∧
      ((es = [] ∧ us = [] ∧ last = true) ∨ Expr.ExactItems us last es)
  | store e t, ts, last => ∃ us span vs, ts = us ++ ⟨.mark .store, span⟩ :: vs ∧ e.Exact us false ∧
      t.Exact vs last
  | prompt ns, ts, last => ∃ span us, ts = ⟨.keyword .prompt, span⟩ :: us ∧ Items Name.Exact us last ns
  | input text n, ts, last => ∃ span us vs, ts = ⟨.keyword .input, span⟩ :: (us ++ vs) ∧
      ((text = none ∧ us = []) ∨ ∃ s span' span'', text = some s ∧
        us = [⟨.text s, span'⟩, ⟨.mark .comma, span''⟩]) ∧ n.Exact vs last
  | label n, ts, _ => ∃ span, ts = [⟨.label n, span⟩]
  | goto n, ts, _ => ∃ span, ts = [⟨.goto n, span⟩]
  | stop, ts, _ => ∃ span, ts = [⟨.keyword .stop, span⟩]

/-- The tokens behind the keyword write the head of a counting loop, with exact spans. -/
def Range.Exact (r : Range Span) (ts : List (Spanned Token)) (last : Bool) : Prop :=
  ∃ counter span us cs inner, ts = counter :: ⟨.mark .comma, span⟩ :: (us ++ cs) ∧
    r.counter.Exact [counter] false ∧ Expr.ExactItems us inner r.bounds ∧
      Closing .rightParen inner last (nodes cs)

namespace Stmt

/-- The tokens are a keyword and an expression, and the span is their extent. -/
def Opens (keyword : Keyword) (s : Span) (e : Expr Span) (ts : List (Spanned Token)) (last : Bool) :
    Prop := s = extent ts ∧ ∃ span us, ts = ⟨.keyword keyword, span⟩ :: us ∧ e.Exact us last

/-- The tokens write the head of the statement, with exact spans: a command as a whole, and of a
block statement what stands before its first block. -/
def HeadExact : Stmt Span → List (Spanned Token) → Bool → Prop
  | command s c, ts, last => s = extent ts ∧ c.Exact ts last
  | ifThen s e _, ts, last | ifElse s e _ _, ts, last => Opens .if_ s e ts last
  | whileLoop s e _, ts, last => Opens .while_ s e ts last
  | forLoop s r _, ts, last => s = extent ts ∧ ∃ span us, ts = ⟨.keyword .for_, span⟩ :: us ∧
      r.Exact us last

end Stmt

section

variable {ts us : List (Spanned Token)} {last : Bool} {n : Name Span} {t : Target Span}
  {c : Command Span} {r : Range Span} {e : Expr Span} {es : List (Expr Span)}

theorem Name.Exact.runs (h : n.Exact ts last) : Runs ts [n.span] := by
  obtain rfl := h
  exact .one (List.cons_ne_nil _ _)

theorem Name.Exact.endsWith (h : n.Exact ts last) : EndsWith ts n.span := by
  obtain rfl := h
  exact endsWith_extent (List.cons_ne_nil _ _)

/-- Each of the expressions that stand in order is exact, and so are those inside it. -/
theorem Expr.nested_of_items (h : Expr.ExactItems ts last es) (hts : Ordered ts) :
    ∀ e ∈ es, ∀ e' ∈ e.subexprs, Nested e'.span e'.parts := by
  induction h with
  | one h => exact List.forall_mem_singleton.mpr (h.nested hts)
  | more h span _ ih => exact List.forall_mem_cons.mpr ⟨h.nested hts.left, ih hts.right.tail⟩

theorem Target.Exact.runs_parts (h : t.Exact ts last) : Runs ts t.parts := by
  cases t with
  | whole n =>
    have hn : n.Exact ts last := h
    exact hn.runs
  | element s n index =>
    obtain ⟨name, paren, us, cs, inner, rfl, hn, hindex, -⟩ := h
    exact hn.runs.append ((hindex.runs.front cs).behind [_])

theorem Target.Exact.nested (h : t.Exact ts last) (hts : Ordered ts) :
    ∀ e ∈ t.exprs, ∀ e' ∈ e.subexprs, Nested e'.span e'.parts := by
  cases t with
  | whole n => exact nofun
  | element s n index =>
    obtain ⟨name, paren, us, cs, inner, rfl, -, hindex, -⟩ := h
    exact List.forall_mem_singleton.mpr (hindex.nested hts.tail.tail.left)

theorem Command.Exact.ne_nil (h : c.Exact ts last) : ts ≠ [] := by
  cases c with
  | evaluate e => exact Expr.Exact.ne_nil h
  | display | prompt =>
    obtain ⟨_, _, rfl, -⟩ := h
    exact List.cons_ne_nil _ _
  | input =>
    obtain ⟨_, _, _, rfl, -⟩ := h
    exact List.cons_ne_nil _ _
  | store =>
    obtain ⟨us, _, _, rfl, -⟩ := h
    exact List.append_ne_nil_of_right_ne_nil us (List.cons_ne_nil _ _)
  | label | goto | stop =>
    obtain ⟨_, rfl⟩ := h
    exact List.cons_ne_nil _ _

/-- The nodes right inside a command are written by runs of its tokens. -/
theorem Command.Exact.runs_parts (h : c.Exact ts last) : Runs ts c.parts := by
  cases c with
  | evaluate e => exact Expr.Exact.runs h
  | display es =>
    obtain ⟨span, us, rfl, ⟨rfl, -⟩ | hes⟩ := h
    · exact .nil
    · exact (hes.runs fun h => h.runs).behind [_]
  | store e t =>
    obtain ⟨us, span, vs, rfl, he, ht⟩ := h
    exact he.runs.append (ht.runs_parts.behind [_])
  | prompt ns =>
    obtain ⟨span, us, rfl, hns⟩ := h
    exact (hns.runs fun h => Name.Exact.runs h).behind [_]
  | input text n =>
    obtain ⟨span, us, vs, rfl, -, hn⟩ := h
    exact (hn.runs.behind us).behind [_]
  | label | goto | stop => exact .nil

theorem Command.Exact.nested (h : c.Exact ts last) (hts : Ordered ts) :
    ∀ e ∈ c.exprs, ∀ e' ∈ e.subexprs, Nested e'.span e'.parts := by
  cases c with
  | evaluate e => exact List.forall_mem_singleton.mpr (Expr.Exact.nested h hts)
  | display es =>
    obtain ⟨span, us, rfl, ⟨rfl, -⟩ | hes⟩ := h
    · exact nofun
    · exact Expr.nested_of_items hes hts.tail
  | store e t =>
    obtain ⟨us, span, vs, rfl, he, ht⟩ := h
    exact List.forall_mem_cons.mpr ⟨he.nested hts.left, ht.nested hts.right.tail⟩
  | prompt | input | label | goto | stop => exact nofun

theorem Range.Exact.runs_parts (h : r.Exact ts last) : Runs ts r.parts := by
  obtain ⟨counter, span, us, cs, inner, rfl, hcounter, hbounds, -⟩ := h
  have hruns : Runs us (r.bounds.map Expr.span) := hbounds.runs fun h => h.runs
  exact hcounter.runs.append ((hruns.front cs).behind [_])

theorem Range.Exact.nested (h : r.Exact ts last) (hts : Ordered ts) :
    ∀ e ∈ r.bounds, ∀ e' ∈ e.subexprs, Nested e'.span e'.parts := by
  obtain ⟨counter, span, us, cs, inner, rfl, -, hbounds, -⟩ := h
  exact Expr.nested_of_items hbounds hts.tail.tail.left

namespace Stmt

variable {s : Stmt Span} {span : Span} {keyword : Keyword}

theorem Opens.ne_nil (h : Opens keyword span e ts last) : ts ≠ [] := by
  obtain ⟨-, _, _, rfl, -⟩ := h
  exact List.cons_ne_nil _ _

theorem Opens.runs_parts (h : Opens keyword span e ts last) : Runs ts [e.span] := by
  obtain ⟨-, _, _, rfl, he⟩ := h
  exact he.runs.behind [_]

theorem Opens.nested (h : Opens keyword span e ts last) (hts : Ordered ts) :
    ∀ e' ∈ e.subexprs, Nested e'.span e'.parts := by
  obtain ⟨-, _, _, rfl, he⟩ := h
  exact he.nested hts.tail

/-- The span of a statement is the extent of its head. -/
theorem HeadExact.span_eq (h : s.HeadExact ts last) : s.span = extent ts := by
  cases s <;> exact h.1

theorem HeadExact.ne_nil (h : s.HeadExact ts last) : ts ≠ [] := by
  cases s with
  | command => exact h.2.ne_nil
  | ifThen | ifElse | whileLoop => exact Opens.ne_nil h
  | forLoop =>
    obtain ⟨-, _, _, rfl, -⟩ := h
    exact List.cons_ne_nil _ _

theorem HeadExact.runs (h : s.HeadExact ts last) : Runs ts [s.span] := h.span_eq ▸ .one h.ne_nil

/-- The nodes right inside the head of a statement are written by runs of its tokens. -/
theorem HeadExact.runs_parts (h : s.HeadExact ts last) : Runs ts s.parts := by
  cases s with
  | command => exact h.2.runs_parts
  | ifThen | ifElse | whileLoop => exact Opens.runs_parts h
  | forLoop =>
    obtain ⟨-, _, _, rfl, hr⟩ := h
    exact hr.runs_parts.behind [_]

/-- The nodes of a head: each holds those right inside it in order. -/
theorem HeadExact.nested (h : s.HeadExact ts last) (hts : Ordered ts) :
    Nested s.span s.parts ∧ ∀ e ∈ s.exprs, ∀ e' ∈ e.subexprs, Nested e'.span e'.parts := by
  refine ⟨h.span_eq ▸ h.runs_parts.nested hts h.ne_nil, ?_⟩
  cases s with
  | command => exact h.2.nested hts
  | ifThen | ifElse | whileLoop => exact List.forall_mem_singleton.mpr (Opens.nested h hts)
  | forLoop =>
    obtain ⟨-, _, _, rfl, hr⟩ := h
    exact hr.nested hts.tail

end Stmt

end

/-! ## Statements and blocks -/

/-- Tokens that only separate. -/
def Separators (ts : List (Spanned Token)) : Prop := ∀ t ∈ ts, t.node = .separator

/-- Whether a statement ends before the tokens; the flag is for the end behind them. -/
def stops : List (Spanned Token) → Bool → Bool
  | [], last => last
  | t :: _, _ => t.node = .separator

theorem endsHere_eq_stops (ts rest : List (Spanned Token)) :
    endsHere (ts ++ rest) = stops ts (endsHere rest) := by
  cases ts <;> rfl

namespace Stmt

mutual

/-- The tokens behind the head of a statement write its blocks, with exact spans. -/
def BodyExact : Stmt Span → List (Spanned Token) → Bool → Prop
  | command _ _, ts, _ => ts = []
  | ifThen _ _ body, ts, last =>
    (∃ seps span us stop, ts = seps ++ ⟨.keyword .then_, span⟩ :: (us ++ [⟨.keyword .end_, stop⟩]) ∧
      Separators seps ∧ ExactAll body us false) ∨
    ∃ seps us, ts = seps ++ us ∧ Separators seps ∧ ExactLone body us last
  | ifElse _ _ yes no, ts, _ => ∃ seps span us middle vs stop,
      ts = seps ++ ⟨.keyword .then_, span⟩ :: (us ++ ⟨.keyword .else_, middle⟩ ::
        (vs ++ [⟨.keyword .end_, stop⟩])) ∧
      Separators seps ∧ ExactAll yes us false ∧ ExactAll no vs false
  | whileLoop _ _ body, ts, _ | forLoop _ _ body, ts, _ => ∃ us stop,
      ts = us ++ [⟨.keyword .end_, stop⟩] ∧ ExactAll body us false

/-- The tokens write the statements, with separators before, between and after them. -/
def ExactAll : List (Stmt Span) → List (Spanned Token) → Bool → Prop
  | [], ts, _ => Separators ts
  | s :: ss, ts, last => ∃ seps head body rest, ts = seps ++ (head ++ body ++ rest) ∧
      Separators seps ∧ s.HeadExact head (stops body true) ∧ s.BodyExact body true ∧
      stops rest last = true ∧ ExactAll ss rest last

/-- The tokens write the one statement that a condition guards without `Then`. -/
def ExactLone : List (Stmt Span) → List (Spanned Token) → Bool → Prop
  | [s], ts, last => ∃ head body, ts = head ++ body ∧ s.HeadExact head (stops body last) ∧
      s.BodyExact body last
  | _, _, _ => False

end

/-- The tokens write the statement, with exact spans. -/
def Exact (s : Stmt Span) (ts : List (Spanned Token)) (last : Bool) : Prop :=
  ∃ head body, ts = head ++ body ∧ s.HeadExact head (stops body last) ∧ s.BodyExact body last

/-! ### The order of the statements -/

section

variable {σ : Type}

mutual

/-- A statement, and the statements of its blocks in the order in which they stand in the text. -/
def preorder : Stmt σ → List (Stmt σ)
  | command s c => [command s c]
  | ifThen s e body => ifThen s e body :: preorderAll body
  | ifElse s e yes no => ifElse s e yes no :: (preorderAll yes ++ preorderAll no)
  | whileLoop s e body => whileLoop s e body :: preorderAll body
  | forLoop s r body => forLoop s r body :: preorderAll body

/-- Some statements, each followed by those of its blocks. -/
def preorderAll : List (Stmt σ) → List (Stmt σ)
  | [] => []
  | s :: ss => s.preorder ++ preorderAll ss

end

/-- The statements of the blocks of a statement, in the order in which they stand in the text. -/
def inside (s : Stmt σ) : List (Stmt σ) := s.preorder.drop 1

theorem preorder_eq (s : Stmt σ) : s.preorder = s :: s.inside := by
  cases s <;> rfl

end

mutual

theorem BodyExact.runs : ∀ {s : Stmt Span} {ts : List (Spanned Token)} {last : Bool},
    s.BodyExact ts last → Runs ts (s.inside.map span)
  | command _ _, _, _, _ => .nil
  | ifThen _ _ _, _, _, h => by
    obtain ⟨seps, s, us, stop, rfl, -, h⟩ | ⟨seps, us, rfl, -, h⟩ := h
    · exact ((h.runs.front _).behind [_]).behind seps
    · exact h.runs.behind seps
  | ifElse _ _ _ _, _, _, h => by
    obtain ⟨seps, s, us, middle, vs, stop, rfl, -, hyes, hno⟩ := h
    have hruns := hyes.runs.append ((hno.runs.front [⟨.keyword .end_, stop⟩]).behind
      [⟨.keyword .else_, middle⟩])
    rw [← List.map_append] at hruns
    exact (hruns.behind [_]).behind seps
  | whileLoop _ _ _, _, _, h | forLoop _ _ _, _, _, h => by
    obtain ⟨us, stop, rfl, h⟩ := h
    exact h.runs.front _

/-- The heads of statements in the order in which they stand in the text are runs of the tokens. -/
theorem ExactAll.runs : ∀ {ss : List (Stmt Span)} {ts : List (Spanned Token)} {last : Bool},
    ExactAll ss ts last → Runs ts ((preorderAll ss).map span)
  | [], _, _, _ => .nil
  | s :: _, _, _, h => by
    obtain ⟨seps, head, body, rest, rfl, -, hhead, hbody, -, hrest⟩ := h
    rw [preorderAll, List.map_append, preorder_eq]
    exact ((hhead.runs.append hbody.runs).append hrest.runs).behind seps

theorem ExactLone.runs : ∀ {ss : List (Stmt Span)} {ts : List (Spanned Token)} {last : Bool},
    ExactLone ss ts last → Runs ts ((preorderAll ss).map span)
  | [], _, _, h => h.elim
  | [s], _, _, h => by
    obtain ⟨head, body, rfl, hhead, hbody⟩ := h
    rw [preorderAll, preorderAll, List.append_nil, preorder_eq]
    exact hhead.runs.append hbody.runs
  | _ :: _ :: _, _, _, h => h.elim

end

/-- In the head of the statement each node holds those right inside it in order. -/
def NestedHead (s : Stmt Span) : Prop :=
  Nested s.span s.parts ∧ ∀ e ∈ s.exprs, ∀ e' ∈ e.subexprs, Nested e'.span e'.parts

mutual

theorem BodyExact.nested : ∀ {s : Stmt Span} {ts : List (Spanned Token)} {last : Bool},
    s.BodyExact ts last → Ordered ts → ∀ s' ∈ s.inside, s'.NestedHead
  | command _ _, _, _, _, _ => nofun
  | ifThen _ _ _, _, _, h, hts => by
    obtain ⟨seps, s, us, stop, rfl, -, h⟩ | ⟨seps, us, rfl, -, h⟩ := h
    · exact h.nested hts.right.tail.left
    · exact h.nested hts.right
  | ifElse _ _ _ _, _, _, h, hts => by
    obtain ⟨seps, s, us, middle, vs, stop, rfl, -, hyes, hno⟩ := h
    have hts := hts.right.tail
    exact List.forall_mem_append.mpr ⟨hyes.nested hts.left, hno.nested hts.right.tail.left⟩
  | whileLoop _ _ _, _, _, h, hts | forLoop _ _ _, _, _, h, hts => by
    obtain ⟨us, stop, rfl, h⟩ := h
    exact h.nested hts.left

theorem ExactAll.nested : ∀ {ss : List (Stmt Span)} {ts : List (Spanned Token)} {last : Bool},
    ExactAll ss ts last → Ordered ts → ∀ s ∈ preorderAll ss, s.NestedHead
  | [], _, _, _, _ => nofun
  | s :: _, _, _, h, hts => by
    obtain ⟨seps, head, body, rest, rfl, -, hhead, hbody, -, hrest⟩ := h
    rw [preorderAll, preorder_eq]
    have hs := hts.right.left
    exact List.forall_mem_append.mpr ⟨List.forall_mem_cons.mpr ⟨hhead.nested hs.left,
      hbody.nested hs.right⟩, hrest.nested hts.right.right⟩

theorem ExactLone.nested : ∀ {ss : List (Stmt Span)} {ts : List (Spanned Token)} {last : Bool},
    ExactLone ss ts last → Ordered ts → ∀ s ∈ preorderAll ss, s.NestedHead
  | [], _, _, h, _ => h.elim
  | [s], _, _, h, hts => by
    obtain ⟨head, body, rfl, hhead, hbody⟩ := h
    rw [preorderAll, preorderAll, List.append_nil, preorder_eq]
    exact List.forall_mem_cons.mpr ⟨hhead.nested hts.left, hbody.nested hts.right⟩
  | _ :: _ :: _, _, _, h, _ => h.elim

end

/-! ## What is read -/

/-- The tokens write the statement exactly, if they stand in order. -/
def Written (ts : List (Spanned Token)) (last : Bool) (s : Stmt Span) : Prop :=
  Ordered ts → s.Exact ts last

/-- The tokens write the statements exactly, if they stand in order. -/
def WrittenAll (ts : List (Spanned Token)) (last : Bool) (ss : List (Stmt Span)) : Prop :=
  Ordered ts → ExactAll ss ts last

theorem Exact.command {c : Command Span} {s : Span} {ts : List (Spanned Token)} {last : Bool}
    (hs : s = extent ts) (h : c.Exact ts last) : (Stmt.command s c).Exact ts last :=
  ⟨ts, [], (List.append_nil ts).symm, ⟨hs, h⟩, rfl⟩

theorem targetReader_exact (room : Nat) : (targetReader room).Finds fun used last t =>
    Ordered used → t.1.Exact used last ∧ EndsWith used t.2 := by
  refine nameReader_finds.bind fun n before _ hn => ?_
  subst hn
  intro ts t rest h
  obtain ⟨found, mid, hindex, hmore⟩ := bind_eq_ok.mp h
  obtain ⟨rfl, rfl⟩ | ⟨e, closed, paren, us, mid', rfl, -, rfl, hwritten, hclosed⟩ :=
    Expr.index?_cases (d := fun _ => Expr.reader room) (Expr.reader_exact room) hindex
  · cases hmore
    exact ⟨[], rfl, fun _ => ⟨rfl, endsWith_extent (List.cons_ne_nil _ _)⟩⟩
  · cases hmore
    obtain ⟨cs, rfl, hclosing, hends⟩ := close_takes hclosed
    refine ⟨⟨.mark .leftParen, paren⟩ :: (us ++ cs), by simp, fun hts => ?_⟩
    have he := hwritten hts.tail.tail.left
    refine ⟨⟨_, paren, us, cs, _, rfl, rfl, he, hclosing, ?_⟩, (hends us _ he.endsWith).behind [_, _]⟩
    have hfront : Ordered ([⟨.name n.text, n.span⟩] ++ ⟨.mark .leftParen, paren⟩ :: us) := by
      refine hts.sublist ?_
      simp
    exact merge_first hfront (he.endsWith.behind [_])

theorem valuesReader_exact (room : Nat) : (valuesReader room).Finds fun used last es =>
    (es = [] ∧ used = [] ∧ last = true) ∨ Items Expr.Written used last es := by
  intro ts es rest h
  obtain ⟨ended, mid, hend, hmore⟩ := bind_eq_ok.mp h
  rw [atEnd_eq] at hend
  obtain ⟨rfl, rfl⟩ := Prod.mk.inj (Except.ok.inj hend)
  cases hends : endsHere ts with
  | true =>
    rw [hends] at hmore
    cases hmore
    exact ⟨[], rfl, .inl ⟨rfl, rfl, hends⟩⟩
  | false =>
    rw [hends] at hmore
    obtain ⟨used, hused, hes⟩ := separated_items (Expr.reader_exact room) _ _ _ hmore
    exact ⟨used, hused, .inr hes⟩

/-- The keyword and what ends behind it. -/
theorem spanThrough_eq {t : Spanned Token} {us : List (Spanned Token)} {spans : List Span}
    (hts : Ordered (t :: us)) (h : (spans = [] ∧ us = []) ∨ EndsWith us (spans.getLast?.getD t.span)) :
    spanThrough t.span spans = extent (t :: us) := by
  obtain ⟨rfl, rfl⟩ | h := h
  · simp [spanThrough, Span.merge, extent_singleton]
  · exact merge_first hts h

theorem displayReader_exact (room : Nat) (span : Span) :
    (do
      let values ← valuesReader room
      return .command (spanThrough span (values.map Expr.span)) (.display values) :
        Reader (Stmt Span)).Finds
      fun used last s => Written (⟨.keyword .disp, span⟩ :: used) last s := by
  intro ts s rest h
  obtain ⟨es, mid, hes, hs⟩ := bind_eq_ok.mp h
  cases hs
  obtain ⟨us, rfl, hwritten⟩ := valuesReader_exact room _ _ _ hes
  refine ⟨us, rfl, fun hts => ?_⟩
  obtain ⟨rfl, rfl, hlast⟩ | hitems := hwritten
  · exact .command (spanThrough_eq hts (.inl ⟨rfl, rfl⟩)) ⟨span, [], rfl, .inl ⟨rfl, rfl, hlast⟩⟩
  · have hitems := hitems.of_ordered hts.tail
    have hend := hitems.endsWith (fun h => h.endsWith) span
    rw [← List.getLast?_map] at hend
    exact .command (spanThrough_eq hts (.inr hend)) ⟨span, us, rfl, .inr hitems⟩

theorem promptReader_exact (span : Span) :
    (do
      let names ← separated nameReader
      return .command (spanThrough span (names.map Name.span)) (.prompt names) :
        Reader (Stmt Span)).Finds
      fun used last s => Written (⟨.keyword .prompt, span⟩ :: used) last s := by
  intro ts s rest h
  obtain ⟨ns, mid, hns, hs⟩ := bind_eq_ok.mp h
  cases hs
  obtain ⟨us, rfl, hitems⟩ := separated_items (D := Name.Exact) nameReader_finds _ _ _ hns
  refine ⟨us, rfl, fun hts => ?_⟩
  have hend := hitems.endsWith (fun h => Name.Exact.endsWith h) span
  rw [← List.getLast?_map] at hend
  exact .command (spanThrough_eq hts (.inr hend)) ⟨span, us, rfl, hitems⟩

theorem inputReader_exact (span : Span) :
    (do
      let text ← textReader
      let name ← nameReader
      return .command (span.merge name.span) (.input text name) : Reader (Stmt Span)).Finds
      fun used last s => Written (⟨.keyword .input, span⟩ :: used) last s := by
  refine textReader_finds.bind fun text us _ htext => ?_
  refine nameReader_finds.bind fun n vs _ hn => .pure fun last hts => ?_
  rw [List.append_nil] at hts ⊢
  have hn : n.Exact vs last := hn
  exact .command (merge_first hts (hn.endsWith.behind us)) ⟨span, us, vs, rfl, htext, hn⟩

theorem valueReader_exact (room : Nat) : (valueReader room).Finds Written := by
  intro ts s rest h
  obtain ⟨e, mid, he, hvalue⟩ := bind_eq_ok.mp h
  obtain ⟨us, rfl, hwritten⟩ := Expr.reader_exact room _ _ _ he
  obtain ⟨store, mid', hstore, hmore⟩ := bind_eq_ok.mp hvalue
  cases store with
  | none =>
    cases hmore
    obtain ⟨rfl, -⟩ := eat?_eq_none.mp hstore
    exact ⟨us, rfl, fun hts => .command (hwritten hts).span_eq (hwritten hts)⟩
  | some span =>
    obtain rfl := eat?_eq_some.mp hstore
    obtain ⟨t, mid'', ht, hs⟩ := bind_eq_ok.mp hmore
    cases hs
    obtain ⟨vs, rfl, htarget⟩ := targetReader_exact room _ _ _ ht
    refine ⟨us ++ ⟨.mark .store, span⟩ :: vs, by simp, fun hts => ?_⟩
    have he := hwritten hts.left
    obtain ⟨ht, hends⟩ := htarget hts.right.tail
    refine .command ?_ ⟨us, span, vs, rfl, he, ht⟩
    rw [he.span_eq]
    exact merge_extent hts he.ne_nil (hends.behind [_])

/-- The step is a further item behind the last bound. -/
theorem stepReader_exact {room : Nat} {ts us mid rest : List (Spanned Token)} {e : Expr Span}
    {comma : Option Span} {step : Option (Expr Span)} (heat : eat? (.mark .comma) ts = .ok (comma, mid))
    (hstep : stepReader room comma mid = .ok (step, rest)) (he : Expr.Written us (endsHere ts) e) :
    ∃ vs, ts = vs ++ rest ∧ Items Expr.Written (us ++ vs) (endsHere rest) (e :: step.toList) := by
  cases comma with
  | none =>
    cases hstep
    obtain ⟨rfl, -⟩ := eat?_eq_none.mp heat
    exact ⟨[], rfl, by simpa using .one he⟩
  | some span =>
    obtain rfl := eat?_eq_some.mp heat
    rw [stepReader, map_eq_pure_bind] at hstep
    obtain ⟨e', _, he', hsome⟩ := bind_eq_ok.mp hstep
    cases hsome
    obtain ⟨vs, rfl, hwritten⟩ := Expr.reader_exact room _ _ _ he'
    exact ⟨⟨.mark .comma, span⟩ :: vs, rfl, .more he span (.one hwritten)⟩

theorem rangeReader_exact (room : Nat) : (rangeReader room).Finds fun used last r =>
    Ordered used → r.1.Exact used last ∧ EndsWith used r.2 := by
  intro ts r rest h
  rw [rangeReader_eq] at h
  obtain ⟨counter, _, hcounter, h₁⟩ := bind_eq_ok.mp h
  obtain ⟨_, rfl, rfl⟩ := nameReader_finds _ _ _ hcounter
  obtain ⟨_, _, hcomma, h₂⟩ := bind_eq_ok.mp h₁
  obtain ⟨comma, rfl⟩ := expect_eq_ok.mp hcomma
  obtain ⟨start, _, hstart, h₃⟩ := bind_eq_ok.mp h₂
  obtain ⟨us, rfl, hus⟩ := Expr.reader_exact room _ _ _ hstart
  obtain ⟨_, _, hcomma', h₄⟩ := bind_eq_ok.mp h₃
  obtain ⟨comma', rfl⟩ := expect_eq_ok.mp hcomma'
  obtain ⟨final, _, hfinal, h₅⟩ := bind_eq_ok.mp h₄
  obtain ⟨vs, rfl, hvs⟩ := Expr.reader_exact room _ _ _ hfinal
  obtain ⟨more, _, heat, h₆⟩ := bind_eq_ok.mp h₅
  obtain ⟨step, _, hstep, h₇⟩ := bind_eq_ok.mp h₆
  obtain ⟨ws, rfl, hitems⟩ := stepReader_exact heat hstep hvs
  obtain ⟨closed, _, hclosed, hr⟩ := bind_eq_ok.mp h₇
  cases hr
  obtain ⟨cs, rfl, hclosing, hends⟩ := close_takes hclosed
  refine ⟨⟨.name counter.text, counter.span⟩ :: ⟨.mark .comma, comma⟩ ::
    (us ++ ⟨.mark .comma, comma'⟩ :: (vs ++ ws) ++ cs), by simp, fun hts => ?_⟩
  have hbounds := (Items.more hus comma' hitems).of_ordered hts.tail.tail.left
  refine ⟨⟨_, comma, _, cs, _, rfl, rfl, hbounds, hclosing⟩, ?_⟩
  have hend := hbounds.endsWith (fun h => h.endsWith) final.span
  have hlast : ((start :: final :: step.toList).getLast?.map Expr.span).getD final.span =
      (step.getD final).span := by
    cases step <;> rfl
  rw [hlast] at hend
  exact (hends _ _ hend).behind [_, _]

theorem block_exact {r : Reader (Stmt Span)} (h : r.Finds Written) : (block r).Finds WrittenAll := by
  intro ts
  -- a statement takes at least one token, so the rest of the block is a block of fewer tokens
  induction hn : ts.length using Nat.strong_induction_on generalizing ts with
  | _ n ih =>
    intro ss rest hblock
    obtain ⟨seps, hseps, hseparators⟩ := past_separators ts
    obtain ⟨rfl, rfl⟩ | ⟨s, mid, tail, hs, hends, hlt, htail, rfl⟩ :=
      block_cases (shrinks_of_finds h) hblock
    · exact ⟨seps, hseps, fun _ => hseparators⟩
    · obtain ⟨us, hus, hwritten⟩ := h _ _ _ hs
      obtain ⟨vs, rfl, hrest⟩ := ih _ (hn ▸ hlt) mid rfl tail rest htail
      rw [hus] at hseps
      refine ⟨seps ++ (us ++ vs), by simp [hseps], fun hts => ?_⟩
      rw [hends] at hwritten
      obtain ⟨head, body, rfl, hhead, hbody⟩ := hwritten hts.right.left
      rw [endsHere_eq_stops] at hends
      exact ⟨seps, head, body, vs, rfl, hseparators, hhead, hbody, hends, hrest hts.right.right⟩

section Forms

variable {b : Reader (List (Stmt Span))} {single : Reader (Stmt Span)} (hb : b.Finds WrittenAll)
  (hsingle : single.Finds Written)

include hb

/-- A block and its end. -/
theorem closed_exact (opener : Keyword) (header : Span) (f : List (Stmt Span) → Stmt Span) :
    (do
      let ss ← b
      blockEnd opener header
      return f ss : Reader (Stmt Span)).Finds fun used _ s => ∃ ss us stop, s = f ss ∧
        used = us ++ [⟨.keyword .end_, stop⟩] ∧ WrittenAll us false ss := by
  intro ts s rest h
  obtain ⟨ss, _, hss, h₁⟩ := bind_eq_ok.mp h
  obtain ⟨us, rfl, hus⟩ := hb _ _ _ hss
  obtain ⟨_, _, hend, hs⟩ := bind_eq_ok.mp h₁
  cases hs
  obtain ⟨stop, rfl⟩ := blockEnd_eq_ok hend
  exact ⟨us ++ [⟨.keyword .end_, stop⟩], by simp, ss, us, stop, rfl, rfl, hus⟩

theorem thenPart_exact (header : Span) (e : Expr Span) :
    (thenPart b header e).Finds fun used last s => ∀ seps span, Separators seps →
      Ordered used → s.BodyExact (seps ++ ⟨.keyword .then_, span⟩ :: used) last ∧
        ∀ head f, Opens .if_ header e head f → s.HeadExact head f := by
  intro ts s rest h
  obtain ⟨yes, _, hyes, h₁⟩ := bind_eq_ok.mp h
  obtain ⟨us, rfl, hus⟩ := hb _ _ _ hyes
  obtain ⟨otherwise, _, heat, h₂⟩ := bind_eq_ok.mp h₁
  cases otherwise with
  | none =>
    obtain ⟨rfl, -⟩ := eat?_eq_none.mp heat
    obtain ⟨_, _, hend, hs⟩ := bind_eq_ok.mp h₂
    cases hs
    obtain ⟨stop, rfl⟩ := blockEnd_eq_ok hend
    refine ⟨us ++ [⟨.keyword .end_, stop⟩], by simp, fun seps span hseps hts => ?_⟩
    exact ⟨.inl ⟨seps, span, us, stop, rfl, hseps, hus hts.left⟩, fun head f h => h⟩
  | some middle =>
    obtain rfl := eat?_eq_some.mp heat
    obtain ⟨_, rfl, no, vs, stop, rfl, rfl, hvs⟩ :=
      closed_exact hb .if_ header (.ifElse header e yes) _ _ _ h₂
    refine ⟨us ++ ⟨.keyword .else_, middle⟩ :: (vs ++ [⟨.keyword .end_, stop⟩]), by simp,
      fun seps span hseps hts => ?_⟩
    exact ⟨⟨seps, span, us, middle, vs, stop, rfl, hseps, hus hts.left, hvs hts.right.tail.left⟩,
      fun head f h => h⟩

include hsingle

theorem guarded_exact (header : Span) (e : Expr Span) :
    (guarded b single header e).Finds fun used last s => Ordered used → s.BodyExact used last ∧
      ∀ head f, Opens .if_ header e head f → s.HeadExact head f := by
  intro ts s rest h
  obtain ⟨seps, hseps, hseparators⟩ := past_separators ts
  obtain ⟨t, us, hp, hthen, h⟩ | ⟨s', hs', rfl⟩ := guarded_cases h
  · obtain ⟨used, rfl, hs⟩ := thenPart_exact hb header e _ _ _ h
    obtain ⟨node, span⟩ := t
    obtain rfl : node = .keyword .then_ := hthen
    rw [hp] at hseps
    refine ⟨seps ++ ⟨.keyword .then_, span⟩ :: used, by simp [hseps], fun hts => ?_⟩
    exact hs seps span hseparators hts.right.tail
  · obtain ⟨used, hused, hwritten⟩ := hsingle _ _ _ hs'
    rw [hused] at hseps
    refine ⟨seps ++ used, by simp [hseps], fun hts => ?_⟩
    exact ⟨.inr ⟨seps, used, rfl, hseparators, hwritten hts.right⟩, fun head f h => h⟩

theorem form_exact (room : Nat) : (form room b single).Finds Written := by
  intro ts s rest h
  unfold form at h
  split at h
  case h_1 span us => exact finds_behind h (displayReader_exact room span)
  case h_2 span us => exact finds_behind h (promptReader_exact span)
  case h_3 span us => exact finds_behind h (inputReader_exact span)
  case h_4 span us =>
    obtain ⟨e, _, he, h₁⟩ := bind_eq_ok.mp h
    obtain ⟨us, rfl, hwritten⟩ := Expr.reader_exact room _ _ _ he
    obtain ⟨body, rfl, hbody⟩ := guarded_exact hb hsingle _ e _ _ _ h₁
    refine ⟨⟨.keyword .if_, span⟩ :: us ++ body, by simp, fun hts => ?_⟩
    rw [endsHere_eq_stops] at hwritten
    have he := hwritten hts.left.tail
    obtain ⟨hbody, hhead⟩ := hbody hts.right
    exact ⟨_, body, rfl, hhead _ _ ⟨merge_first hts.left he.endsWith, span, us, rfl, he⟩, hbody⟩
  case h_5 span us =>
    obtain ⟨e, _, he, h₁⟩ := bind_eq_ok.mp h
    obtain ⟨us, rfl, hwritten⟩ := Expr.reader_exact room _ _ _ he
    obtain ⟨body, rfl, ss, vs, stop, rfl, rfl, hvs⟩ :=
      closed_exact hb .while_ _ (.whileLoop _ e) _ _ _ h₁
    refine ⟨⟨.keyword .while_, span⟩ :: us ++ (vs ++ [⟨.keyword .end_, stop⟩]), by simp,
      fun hts => ?_⟩
    rw [endsHere_eq_stops] at hwritten
    have he := hwritten hts.left.tail
    exact ⟨_, _, rfl, ⟨merge_first hts.left he.endsWith, span, us, rfl, he⟩, vs, stop, rfl,
      hvs hts.right.left⟩
  case h_6 span us =>
    obtain ⟨⟨range, final⟩, _, hrange, h₁⟩ := bind_eq_ok.mp h
    obtain ⟨us, rfl, hwritten⟩ := rangeReader_exact room _ _ _ hrange
    obtain ⟨body, rfl, ss, vs, stop, rfl, rfl, hvs⟩ :=
      closed_exact hb .for_ _ (.forLoop _ range) _ _ _ h₁
    refine ⟨⟨.keyword .for_, span⟩ :: us ++ (vs ++ [⟨.keyword .end_, stop⟩]), by simp,
      fun hts => ?_⟩
    rw [endsHere_eq_stops] at hwritten
    obtain ⟨hr, hends⟩ := hwritten hts.left.tail
    exact ⟨_, _, rfl, ⟨merge_first hts.left hends, span, us, rfl, hr⟩, vs, stop, rfl,
      hvs hts.right.left⟩
  case h_7 | h_8 | h_9 =>
    cases h
    exact ⟨[_], rfl, fun _ => .command rfl ⟨_, rfl⟩⟩
  case h_10 => cases h
  case h_11 => exact valueReader_exact room _ _ _ h

end Forms

theorem reader_exact (room : Nat) : (reader room).Finds Written := by
  induction room with
  | zero => exact form_exact finds_fail finds_fail 0
  | succ room ih => exact form_exact (block_exact ih) ih (room + 1)

end Stmt

/-! ## Programs -/

namespace Program

variable {σ : Type}

/-- The tokens write the program, with exact spans. -/
def Exact (p : Program Span) (ts : List (Spanned Token)) : Prop := ExactAll p.statements ts true

/-- All statements of a program, each followed by those of its blocks. -/
def preorder (p : Program σ) : List (Stmt σ) := preorderAll p.statements

end Program

namespace Stmt

variable {σ : Type}

mutual

theorem inside_perm : ∀ s : Stmt σ, s.inside.Perm s.chains.flatten
  | command _ _ => .nil
  | ifThen _ _ body | whileLoop _ _ body | forLoop _ _ body => preorderAll_perm body
  | ifElse _ _ yes no => by
    rw [chains, List.cons_append, List.flatten_cons, List.flatten_append, ← List.append_assoc]
    exact (preorderAll_perm yes).append (preorderAll_perm no)

theorem preorderAll_perm : ∀ ss : List (Stmt σ), (preorderAll ss).Perm (ss ++ (chainsOf ss).flatten)
  | [] => .nil
  | s :: ss => by
    rw [preorderAll, preorder_eq, chainsOf, List.flatten_append]
    refine .cons s (((inside_perm s).append (preorderAll_perm ss)).trans ?_)
    exact List.perm_append_comm_assoc _ _ _

end

end Stmt

namespace Program

theorem preorder_perm (p : Program σ) : p.preorder.Perm p.chains.flatten := preorderAll_perm p.statements

/-- **Spans are exact and nested.** The tokens of the source write the program, and every node carries
the extent of the tokens that write it: a block statement that of its head. Each node holds the ones
right inside it, which stand one behind the other, and so do the heads of all statements in the order
in which they stand in the text. -/
theorem parse_exact {source : String} {p : Program Span} (h : Program.parse source = .ok p) :
    ∃ ts, Token.read source = .ok ts ∧ p.Exact ts ∧ (∀ s ∈ p.preorder, s.NestedHead) ∧
      p.preorder.Perm p.chains.flatten ∧
      p.preorder.Pairwise fun s t => s.span.stop ≤ t.span.start ∧ s.span.start < t.span.start := by
  obtain ⟨ts, hts, hread⟩ := ofSource_eq_ok.mp h
  obtain ⟨ss, mid, hblock, hp⟩ := bind_eq_ok.mp hread
  cases hp
  obtain ⟨used, rfl, hwritten⟩ := block_exact (Stmt.reader_exact maxNesting) _ _ _ hblock
  rw [List.append_nil] at hts
  have hordered := Token.read_ordered hts
  have hexact : ExactAll ss used true := hwritten hordered
  have hnested := hexact.nested hordered
  refine ⟨used, hts, hexact, hnested, preorder_perm _, ?_⟩
  refine (List.pairwise_map.mp (hexact.runs.inOrder hordered)).imp_of_mem fun hs _ hle => ⟨hle, ?_⟩
  exact (hnested _ hs).1.nonempty.trans_le hle

/-- A condition and an index whose closing marks are left out. -/
theorem parse_exact_unclosed : ∃ p, Program.parse "If (A+1\nDisp L1(2:Stop" = .ok p ∧
    p.preorder.map Stmt.span = [⟨0, 7⟩, ⟨8, 17⟩, ⟨18, 22⟩] ∧
    ∃ ts, Token.read "If (A+1\nDisp L1(2:Stop" = .ok ts ∧ p.Exact ts ∧
      (∀ s ∈ p.preorder, s.NestedHead) ∧ p.preorder.Perm p.chains.flatten ∧
      p.preorder.Pairwise fun s t => s.span.stop ≤ t.span.start ∧ s.span.start < t.span.start := by
  have hcheck : (Program.parse "If (A+1\nDisp L1(2:Stop").toOption.any (fun p =>
      decide (p.preorder.map Stmt.span = [⟨0, 7⟩, ⟨8, 17⟩, ⟨18, 22⟩])) = true := by
    decide +kernel
  cases hp : Program.parse "If (A+1\nDisp L1(2:Stop" with
  | error e =>
    rw [hp] at hcheck
    cases hcheck
  | ok p =>
    rw [hp] at hcheck
    exact ⟨p, rfl, of_decide_eq_true hcheck, parse_exact hp⟩

end Program

end CalcBasic
