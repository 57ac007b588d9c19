import CalcBasic.Proofs.ExprNesting

/-!
# The limit on nesting

Statements pass the room for nesting on to their expressions, and one level less to their blocks. So
a source is accepted exactly if it takes at most 1000 levels (`parse_iff_levels_le`).

The height of what is accepted is bounded through the levels only. It can be larger than the limit:
each level of operators counts its own operators, and forgets them where the next level begins
(`tower_accepted`).
-/

namespace CalcBasic

namespace Stmt

open Reader

/-! ## Statements -/

theorem blockFrom_follows {r₁ r₂ : Reader (Stmt Span)} {Q P : Stmt Span → Prop}
    (h : Follows r₁ r₂ Q P) (fuel : Nat) (statements : List (Stmt Span))
    (hs : ∀ s ∈ statements, Q s) :
    Follows (blockFrom r₁ statements fuel) (blockFrom r₂ statements fuel)
      (fun ss => (∀ s ∈ ss, Q s) ∧ ∀ s ∈ statements, s ∈ ss) (fun ss => ∀ s ∈ ss, P s) := by
  have hdone : (∀ s ∈ statements.reverse, Q s) ∧ ∀ s ∈ statements, s ∈ statements.reverse :=
    ⟨fun s hmem => hs s (List.mem_reverse.mp hmem), fun s hmem => List.mem_reverse.mpr hmem⟩
  induction fuel generalizing statements with
  | zero => exact .pure hdone
  | succ fuel ih =>
    refine .bind_same fun _ => .bind_same fun next => ?_
    split
    · exact .pure hdone
    · exact .pure hdone
    · exact .pure hdone
    · refine .bind h fun s hq => .bind_same fun atEnd => ?_
      cases atEnd with
      | false => exact .unexpected
      | true =>
        have hcons : ∀ x ∈ s :: statements, Q x := List.forall_mem_cons.mpr ⟨hq, hs⟩
        refine (ih (s :: statements) hcons ?_).mono ?_ fun _ _ hp => hp
        · exact ⟨fun x hx => hcons x (List.mem_reverse.mp hx), fun x hx => List.mem_reverse.mpr hx⟩
        · rintro ss ⟨hall, hsub⟩
          exact ⟨⟨hall, fun x hx => hsub x (List.mem_cons_of_mem s hx)⟩,
            fun hp => hp s (hsub s List.mem_cons_self)⟩

theorem block_follows {r₁ r₂ : Reader (Stmt Span)} {Q P : Stmt Span → Prop}
    (h : Follows r₁ r₂ Q P) :
    Follows (block r₁) (block r₂) (fun ss => ∀ s ∈ ss, Q s) (fun ss => ∀ s ∈ ss, P s) := by
  refine .bind_same fun ts => (blockFrom_follows h _ [] nofun).mono ?_ fun _ _ hp => hp
  exact fun ss hss => hss.1

theorem targetReader_follows (room₁ room₂ : Nat) :
    Follows (targetReader room₁) (targetReader room₂)
      (fun t => t.1.levels ≤ room₁ ∧ t.1.height ≤ ceiling room₁)
      (fun t => t.1.levels ≤ room₂) := by
  refine .bind_same fun name => ?_
  refine .bind (Expr.index?_follows (Expr.reader_follows _ _) _) fun i hi => ?_
  cases i with
  | none => exact .pure ⟨⟨Nat.zero_le _, Nat.zero_le _⟩, fun _ => nofun⟩
  | some p =>
    have hp := hi p rfl
    refine .pure ⟨hp, fun hfit q hq => ?_⟩
    cases hq
    exact hfit

theorem valuesReader_follows (room₁ room₂ : Nat) :
    Follows (valuesReader room₁) (valuesReader room₂)
      (fun es => ∀ e ∈ es, e.levels ≤ room₁ ∧ e.height < ceiling room₁)
      (fun es => ∀ e ∈ es, e.levels ≤ room₂) := by
  refine .bind_same fun atEnd => ?_
  cases atEnd with
  | true => exact .pure nofun
  | false => exact (Expr.reader_follows _ _).separated.mono (fun _ h => h.2) fun _ _ h => h

theorem valueReader_follows (room₁ room₂ : Nat) :
    Follows (valueReader room₁) (valueReader room₂)
      (fun s => s.levels ≤ room₁ ∧ s.height ≤ ceiling room₁) (fun s => s.levels ≤ room₂) := by
  refine .bind (Expr.reader_follows _ _) fun e he => .bind_same fun store => ?_
  cases store with
  | none => exact .pure ⟨⟨he.1, Nat.le_of_lt he.2⟩, fun hfit => hfit⟩
  | some span =>
    refine .bind (targetReader_follows _ _) fun t ht => .pure ?_
    simp only [levels, height, Command.levels, Command.height, Nat.max_le]
    exact ⟨⟨⟨⟨he.1, ht.1⟩, Nat.le_of_lt he.2, ht.2⟩, fun hfit => hfit.1⟩, fun hfit => hfit.2⟩

theorem rangeReader_follows (room₁ room₂ : Nat) :
    Follows (rangeReader room₁) (rangeReader room₂)
      (fun r => r.1.levels ≤ room₁ ∧ r.1.height ≤ ceiling room₁)
      (fun r => r.1.levels ≤ room₂) := by
  refine .bind_same fun counter => .bind_same fun _ => ?_
  refine .bind (Expr.reader_follows _ _) fun start hstart => .bind_same fun _ => ?_
  refine .bind (Expr.reader_follows _ _) fun last hlast => .bind_same fun comma => ?_
  simp only [Range.levels, Range.height, Nat.max_le]
  obtain ⟨hstart, hstart'⟩ := hstart
  obtain ⟨hlast, hlast'⟩ := hlast
  cases comma with
  | none =>
    simp only [pure_bind]
    refine .bind_same fun closed => .pure ?_
    simp only [Option.map_none, Option.getD_none]
    omega
  | some span =>
    simp only [map_eq_pure_bind, bind_assoc, pure_bind]
    refine .bind (Expr.reader_follows _ _) fun step hstep => .bind_same fun closed => .pure ?_
    obtain ⟨hstep, hstep'⟩ := hstep
    simp only [Option.map_some, Option.getD_some]
    omega

/-- The blocks inside a statement, read with one level less. -/
def BodyFollows (room₁ room₂ : Nat) (b₁ b₂ : Reader (List (Stmt Span))) : Prop :=
  Follows b₁ b₂ (fun ss => levelsAll ss < room₁ ∧ heightAll ss < ceiling room₁)
    (fun ss => levelsAll ss < room₂)

section Forms

variable {room₁ room₂ : Nat} {b₁ b₂ : Reader (List (Stmt Span))} {s₁ s₂ : Reader (Stmt Span)}

theorem guarded_follows (hb : BodyFollows room₁ room₂ b₁ b₂)
    (hs : Follows s₁ s₂ (fun s => s.levels < room₁ ∧ s.height < ceiling room₁)
      (fun s => s.levels < room₂))
    (header : Span) {e : Expr Span} (he : e.levels ≤ room₁ ∧ e.height < ceiling room₁) :
    Follows (guarded b₁ s₁ header e) (guarded b₂ s₂ header e)
      (fun s => (s.levels ≤ room₁ ∧ s.height ≤ ceiling room₁) ∧
        (s.levels ≤ room₂ → e.levels ≤ room₂))
      (fun s => s.levels ≤ room₂) := by
  obtain ⟨he, he'⟩ := he
  refine .bind_same fun _ => .bind_same fun next => ?_
  split
  · refine .bind_same fun _ => .bind hb fun yes hyes => .bind_same fun otherwise => ?_
    obtain ⟨hyes, hyes'⟩ := hyes
    cases otherwise with
    | none =>
      refine .bind_same fun _ => .pure ?_
      simp only [levels, height]
      omega
    | some span =>
      refine .bind hb fun no hno => .bind_same fun _ => .pure ?_
      obtain ⟨hno, hno'⟩ := hno
      simp only [levels, height]
      omega
  · exact .unexpected
  · exact .unexpected
  · exact .unexpected
  · refine .bind hs fun s h => .pure ?_
    obtain ⟨h, h'⟩ := h
    simp only [levels, height, levelsAll, heightAll]
    omega

theorem form_follows (hb : BodyFollows room₁ room₂ b₁ b₂)
    (hs : Follows s₁ s₂ (fun s => s.levels < room₁ ∧ s.height < ceiling room₁)
      (fun s => s.levels < room₂)) :
    Follows (form room₁ b₁ s₁) (form room₂ b₂ s₂)
      (fun s => s.levels ≤ room₁ ∧ s.height ≤ ceiling room₁) (fun s => s.levels ≤ room₂) := by
  intro ts
  unfold form
  split
  case h_1 span rest =>
    refine Follows.bind (valuesReader_follows _ _) (fun es hes => .pure ?_) rest
    simp only [levels, height, Command.levels, Command.height, largest_levels_le,
      Expr.heightAll_le]
    exact ⟨⟨fun e he => (hes e he).1, fun e he => Nat.le_of_lt (hes e he).2⟩, fun hfit => hfit⟩
  case h_2 span rest =>
    exact Follows.bind_same (fun names => .pure ⟨Nat.zero_le _, Nat.zero_le _⟩) rest
  case h_3 span rest =>
    exact Follows.bind_same (fun text => .bind_same fun name =>
      .pure ⟨Nat.zero_le _, Nat.zero_le _⟩) rest
  case h_4 span rest =>
    exact Follows.bind (Expr.reader_follows _ _) (fun e he => guarded_follows hb hs _ he) rest
  case h_5 span rest =>
    refine Follows.bind (Expr.reader_follows _ _) (fun e he => .bind hb fun body hbody =>
      .bind_same fun _ => .pure ?_) rest
    obtain ⟨he, he'⟩ := he
    obtain ⟨hbody, hbody'⟩ := hbody
    simp only [levels, height]
    omega
  case h_6 span rest =>
    refine Follows.bind (rangeReader_follows _ _) (fun r hr => .bind hb fun body hbody =>
      .bind_same fun _ => .pure ?_) rest
    obtain ⟨hr, hr'⟩ := hr
    obtain ⟨hbody, hbody'⟩ := hbody
    simp only [levels, height]
    omega
  case h_7 | h_8 | h_9 =>
    intro s rest' h
    cases h
    exact ⟨⟨Nat.zero_le _, Nat.zero_le _⟩, fun _ => rfl⟩
  case h_10 => exact nofun
  case h_11 => exact valueReader_follows _ _ ts

end Forms

theorem reader_eq_form (room : Nat) :
    reader room = form room (nested (fun m => block (reader m)) room) (nested reader room) := by
  funext ts
  cases room <;> rfl

theorem reader_follows (room₁ room₂ : Nat) :
    Follows (reader room₁) (reader room₂) (fun s => s.levels ≤ room₁ ∧ s.height ≤ ceiling room₁)
      (fun s => s.levels ≤ room₂) := by
  rw [reader_eq_form, reader_eq_form]
  induction room₁ generalizing room₂ with
  | zero => exact form_follows Follows.fail Follows.fail
  | succ room₁ ih =>
    have hsingle : ∀ m₁, room₁ + 1 = m₁ + 1 → ∀ m₂, Follows (reader m₁) (reader m₂)
        (fun s => s.levels ≤ m₁ ∧ s.height ≤ ceiling m₁) (fun s => s.levels ≤ m₂) := by
      rintro m₁ hm₁ m₂
      cases hm₁
      rw [reader_eq_form, reader_eq_form]
      exact ih m₂
    apply form_follows
    · refine (Follows.nested _ room₂ fun m₁ hm₁ m₂ => block_follows (hsingle m₁ hm₁ m₂)).mono ?_ ?_
      · rintro ss ⟨m, hm, hss⟩
        cases hm
        have hlevels : levelsAll ss ≤ room₁ := levelsAll_le.mpr fun s hs => (hss s hs).1
        have hheight : heightAll ss ≤ ceiling room₁ := heightAll_le.mpr fun s hs => (hss s hs).2
        have := ceiling_lt_succ room₁
        omega
      · intro ss _ hss
        exact ⟨room₂ - 1, by omega, levelsAll_le.mp (by omega)⟩
    · refine (Follows.nested _ room₂ hsingle).mono ?_ ?_
      · rintro s ⟨m, hm, hs⟩
        cases hm
        have := ceiling_lt_succ room₁
        omega
      · intro s _ hs
        exact ⟨room₂ - 1, by omega, by omega⟩

end Stmt

/-! ## Sources -/

/-- With a limit, exactly those results come that come under some limit and keep to this one. -/
theorem Reader.ofSource_iff_levels {α : Type} {reader : Nat → Reader α} {levels : α → Nat}
    {Q : Nat → α → Prop} (h : ∀ limit₁ limit₂, Follows (reader limit₁) (reader limit₂) (Q limit₁)
      (fun x => levels x ≤ limit₂))
    (hQ : ∀ limit x, Q limit x → levels x ≤ limit) {leftover : Token → Cause} {source : String}
    {x : α} (limit : Nat) :
    (reader limit).ofSource leftover source = .ok x ↔
      (∃ limit', (reader limit').ofSource leftover source = .ok x) ∧ levels x ≤ limit := by
  constructor
  · intro hx
    exact ⟨⟨limit, hx⟩, hQ limit x ((h limit 0).ofSource hx).1⟩
  · rintro ⟨⟨limit', hx⟩, hlevels⟩
    exact ((h limit' limit).ofSource hx).2 hlevels

/-- The expression that a source consists of, with another limit on nesting. -/
def Expr.parseWithin (limit : Nat) (source : String) : Except SourceError (Expr Span) :=
  (Expr.reader limit).ofSource .leftover source

/-- The program that a source consists of, with another limit on nesting. -/
def Program.parseWithin (limit : Nat) (source : String) : Except SourceError (Program Span) :=
  Reader.ofSource (do return ⟨← Stmt.block (Stmt.reader limit)⟩) .unmatched source

/-- The source is the expression, as long as the limit on nesting is high enough. -/
def Expr.Spells (source : String) (e : Expr Span) : Prop :=
  ∃ limit, Expr.parseWithin limit source = .ok e

/-- The source is the program, as long as the limit on nesting is high enough. -/
def Program.Spells (source : String) (p : Program Span) : Prop :=
  ∃ limit, Program.parseWithin limit source = .ok p

theorem Program.reader_follows (limit₁ limit₂ : Nat) :
    Reader.Follows (do return Program.mk (← Stmt.block (Stmt.reader limit₁)))
      (do return Program.mk (← Stmt.block (Stmt.reader limit₂)))
      (fun p => p.levels ≤ limit₁ ∧ p.height ≤ ceiling limit₁) (fun p => p.levels ≤ limit₂) := by
  refine .bind (Stmt.block_follows (Stmt.reader_follows limit₁ limit₂)) fun ss hss => .pure ?_
  have hlevels : Stmt.levelsAll ss ≤ limit₁ := Stmt.levelsAll_le.mpr fun s hs => (hss s hs).1
  have hheight : Stmt.heightAll ss ≤ ceiling limit₁ :=
    Stmt.heightAll_le.mpr fun s hs => (hss s hs).2
  exact ⟨⟨hlevels, hheight⟩, fun hfit => Stmt.levelsAll_le.mp hfit⟩

theorem Program.parse_iff_spells (source : String) (p : Program Span) :
    Program.parse source = .ok p ↔ Program.Spells source p ∧ p.levels ≤ maxNesting :=
  Reader.ofSource_iff_levels Program.reader_follows (fun _ _ h => h.1) maxNesting

theorem Expr.parse_iff_spells (source : String) (e : Expr Span) :
    Expr.parse source = .ok e ↔ Expr.Spells source e ∧ e.levels ≤ maxNesting :=
  Reader.ofSource_iff_levels Expr.reader_follows (fun _ _ h => h.1) maxNesting

/-- Where a limit on the levels limits the height. -/
theorem height_le_iff {α : Type} {accepted spelled : α → Prop} {levels height : α → Nat}
    {limit : Nat}
    (h : ∀ x, accepted x ↔ spelled x ∧ levels x ≤ limit) :
    (∀ x, accepted x → height x ≤ limit) ↔
      ∀ x, spelled x → limit < height x → limit < levels x := by
  constructor
  · intro hlow x hx hhigh
    by_contra hlevels
    have := hlow x ((h x).mpr ⟨hx, by omega⟩)
    omega
  · intro hlevels x hx
    obtain ⟨hspelled, hle⟩ := (h x).mp hx
    by_contra hhigh
    have := hlevels x hspelled (by omega)
    omega

/-- **The limit bounds the levels.** A source is accepted exactly if it is a program that takes at
most `maxNesting` levels, and likewise for expressions. So what is accepted is never higher than
`maxNesting` exactly if whatever is higher takes too many levels, too; in any case the height stays
below a ceiling that is a square. -/
theorem parse_iff_levels_le (source : String) :
    (∀ p, Program.parse source = .ok p ↔ Program.Spells source p ∧ p.levels ≤ maxNesting) ∧
    (∀ e, Expr.parse source = .ok e ↔ Expr.Spells source e ∧ e.levels ≤ maxNesting) ∧
    ((∀ p, Program.parse source = .ok p → p.height ≤ maxNesting) ↔
      ∀ p, Program.Spells source p → maxNesting < p.height → maxNesting < p.levels) ∧
    ((∀ e, Expr.parse source = .ok e → e.height ≤ maxNesting) ↔
      ∀ e, Expr.Spells source e → maxNesting < e.height → maxNesting < e.levels) ∧
    (∀ p, Program.parse source = .ok p → p.height ≤ ceiling maxNesting) ∧
    (∀ e, Expr.parse source = .ok e → e.height < ceiling maxNesting) := by
  have hprogram := Program.parse_iff_spells source
  have hexpr := Expr.parse_iff_spells source
  refine ⟨hprogram, hexpr, height_le_iff hprogram, height_le_iff hexpr, ?_, ?_⟩
  · intro p hp
    exact ((Program.reader_follows maxNesting 0).ofSource hp).1.2
  · intro e he
    exact ((Expr.reader_follows maxNesting 0).ofSource he).1.2

/-! ## A line that is higher than the limit -/

/-- So many open parentheses, and after them a power, a product and a sum, each the left operand of
the next. The three operators share one level. -/
def tower (n : Nat) : String := String.ofList (List.replicate n '(' ++ "A^A*A+A".toList)

/-- The tokens of a tower. -/
def towerTokens (n : Nat) : List Token :=
  List.replicate n (.mark .leftParen) ++
    [.name "A", .op .pow, .name "A", .op .mul, .name "A", .op .add, .name "A"]

theorem readFrom_tower (n offset : Nat) (tokens : List (Spanned Token)) :
    ∃ ts, Token.readFrom 0 offset tokens (List.replicate n '(' ++ "A^A*A+A".toList) =
      .ok (tokens.reverse ++ ts) ∧ ts.map (·.node) = towerTokens n := by
  induction n generalizing offset tokens with
  | zero =>
    obtain ⟨a, b, c, d, e, f, g, h⟩ : ∃ a b c d e f g,
        Token.readFrom 0 offset tokens "A^A*A+A".toList =
          .ok (⟨.name "A", g⟩ :: ⟨.op .add, f⟩ :: ⟨.name "A", e⟩ :: ⟨.op .mul, d⟩ ::
            ⟨.name "A", c⟩ :: ⟨.op .pow, b⟩ :: ⟨.name "A", a⟩ :: tokens).reverse :=
      ⟨_, _, _, _, _, _, _, rfl⟩
    refine ⟨[⟨.name "A", a⟩, ⟨.op .pow, b⟩, ⟨.name "A", c⟩, ⟨.op .mul, d⟩, ⟨.name "A", e⟩,
      ⟨.op .add, f⟩, ⟨.name "A", g⟩], ?_, rfl⟩
    rw [List.replicate_zero, List.nil_append, h]
    simp
  | succ n ih =>
    let paren : Spanned Token := ⟨.mark .leftParen, ⟨offset, offset + byteLength ['(']⟩⟩
    obtain ⟨ts, hts, hnodes⟩ := ih (offset + '('.utf8Size) (paren :: tokens)
    refine ⟨paren :: ts, ?_, ?_⟩
    · rw [List.reverse_cons, List.append_assoc] at hts
      exact hts
    · rw [List.map_cons, hnodes]
      rfl

/-- A chain of operators ends with the tokens. -/
theorem Expr.chained_nil {d : Goal → Reader (Expr Span)} {r : Reader (Expr Span)} (level : Level)
    {ts : List (Spanned Token)} {e : Expr Span} (h : r ts = .ok (e, [])) :
    (r >>= chain d level) ts = .ok (e, []) := by
  rw [Reader.bind_apply, h]
  rfl

theorem Expr.disjunction_group {d : Goal → Reader (Expr Span)} {ts : List (Spanned Token)}
    {e : Expr Span} (span : Span) (h : d .whole ts = .ok (e, [])) :
    disjunction d (⟨.mark .leftParen, span⟩ :: ts) = .ok (.group (span.merge e.span) e, []) := by
  have hprimary : primary d (⟨.mark .leftParen, span⟩ :: ts) =
      .ok (.group (span.merge e.span) e, []) := by
    change (d .whole >>= _) ts = _
    rw [Reader.bind_apply, h]
    rfl
  have hfactor : factor d (⟨.mark .leftParen, span⟩ :: ts) =
      .ok (.group (span.merge e.span) e, []) := chained_nil .power hprimary
  have hsum := chained_nil (d := d) .sum (chained_nil (d := d) .product hfactor)
  exact chained_nil .disjunction (chained_nil .conjunction (chained_nil .comparison hsum))

theorem Expr.read_tower (n room : Nat) (ts : List (Spanned Token))
    (hts : ts.map (·.node) = towerTokens n) (hroom : n < room) :
    ∃ e, read room .whole ts = .ok (e, []) ∧ e.height = n + 3 := by
  obtain ⟨r, rfl⟩ : ∃ r, room = r + 1 := ⟨room - 1, by omega⟩
  induction n generalizing r ts with
  | zero =>
    match ts, hts with
    | [⟨_, _⟩, ⟨_, _⟩, ⟨_, _⟩, ⟨_, _⟩, ⟨_, _⟩, ⟨_, _⟩, ⟨_, _⟩], hts =>
      cases hts
      cases r with
      | zero => exact ⟨_, rfl, rfl⟩
      | succ r => exact ⟨_, rfl, rfl⟩
  | succ n ih =>
    match ts, hts with
    | ⟨_, span⟩ :: ts, hts =>
      obtain ⟨h, hnodes⟩ := List.cons.inj hts
      cases h
      obtain ⟨m, rfl⟩ : ∃ m, r = m + 1 := ⟨r - 1, by omega⟩
      obtain ⟨e, he, hheight⟩ := ih ts hnodes m (by omega)
      refine ⟨.group (span.merge e.span) e, disjunction_group span he, ?_⟩
      rw [height, hheight]

/-- A program that is one expression in parentheses. -/
theorem Program.reader_lone {span : Span} {ts : List (Spanned Token)} {e : Expr Span}
    (h : Expr.reader maxNesting (⟨.mark .leftParen, span⟩ :: ts) = .ok (e, [])) :
    Program.reader (⟨.mark .leftParen, span⟩ :: ts) =
      .ok (⟨[.command e.span (.evaluate e)]⟩, []) := by
  have hvalue : Stmt.reader maxNesting (⟨.mark .leftParen, span⟩ :: ts) =
      .ok (.command e.span (.evaluate e), []) := by
    change (Expr.reader maxNesting >>= _) _ = _
    rw [Reader.bind_apply, h]
    rfl
  have hend : ∀ fuel, Stmt.blockFrom (Stmt.reader maxNesting) [.command e.span (.evaluate e)]
      (fuel + 1) [] = .ok ([.command e.span (.evaluate e)], []) := fun _ => rfl
  have hblock : ∀ fuel, Stmt.blockFrom (Stmt.reader maxNesting) [] (fuel + 2)
      (⟨.mark .leftParen, span⟩ :: ts) = .ok ([.command e.span (.evaluate e)], []) := by
    intro fuel
    rw [Stmt.blockFrom]
    simp [Reader.bind_apply, Reader.skipSeparators, Reader.peek, Reader.atEnd, hvalue, hend]
  unfold Program.reader Stmt.block
  simp [Reader.bind_apply, hblock]

/-- A tower of `maxNesting - 2` parentheses is accepted, as a line and as a program, and it is higher
than `maxNesting`. -/
theorem tower_accepted :
    (∃ e, Expr.parse (tower 998) = .ok e ∧ maxNesting < e.height) ∧
      ∃ p, Program.parse (tower 998) = .ok p ∧ maxNesting < p.height := by
  obtain ⟨ts, hread, hnodes⟩ := readFrom_tower 998 0 []
  have hread : Token.read (tower 998) = .ok ts := by
    rw [Token.read, tower, String.toList_ofList]
    exact hread
  obtain ⟨e, he, hheight⟩ := Expr.read_tower 998 999 ts hnodes (by decide)
  have hhigh : maxNesting < e.height := by
    rw [hheight]
    decide
  match ts, hnodes with
  | ⟨_, span⟩ :: ts, hnodes =>
    obtain ⟨h, -⟩ := List.cons.inj hnodes
    cases h
    have hprogram := Program.reader_lone he
    refine ⟨⟨e, Reader.ofSource_eq_ok.mpr ⟨_, hread, he⟩, hhigh⟩,
      ⟨_, Reader.ofSource_eq_ok.mpr ⟨_, hread, hprogram⟩, ?_⟩⟩
    change maxNesting < max e.height 0
    omega

end CalcBasic
