import CalcBasic.Proofs.NestingLimit
import CalcBasic.Proofs.Rendering

/-!
# Reading statements

What the readers of statements take from the tokens is what they make of it. The tokens that are
taken have the content of the rendered statement, the labels among them stand at the places that the
statement carries (`Holds`), and the statement is shaped. Each reader is treated once, along its own
steps (`Reader.Finds.bind`); blocks go by induction on the number of tokens (`Stmt.block_finds`),
and statements by induction on the room for nesting (`Stmt.reader_finds`).
-/

namespace CalcBasic

open Reader

variable {σ : Type}

/-! ## Labels and their places -/

/-- The label that a token is, with its place. -/
def landmark? (t : Spanned Token) : Option (String × Span) :=
  match t.node with
  | .label n => some (n, t.span)
  | _ => none

/-- The labels among some tokens, with their places. -/
def landmarks (ts : List (Spanned Token)) : List (String × Span) := ts.filterMap landmark?

@[simp] theorem landmarks_nil : landmarks [] = [] := rfl

@[simp] theorem landmarks_append (ts us : List (Spanned Token)) :
    landmarks (ts ++ us) = landmarks ts ++ landmarks us := List.filterMap_append

theorem landmarks_cons (t : Spanned Token) (ts : List (Spanned Token)) :
    landmarks (t :: ts) = (landmark? t).toList ++ landmarks ts := by
  rw [landmarks, landmarks, List.filterMap_cons]
  cases landmark? t <;> rfl

theorem landmarks_eq_nil {ts : List (Spanned Token)} (h : ∀ n, Token.label n ∉ nodes ts) :
    landmarks ts = [] := by
  refine List.filterMap_eq_nil_iff.mpr fun t ht => ?_
  unfold landmark?
  split
  · rename_i n hn
    exact absurd (List.mem_map.mpr ⟨t, ht, hn⟩) (h n)
  · rfl

namespace Stmt

mutual

/-- The labels of a statement with their annotations, in textual order. -/
def landmarks : Stmt σ → List (String × σ)
  | command span (.label n) => [(n, span)]
  | command _ _ => []
  | ifThen _ _ body | whileLoop _ _ body | forLoop _ _ body => landmarksOf body
  | ifElse _ _ body otherwise => landmarksOf body ++ landmarksOf otherwise

/-- The labels of some statements with their annotations, in textual order. -/
def landmarksOf : List (Stmt σ) → List (String × σ)
  | [] => []
  | s :: rest => s.landmarks ++ landmarksOf rest

end

end Stmt

theorem Closing.label_notMem {m : Mark} {inner last : Bool} {cs : List Token}
    (h : Closing m inner last cs) (n : String) : Token.label n ∉ cs := by
  cases h <;> simp

theorem Phrase.Derives.label_notMem {ph : Phrase} {ts : List Token} {last : Bool} {e : Expr Unit}
    (h : ph.Derives ts last e) (n : String) : Token.label n ∉ ts := by
  induction h with
  | first _ ih | plainFactor _ ih | plainExponent _ ih => exact ih
  | operation _ _ ihl ihr => simp [ihl, ihr]
  | signedFactor _ _ ih | signedExponent _ _ ih => simp [ih]
  | number | name => simp
  | element _ _ hc ih | group _ hc ih => simp [ih, hc.label_notMem]
  | list _ _ hc ihs ih =>
    simp only [List.mem_cons, List.mem_append, List.mem_flatMap, reduceCtorEq, false_or, not_or,
      not_exists, not_and, ih, hc.label_notMem, not_false_eq_true, and_true]
    exact fun i hi => ⟨ihs i hi, List.not_mem_nil⟩

theorem Separated.label_notMem {α : Type} {item : List Token → Bool → α → Prop} {ts : List Token}
    {last : Bool} {xs : List α} (h : Separated item ts last xs) (n : String)
    (hi : ∀ ts last x, item ts last x → Token.label n ∉ ts) : Token.label n ∉ ts := by
  induction h with
  | one hx => exact hi _ _ _ hx
  | more hx _ ih => simp [hi _ _ _ hx, ih]

theorem Separated.exists_item {α : Type} {item : List Token → Bool → α → Prop} {ts : List Token}
    {last : Bool} {xs : List α} (h : Separated item ts last xs) :
    xs ≠ [] ∧ ∀ x ∈ xs, ∃ ts last, item ts last x := by
  induction h with
  | one hx => exact ⟨List.cons_ne_nil _ _, List.forall_mem_singleton.mpr ⟨_, _, hx⟩⟩
  | more hx _ ih => exact ⟨List.cons_ne_nil _ _, List.forall_mem_cons.mpr ⟨⟨_, _, hx⟩, ih.2⟩⟩

/-! ## What is taken -/

/-- The tokens have the content of the rendered ones, and these labels at these places. -/
structure Holds (used : List (Spanned Token)) (rendered : List Token)
    (marks : List (String × Span)) : Prop where
  content_eq : content (nodes used) = content rendered
  landmarks_eq : CalcBasic.landmarks used = marks

namespace Reader

variable {α β : Type} {D : List (Spanned Token) → Bool → α → Prop}
  {E : List (Spanned Token) → Bool → β → Prop}

theorem Finds.pure {x : α} (h : ∀ last, D [] last x) : Finds (pure x) D := by
  intro ts y rest hy
  cases hy
  exact ⟨[], rfl, h _⟩

theorem finds_fail {cause : Cause} : (fail cause : Reader α).Finds D := nofun

theorem Finds.bind {r : Reader α} {f : α → Reader β} (h : r.Finds D)
    (hf : ∀ x before last, D before last x → (f x).Finds fun used last' y =>
      E (before ++ used) last' y) : (r >>= f).Finds E := by
  intro ts y rest hy
  obtain ⟨x, mid, hx, hmore⟩ := bind_eq_ok.mp hy
  obtain ⟨used, rfl, hD⟩ := h _ _ _ hx
  obtain ⟨used', rfl, hE⟩ := hf x used _ hD _ _ _ hmore
  exact ⟨used ++ used', (List.append_assoc _ _ _).symm, hE⟩

/-- What is found behind a token that is taken first. -/
theorem finds_behind {r : Reader α} {t : Spanned Token} {rest rest' : List (Spanned Token)} {x : α}
    (hx : r rest = .ok (x, rest')) (h : r.Finds fun used last x => D (t :: used) last x) :
    ∃ used, t :: rest = used ++ rest' ∧ D used (Stmt.endsHere rest') x := by
  obtain ⟨used, rfl, hD⟩ := h _ _ _ hx
  exact ⟨t :: used, rfl, hD⟩

theorem eat?_finds (t : Token) : (eat? t).Finds fun used _ found =>
    (found = none ∧ used = []) ∨ ∃ span, found = some span ∧ used = [⟨t, span⟩] := by
  intro ts found rest h
  cases found with
  | none =>
    obtain ⟨rfl, -⟩ := eat?_eq_none.mp h
    exact ⟨[], rfl, .inl ⟨rfl, rfl⟩⟩
  | some span =>
    obtain rfl := eat?_eq_some.mp h
    exact ⟨[⟨t, span⟩], rfl, .inr ⟨span, rfl, rfl⟩⟩

theorem expect_finds (m : Mark) :
    (expect m).Finds fun used _ _ => ∃ span, used = [⟨.mark m, span⟩] := by
  intro ts _ rest h
  obtain ⟨span, rfl⟩ := expect_eq_ok.mp h
  exact ⟨[⟨.mark m, span⟩], rfl, span, rfl⟩

theorem close_holds {m : Mark} (hm : (Token.mark m).isLayout = true) :
    (close m).Finds fun used _ _ => Holds used [] [] := by
  intro ts _ rest h
  obtain ⟨used, rfl, hclosing⟩ := close_finds h
  exact ⟨used, rfl, hclosing.content_eq hm, landmarks_eq_nil hclosing.label_notMem⟩

end Reader

namespace Expr

theorem reader_holds (room : Nat) :
    (reader room).Finds fun used _ e => e.Shaped .whole ∧ Holds used e.render [] := by
  intro ts e rest h
  obtain ⟨used, rfl, hderives⟩ := reader_finds room _ _ _ h
  have hcontent := hderives.content_eq
  rw [render_bare] at hcontent
  exact ⟨used, rfl, (shaped_bare e _).mp hderives.shaped, hcontent,
    landmarks_eq_nil hderives.label_notMem⟩

end Expr

namespace Stmt

/-! ## Commands -/

theorem nameReader_finds :
    nameReader.Finds fun used _ n => used = [⟨.name n.text, n.span⟩] := by
  intro ts n rest h
  unfold nameReader at h
  split at h
  · cases h
    exact ⟨_, rfl, rfl⟩
  · cases h

theorem targetReader_finds (room : Nat) : (targetReader room).Finds fun used _ t =>
    t.1.Shaped ∧ Holds used t.1.render [] := by
  refine nameReader_finds.bind fun n before _ hn => ?_
  subst hn
  intro ts t rest h
  obtain ⟨index?, mid, hindex, hmore⟩ := bind_eq_ok.mp h
  have hwhole : Expr.Goal.whole.Sound (Expr.reader room) := Expr.reader_finds room
  obtain ⟨rfl, rfl⟩ | ⟨p, paren, used, cs, inner, rfl, hn, rfl, hderives, hclosing⟩ :=
    Expr.index?_finds (d := fun _ => Expr.reader room) hwhole hindex
  · cases hmore
    exact ⟨[], rfl, trivial, rfl, rfl⟩
  · cases hmore
    refine ⟨⟨.mark .leftParen, paren⟩ :: (used ++ cs), by simp, ⟨hn, ?_⟩, ?_, ?_⟩
    · exact (Expr.shaped_bare p.1 _).mp hderives.shaped
    · have hcontent := hderives.content_eq
      rw [Expr.render_bare] at hcontent
      simp [Target.render, content_cons, Token.isLayout, hcontent, hclosing.content_eq rfl]
    · refine landmarks_eq_nil fun n => ?_
      simp [hderives.label_notMem, hclosing.label_notMem]

theorem valuesReader_finds (room : Nat) : (valuesReader room).Finds fun used _ es =>
    (∀ e ∈ es, e.Shaped .whole) ∧ Holds used (commas (es.map Expr.render)) [] := by
  intro ts es rest h
  obtain ⟨ended, mid, hend, hmore⟩ := bind_eq_ok.mp h
  rw [atEnd_eq] at hend
  obtain ⟨rfl, rfl⟩ := Prod.mk.inj (Except.ok.inj hend)
  cases hends : endsHere ts with
  | true =>
    rw [hends] at hmore
    cases hmore
    exact ⟨[], rfl, nofun, rfl, rfl⟩
  | false =>
    rw [hends] at hmore
    obtain ⟨used, rfl, hes⟩ := separated_finds
      (D := fun ts last (e : Expr Span) => Phrase.whole.Derives ts last e.bare)
      (Expr.reader_finds room) _ _ _ hmore
    refine ⟨used, rfl, fun e he => ?_, hes.content_eq fun ts last e _ hderives => ?_, ?_⟩
    · obtain ⟨_, _, hderives⟩ := hes.exists_item.2 e he
      exact (Expr.shaped_bare e _).mp hderives.shaped
    · rw [hderives.content_eq, Expr.render_bare]
    · exact landmarks_eq_nil fun n => hes.label_notMem n fun _ _ _ h => h.label_notMem n

theorem namesReader_finds : (separated nameReader).Finds fun used _ ns =>
    ns ≠ [] ∧ Holds used (commas (ns.map fun n => [.name n.text])) [] := by
  intro ts ns rest h
  have hname : nameReader.Finds fun used _ n => nodes used = [.name n.text] := by
    intro ts n rest h
    obtain ⟨used, hts, rfl⟩ := nameReader_finds _ _ _ h
    exact ⟨_, hts, rfl⟩
  obtain ⟨used, rfl, hns⟩ := separated_finds
    (D := fun ts _ (n : Name Span) => ts = [.name n.text]) hname _ _ _ h
  refine ⟨used, rfl, hns.exists_item.1, hns.content_eq fun _ _ _ _ h => by rw [h], ?_⟩
  refine landmarks_eq_nil fun n => hns.label_notMem n fun ts _ x h => ?_
  simp [h]

theorem textReader_finds : textReader.Finds fun used _ text =>
    (text = none ∧ used = []) ∨ ∃ s span span', text = some s ∧
      used = [⟨.text s, span⟩, ⟨.mark .comma, span'⟩] := by
  intro ts text rest h
  unfold textReader at h
  split at h
  · obtain ⟨_, mid, hcomma, hmore⟩ := bind_eq_ok.mp h
    obtain ⟨span', rfl⟩ := expect_eq_ok.mp hcomma
    cases hmore
    exact ⟨_, rfl, .inr ⟨_, _, _, rfl, rfl⟩⟩
  · cases h
    exact ⟨[], rfl, .inl ⟨rfl, rfl⟩⟩

/-- The tokens hold the statement, which is shaped. -/
abbrev Taken (used : List (Spanned Token)) (_ : Bool) (s : Stmt Span) : Prop :=
  s.Shaped ∧ Holds used s.render s.landmarks

theorem inputReader_finds (span : Span) :
    (do
      let text ← textReader
      let name ← nameReader
      return .command (span.merge name.span) (.input text name) : Reader (Stmt Span)).Finds
      fun used last s => Taken (⟨.keyword .input, span⟩ :: used) last s := by
  refine textReader_finds.bind fun text before _ htext => ?_
  refine nameReader_finds.bind fun n before' _ hn => .pure fun _ => ⟨trivial, ?_⟩
  subst hn
  obtain ⟨rfl, rfl⟩ | ⟨s, span₁, span₂, rfl, rfl⟩ := htext
  · exact ⟨rfl, rfl⟩
  · exact ⟨rfl, rfl⟩

theorem valueReader_finds (room : Nat) : (valueReader room).Finds Taken := by
  refine (Expr.reader_holds room).bind fun e before _ he => ?_
  refine (eat?_finds (.mark .store)).bind fun store before' _ hstore => ?_
  obtain ⟨rfl, rfl⟩ | ⟨span, rfl, rfl⟩ := hstore
  · refine .pure fun _ => ⟨he.1, ?_⟩
    rw [List.append_nil, List.append_nil]
    exact he.2
  · refine (targetReader_finds room).bind fun t before'' _ ht => .pure fun _ => ⟨⟨he.1, ht.1⟩, ?_⟩
    constructor
    · simp [render, Command.render, content_cons, he.2.content_eq, ht.2.content_eq]
    · simp [landmarks_cons, landmark?, landmarks, he.2.landmarks_eq, ht.2.landmarks_eq]

/-- The step of a counting loop, if a comma stands before it. -/
def stepReader (room : Nat) : Option Span → Reader (Option (Expr Span))
  | some _ => some <$> Expr.reader room
  | none => pure none

theorem rangeReader_eq (room : Nat) : rangeReader room = (do
    let counter ← nameReader
    expect .comma
    let start ← Expr.reader room
    expect .comma
    let last ← Expr.reader room
    let comma ← eat? (.mark .comma)
    let step ← stepReader room comma
    let closed ← close .rightParen
    return (⟨counter, start, last, step⟩, closed.getD (step.getD last).span)) := by
  unfold rangeReader
  refine bind_congr fun counter => bind_congr fun _ => bind_congr fun start => ?_
  refine bind_congr fun _ => bind_congr fun last => bind_congr fun comma => ?_
  cases comma <;> rfl

theorem rangeReader_finds (room : Nat) : (rangeReader room).Finds fun used _ r =>
    r.1.Shaped ∧ Holds used r.1.render [] := by
  refine nameReader_finds.bind fun counter b₁ _ hcounter => ?_
  refine (expect_finds .comma).bind fun _ b₂ _ hcomma => ?_
  refine (Expr.reader_holds room).bind fun start b₃ _ hstart => ?_
  refine (expect_finds .comma).bind fun _ b₄ _ hcomma' => ?_
  refine (Expr.reader_holds room).bind fun last b₅ _ hlast => ?_
  refine (eat?_finds (.mark .comma)).bind fun comma b₆ _ hstep => ?_
  subst hcounter
  obtain ⟨s₁, rfl⟩ := hcomma
  obtain ⟨s₂, rfl⟩ := hcomma'
  obtain ⟨rfl, rfl⟩ | ⟨span, rfl, rfl⟩ := hstep
  · simp only [pure_bind]
    refine (close_holds rfl).bind fun closed b₇ _ hclosed => .pure fun _ => ?_
    refine ⟨⟨hstart.1, hlast.1, nofun⟩, ?_, ?_⟩
    · simp [Range.render, content_cons, Token.isLayout, hstart.2.content_eq, hlast.2.content_eq,
        hclosed.content_eq]
    · simp [landmarks_cons, landmark?, hstart.2.landmarks_eq, hlast.2.landmarks_eq,
        hclosed.landmarks_eq]
  · simp only [map_eq_pure_bind, bind_assoc, pure_bind]
    refine (Expr.reader_holds room).bind fun step b₇ _ hstep => ?_
    refine (close_holds rfl).bind fun closed b₈ _ hclosed => .pure fun _ => ?_
    refine ⟨⟨hstart.1, hlast.1, ?_⟩, ?_, ?_⟩
    · rintro e ⟨⟩
      exact hstep.1
    · simp [Range.render, content_cons, Token.isLayout, hstart.2.content_eq, hlast.2.content_eq,
        hstep.2.content_eq, hclosed.content_eq]
    · simp [landmarks_cons, landmark?, hstart.2.landmarks_eq, hlast.2.landmarks_eq,
        hstep.2.landmarks_eq, hclosed.landmarks_eq]

/-! ## Blocks -/

/-- The tokens hold the statements, which are shaped. -/
abbrev TakenAll (used : List (Spanned Token)) (_ : Bool) (ss : List (Stmt Span)) : Prop :=
  ShapedAll ss ∧ Holds used (renderAll ss) (landmarksOf ss)

theorem blockEnd_eq_ok {opener : Keyword} {header : Span} {ts rest : List (Spanned Token)} {u : Unit}
    (h : blockEnd opener header ts = .ok (u, rest)) : ∃ stop, ts = ⟨.keyword .end_, stop⟩ :: rest := by
  unfold blockEnd at h
  split at h
  · cases h
  · cases h
    exact ⟨_, rfl⟩
  · cases h

theorem blockEnd_finds (opener : Keyword) (header : Span) :
    (blockEnd opener header).Finds fun used _ _ => Holds used [] [] := by
  intro ts _ rest h
  obtain ⟨stop, rfl⟩ := blockEnd_eq_ok h
  exact ⟨[_], rfl, rfl, rfl⟩

theorem past_separators (ts : List (Spanned Token)) :
    ∃ seps, ts = seps ++ past ts ∧ ∀ t ∈ seps, t.node = .separator :=
  ⟨_, List.takeWhile_append_dropWhile.symm, fun t ht => by
    simpa using List.mem_takeWhile_imp ht⟩

theorem past_holds (ts : List (Spanned Token)) :
    ∃ seps, ts = seps ++ past ts ∧ Holds seps [] [] := by
  obtain ⟨seps, hts, hseps⟩ := past_separators ts
  refine ⟨seps, hts, ?_, landmarks_eq_nil fun n hn => ?_⟩
  · refine List.filter_eq_nil_iff.mpr fun t ht => ?_
    obtain ⟨u, hu, rfl⟩ := List.mem_map.mp ht
    simp [hseps u hu, Token.isLayout]
  · obtain ⟨u, hu, hnode⟩ := List.mem_map.mp hn
    rw [hseps u hu] at hnode
    cases hnode

theorem after_eq_ok {ss ss' : List (Stmt Span)} {rest : List (Spanned Token)}
    {o : Except Complaint (List (Stmt Span) × List (Spanned Token))} :
    after ss o = .ok (ss', rest) ↔ ∃ tail, o = .ok (tail, rest) ∧ ss' = ss ++ tail := by
  rcases o with c | ⟨tail, rest'⟩
  · simp [after, Except.map]
  · simp only [after, Except.map, Except.ok.injEq, Prod.mk.injEq]
    constructor
    · rintro ⟨rfl, rfl⟩
      exact ⟨tail, ⟨rfl, rfl⟩, rfl⟩
    · rintro ⟨_, ⟨rfl, rfl⟩, rfl⟩
      exact ⟨rfl, rfl⟩

/-- What a reader leaves over stands at the end of what it was given. -/
theorem shrinks_of_finds {r : Reader (Stmt Span)}
    {D : List (Spanned Token) → Bool → Stmt Span → Prop} (h : r.Finds D) : Shrinks r := by
  intro ts s rest hs
  obtain ⟨used, rfl, -⟩ := h _ _ _ hs
  exact List.suffix_append _ _

/-- A block that is read is empty up to its end, or a statement with a block of fewer tokens behind
it. -/
theorem block_cases {r : Reader (Stmt Span)} (hr : Shrinks r) {ts rest : List (Spanned Token)}
    {ss : List (Stmt Span)} (h : block r ts = .ok (ss, rest)) :
    (ss = [] ∧ rest = past ts) ∨
      ∃ s mid tail, r (past ts) = .ok (s, mid) ∧ endsHere mid = true ∧ mid.length < ts.length ∧
        block r mid = .ok (tail, rest) ∧ ss = s :: tail := by
  rw [block_eq hr] at h
  cases hp : past ts with
  | nil =>
    rw [hp] at h
    cases h
    exact .inl ⟨rfl, rfl⟩
  | cons t us =>
    rw [hp] at h
    dsimp only at h
    by_cases hc : closes t.node = true
    · rw [if_pos hc] at h
      cases h
      exact .inl ⟨rfl, rfl⟩
    · rw [if_neg hc] at h
      cases hs : r (t :: us) with
      | error c =>
        rw [hs] at h
        cases h
      | ok p =>
        obtain ⟨s, mid⟩ := p
        rw [hs] at h
        dsimp only at h
        by_cases he : endsHere mid = true
        · rw [if_pos he] at h
          obtain ⟨tail, htail, rfl⟩ := after_eq_ok.mp h
          have hlt := length_lt_of_endsHere hr hp hs he
          exact .inr ⟨s, mid, tail, rfl, he, hlt, htail, rfl⟩
        · rw [if_neg he] at h
          cases h

theorem block_finds {r : Reader (Stmt Span)} (h : r.Finds Taken) : (block r).Finds TakenAll := by
  intro ts
  -- a statement takes at least one token, so the rest of the block is a block of fewer tokens
  induction hn : ts.length using Nat.strong_induction_on generalizing ts with
  | _ n ih =>
    intro ss rest hblock
    obtain ⟨seps, hseps, hholds⟩ := past_holds ts
    obtain ⟨rfl, rfl⟩ | ⟨s, mid, tail, hs, -, hlt, htail, rfl⟩ :=
      block_cases (shrinks_of_finds h) hblock
    · exact ⟨seps, hseps, trivial, hholds⟩
    · obtain ⟨used, hused, hshaped, hstmt⟩ := h _ _ _ hs
      obtain ⟨used', rfl, htails, hrest⟩ := ih _ (hn ▸ hlt) mid rfl tail rest htail
      rw [hused] at hseps
      refine ⟨seps ++ used ++ used', by simp [hseps], ⟨hshaped, htails⟩, ?_, ?_⟩
      · simp [renderAll, content_cons, Token.isLayout, hholds.content_eq, hstmt.content_eq,
          hrest.content_eq]
      · simp [landmarksOf, hholds.landmarks_eq, hstmt.landmarks_eq, hrest.landmarks_eq]

/-! ## Statements -/

/-- Behind the condition of a conditional stands `Then`, or the one statement that it guards. -/
theorem guarded_cases {b : Reader (List (Stmt Span))} {single : Reader (Stmt Span)} {header : Span}
    {e : Expr Span} {ts rest : List (Spanned Token)} {s : Stmt Span}
    (h : guarded b single header e ts = .ok (s, rest)) :
    (∃ t us, past ts = t :: us ∧ t.node = .keyword .then_ ∧
      thenPart b header e us = .ok (s, rest)) ∨
    ∃ body, single (past ts) = .ok (body, rest) ∧ s = .ifThen header e [body] := by
  rw [guarded_eq] at h
  cases hp : past ts with
  | nil =>
    rw [hp] at h
    cases h
  | cons t us =>
    rw [hp] at h
    dsimp only at h
    by_cases hthen : t.node = .keyword .then_
    · rw [if_pos hthen] at h
      exact .inl ⟨t, us, rfl, hthen, h⟩
    · rw [if_neg hthen] at h
      by_cases hc : closes t.node = true
      · rw [if_pos hc] at h
        cases h
      · rw [if_neg hc] at h
        obtain ⟨body, mid, hbody, hmore⟩ := bind_eq_ok.mp h
        cases hmore
        exact .inr ⟨body, hbody, rfl⟩

section Forms

variable {b : Reader (List (Stmt Span))} {single : Reader (Stmt Span)} (hb : b.Finds TakenAll)
  (hsingle : single.Finds Taken)

include hb

theorem thenPart_finds (header : Span) {e : Expr Span} (he : e.Shaped .whole) :
    (thenPart b header e).Finds fun used _ s => s.Shaped ∧
      ∀ before, Holds before (.keyword .if_ :: e.render) [] →
        Holds (before ++ used) s.render s.landmarks := by
  refine hb.bind fun yes b₁ _ hyes => ?_
  refine (eat?_finds (.keyword .else_)).bind fun otherwise b₂ _ helse => ?_
  obtain ⟨rfl, rfl⟩ | ⟨span, rfl, rfl⟩ := helse
  · refine (blockEnd_finds .if_ header).bind fun _ b₃ _ hend => .pure fun _ => ?_
    refine ⟨⟨he, hyes.1⟩, fun before hbefore => ⟨?_, ?_⟩⟩
    · simp [render, content_cons, Token.isLayout, hbefore.content_eq, hyes.2.content_eq,
        hend.content_eq]
    · simp [landmarks, hbefore.landmarks_eq, hyes.2.landmarks_eq, hend.landmarks_eq]
  · refine hb.bind fun no b₃ _ hno => ?_
    refine (blockEnd_finds .if_ header).bind fun _ b₄ _ hend => .pure fun _ => ?_
    refine ⟨⟨he, hyes.1, hno.1⟩, fun before hbefore => ⟨?_, ?_⟩⟩
    · simp [render, content_cons, Token.isLayout, hbefore.content_eq, hyes.2.content_eq,
        hno.2.content_eq, hend.content_eq]
    · simp [landmarks, landmarks_cons, landmark?, hbefore.landmarks_eq, hyes.2.landmarks_eq,
        hno.2.landmarks_eq, hend.landmarks_eq]

include hsingle

theorem guarded_finds (header : Span) {e : Expr Span} (he : e.Shaped .whole) :
    (guarded b single header e).Finds fun used _ s => s.Shaped ∧
      ∀ before, Holds before (.keyword .if_ :: e.render) [] →
        Holds (before ++ used) s.render s.landmarks := by
  intro ts s rest h
  obtain ⟨seps, hseps, hholds⟩ := past_holds ts
  obtain ⟨t, us, hp, hthen, h⟩ | ⟨body, hbody, rfl⟩ := guarded_cases h
  · obtain ⟨used, rfl, hshaped, hs⟩ := thenPart_finds hb header he _ _ _ h
    rw [hp] at hseps
    refine ⟨seps ++ t :: used, by simp [hseps], hshaped, fun before hbefore => ?_⟩
    have hfront : Holds (before ++ seps ++ [t]) (.keyword .if_ :: e.render) [] := by
      constructor
      · simp [hbefore.content_eq, hholds.content_eq, hthen, content_cons, Token.isLayout]
      · simp [landmarks_cons, landmark?, hbefore.landmarks_eq, hholds.landmarks_eq, hthen]
    simpa using hs _ hfront
  · obtain ⟨used, hused, hshaped, hs⟩ := hsingle _ _ _ hbody
    rw [hused] at hseps
    refine ⟨seps ++ used, by simp [hseps], ⟨he, hshaped, trivial⟩, fun before hbefore => ⟨?_, ?_⟩⟩
    · simp [render, renderAll, content_cons, Token.isLayout, hbefore.content_eq,
        hholds.content_eq, hs.content_eq]
    · simp [landmarks, landmarksOf, hbefore.landmarks_eq, hholds.landmarks_eq, hs.landmarks_eq]

theorem form_finds (room : Nat) : (form room b single).Finds Taken := by
  intro ts s rest h
  unfold form at h
  split at h
  case h_1 span us =>
    refine finds_behind (D := Taken) h ?_
    refine (valuesReader_finds room).bind fun es before _ hes => .pure fun _ => ⟨hes.1, ?_, ?_⟩
    · simp [render, Command.render, content_cons, hes.2.content_eq]
    · simp [landmarks, landmarks_cons, landmark?, hes.2.landmarks_eq]
  case h_2 span us =>
    refine finds_behind (D := Taken) h ?_
    refine namesReader_finds.bind fun ns before _ hns => .pure fun _ => ⟨hns.1, ?_, ?_⟩
    · simp [render, Command.render, content_cons, hns.2.content_eq]
    · simp [landmarks, landmarks_cons, landmark?, hns.2.landmarks_eq]
  case h_3 span us => exact finds_behind h (inputReader_finds span)
  case h_4 span us =>
    refine finds_behind (D := Taken) h ?_
    refine (Expr.reader_holds room).bind fun e before _ he ts s rest h => ?_
    obtain ⟨used, rfl, hshaped, hs⟩ := guarded_finds hb hsingle _ he.1 _ _ _ h
    refine ⟨used, rfl, hshaped, hs (⟨.keyword .if_, span⟩ :: before) ⟨?_, ?_⟩⟩
    · simp [content_cons, he.2.content_eq]
    · simp [landmarks_cons, landmark?, he.2.landmarks_eq]
  case h_5 span us =>
    refine finds_behind (D := Taken) h ?_
    refine (Expr.reader_holds room).bind fun e b₁ _ he => hb.bind fun ss b₂ _ hss => ?_
    refine (blockEnd_finds .while_ _).bind fun _ b₃ _ hend => .pure fun _ => ⟨⟨he.1, hss.1⟩, ?_, ?_⟩
    · simp [render, content_cons, Token.isLayout, he.2.content_eq, hss.2.content_eq,
        hend.content_eq]
    · simp [landmarks, landmarks_cons, landmark?, he.2.landmarks_eq, hss.2.landmarks_eq,
        hend.landmarks_eq]
  case h_6 span us =>
    refine finds_behind (D := Taken) h ?_
    refine (rangeReader_finds room).bind fun r b₁ _ hr => hb.bind fun ss b₂ _ hss => ?_
    refine (blockEnd_finds .for_ _).bind fun _ b₃ _ hend => .pure fun _ => ⟨⟨hr.1, hss.1⟩, ?_, ?_⟩
    · simp [render, content_cons, Token.isLayout, hr.2.content_eq, hss.2.content_eq,
        hend.content_eq]
    · simp [landmarks, landmarks_cons, landmark?, hr.2.landmarks_eq, hss.2.landmarks_eq,
        hend.landmarks_eq]
  case h_7 | h_8 | h_9 =>
    cases h
    exact ⟨[_], rfl, trivial, rfl, rfl⟩
  case h_10 => cases h
  case h_11 => exact valueReader_finds room _ _ _ h

end Forms

theorem reader_finds (room : Nat) : (reader room).Finds Taken := by
  induction room with
  | zero => exact form_finds finds_fail finds_fail 0
  | succ room ih => exact form_finds (block_finds ih) ih (room + 1)

theorem reader_shrinks (room : Nat) : Shrinks (reader room) := shrinks_of_finds (reader_finds room)

end Stmt

namespace Program

/-- The labels of a program with their annotations, in textual order. -/
def landmarks (p : Program σ) : List (String × σ) := Stmt.landmarksOf p.statements

/-- A program that is read from all tokens is well-formed and holds what they hold. -/
theorem reader_finds {ts : List (Spanned Token)} {p : Program Span}
    (h : reader ts = .ok (p, [])) : p.WellFormed ∧ Holds ts p.render p.landmarks := by
  have hlevels := (reader_follows maxNesting 0 ts p [] h).1.1
  obtain ⟨ss, mid, hblock, hp⟩ := bind_eq_ok.mp h
  cases hp
  obtain ⟨used, rfl, hshaped, hholds⟩ :=
    Stmt.block_finds (Stmt.reader_finds maxNesting) _ _ _ hblock
  rw [List.append_nil]
  exact ⟨⟨hshaped, hlevels⟩, hholds⟩

end Program

end CalcBasic
