import CalcBasic.Proofs.ExprReading

/-!
# Programs as tokens

`Program.render` writes a program as tokens in one way: a separator behind every statement and every
header, every closing mark in its place, and every conditional with `Then` and `End`. A source can
be laid out in other ways. What it has in common with the rendered program are the tokens that are
no layout (`content`).

Not every tree is a program of the language. An operator has operands that bind tight enough, a list
is never empty, and so on (`Program.WellFormed`). For expressions this is the shape that the grammar
gives them: what is derived is shaped (`Phrase.Derives.shaped`), and a shaped expression is derived
from its rendered tokens (`Expr.Shaped.derives`).
-/

namespace CalcBasic

variable {σ : Type}

/-! ## Rendering -/

/-- Some groups of tokens with commas between them. -/
def commas : List (List Token) → List Token
  | [] => []
  | [ts] => ts
  | ts :: us :: rest => ts ++ .mark .comma :: commas (us :: rest)

namespace Expr

mutual

/-- The tokens of an expression, all brackets closed. -/
def render : Expr σ → List Token
  | literal _ x => [.number x]
  | var _ n => [.name n]
  | element _ n e => .name n :: .mark .leftParen :: (e.render ++ [.mark .rightParen])
  | list _ items => .mark .leftBrace :: (commas (renderEach items) ++ [.mark .rightBrace])
  | binary _ op left right => left.render ++ .op op :: right.render
  | signed _ sign e => .op sign.op :: e.render
  | group _ e => .mark .leftParen :: (e.render ++ [.mark .rightParen])

/-- The tokens of each of some expressions. -/
def renderEach : List (Expr σ) → List (List Token)
  | [] => []
  | e :: es => e.render :: renderEach es

end

theorem renderEach_eq (es : List (Expr σ)) : renderEach es = es.map render := by
  induction es with
  | nil => rfl
  | cons e es ih => rw [renderEach, ih, List.map_cons]

end Expr

/-- The tokens of a target. -/
def Target.render : Target σ → List Token
  | whole n => [.name n.text]
  | element _ n e => .name n.text :: .mark .leftParen :: (e.render ++ [.mark .rightParen])

/-- The tokens of a command. -/
def Command.render : Command σ → List Token
  | evaluate e => e.render
  | display es => .keyword .disp :: commas (es.map Expr.render)
  | store e t => e.render ++ .mark .store :: t.render
  | prompt ns => .keyword .prompt :: commas (ns.map fun n => [.name n.text])
  | input none n => [.keyword .input, .name n.text]
  | input (some text) n => [.keyword .input, .text text, .mark .comma, .name n.text]
  | label n => [.label n]
  | goto n => [.goto n]
  | stop => [.keyword .stop]

/-- The tokens of the head of a counting loop after its keyword. -/
def Range.render (r : Range σ) : List Token :=
  .name r.counter.text :: .mark .comma :: (r.start.render ++ .mark .comma :: (r.last.render ++
    ((r.step.map fun e => .mark .comma :: e.render).getD [] ++ [.mark .rightParen])))

namespace Stmt

mutual

/-- The tokens of a statement. -/
def render : Stmt σ → List Token
  | command _ c => c.render
  | ifThen _ e body =>
    .keyword .if_ :: (e.render ++ .separator :: .keyword .then_ :: .separator ::
      (renderAll body ++ [.keyword .end_]))
  | ifElse _ e body otherwise =>
    .keyword .if_ :: (e.render ++ .separator :: .keyword .then_ :: .separator ::
      (renderAll body ++ .keyword .else_ :: .separator :: (renderAll otherwise ++
        [.keyword .end_])))
  | whileLoop _ e body =>
    .keyword .while_ :: (e.render ++ .separator :: (renderAll body ++ [.keyword .end_]))
  | forLoop _ r body =>
    .keyword .for_ :: (r.render ++ .separator :: (renderAll body ++ [.keyword .end_]))

/-- The tokens of some statements, with a separator behind each. -/
def renderAll : List (Stmt σ) → List Token
  | [] => []
  | s :: rest => s.render ++ .separator :: renderAll rest

end

end Stmt

/-- The tokens of a program. -/
def Program.render (p : Program σ) : List Token := Stmt.renderAll p.statements

/-! ## Shape -/

/-- What can stand behind a sign in the phrase. -/
def Phrase.behindSign : Phrase → Option Phrase
  | level .power | primary => none
  | level _ | factor => some .factor
  | exponent => some .exponent

namespace Expr

mutual

/-- The expression has the shape of the phrase: every operator and every sign has operands that can
stand there without brackets, only lists have elements, and no list is written without items. -/
def Shaped : Expr σ → Phrase → Prop
  | literal _ _, _ | var _ _, _ => True
  | element _ n e, _ => (Region.of n).isIndexable = true ∧ e.Shaped .whole
  | list _ items, _ => items ≠ [] ∧ ShapedAll items
  | binary _ op left right, ph =>
    ph.rank ≤ op.level.rank ∧ left.Shaped (.level op.level) ∧ right.Shaped op.level.operand
  | signed _ _ e, ph => ∃ inner, ph.behindSign = some inner ∧ e.Shaped inner
  | group _ e, _ => e.Shaped .whole

/-- All of some expressions have the shape of an expression. -/
def ShapedAll : List (Expr σ) → Prop
  | [] => True
  | e :: es => e.Shaped .whole ∧ ShapedAll es

end

theorem shapedAll_iff {es : List (Expr σ)} : ShapedAll es ↔ ∀ e ∈ es, e.Shaped .whole := by
  induction es with
  | nil => simp [ShapedAll]
  | cons e es ih => rw [ShapedAll, ih, List.forall_mem_cons]

end Expr

/-- The target is an element of a list only if the name can have one. -/
def Target.Shaped : Target σ → Prop
  | whole _ => True
  | element _ n e => (Region.of n.text).isIndexable = true ∧ e.Shaped .whole

/-- The expressions of the command are shaped, and a prompt asks for something. -/
def Command.Shaped : Command σ → Prop
  | evaluate e => e.Shaped .whole
  | display es => ∀ e ∈ es, e.Shaped .whole
  | store e t => e.Shaped .whole ∧ t.Shaped
  | prompt ns => ns ≠ []
  | input _ _ | label _ | goto _ | stop => True

/-- The expressions of a range are shaped. -/
def Range.Shaped (r : Range σ) : Prop :=
  r.start.Shaped .whole ∧ r.last.Shaped .whole ∧ ∀ e ∈ r.step, e.Shaped .whole

namespace Stmt

mutual

/-- All expressions and commands in the statement are shaped. -/
def Shaped : Stmt σ → Prop
  | command _ c => c.Shaped
  | ifThen _ e body | whileLoop _ e body => e.Shaped .whole ∧ ShapedAll body
  | ifElse _ e body otherwise => e.Shaped .whole ∧ ShapedAll body ∧ ShapedAll otherwise
  | forLoop _ r body => r.Shaped ∧ ShapedAll body

/-- All of some statements are shaped. -/
def ShapedAll : List (Stmt σ) → Prop
  | [] => True
  | s :: rest => s.Shaped ∧ ShapedAll rest

end

end Stmt

/-- A program whose statements are shaped and whose levels keep to the limit. -/
structure Program.WellFormed (p : Program σ) : Prop where
  shaped : Stmt.ShapedAll p.statements
  levels_le : p.levels ≤ maxNesting

/-! ## Content -/

/-- Whether a token is layout: a separator, a closing mark, `Then` or `End`. -/
def Token.isLayout : Token → Bool
  | separator | mark .rightParen | mark .rightBrace | keyword .then_ | keyword .end_ => true
  | _ => false

/-- The tokens that are no layout. -/
def content (ts : List Token) : List Token := ts.filter fun t => !t.isLayout

@[simp] theorem content_nil : content [] = [] := rfl

@[simp] theorem content_append (ts us : List Token) :
    content (ts ++ us) = content ts ++ content us := List.filter_append ts us

theorem content_cons (t : Token) (ts : List Token) :
    content (t :: ts) = if t.isLayout then content ts else t :: content ts := by
  unfold content
  cases h : t.isLayout <;> simp [h]

theorem Closing.content_eq {m : Mark} {inner last : Bool} {cs : List Token}
    (h : Closing m inner last cs) (hm : (Token.mark m).isLayout = true) : content cs = [] := by
  cases h with
  | written => simp [content, hm]
  | omitted => rfl

theorem Separated.content_eq {α : Type} {item : List Token → Bool → α → Prop} {ts : List Token}
    {last : Bool} {xs : List α} (h : Separated item ts last xs) {f : α → List Token}
    (hf : ∀ ts last x, x ∈ xs → item ts last x → content ts = content (f x)) :
    content ts = content (commas (xs.map f)) := by
  induction h with
  | one hx => exact hf _ _ _ List.mem_cons_self hx
  | more hx hxs ih =>
    have hrest := ih fun ts last x hmem => hf ts last x (List.mem_cons_of_mem _ hmem)
    have hfirst := hf _ _ _ List.mem_cons_self hx
    rw [content_append, content_cons, hfirst, hrest]
    cases hxs <;> simp [commas, content_cons, Token.isLayout]

/-! ## Shape and grammar -/

section Bare

variable {τ : Type}

namespace Expr

mutual

theorem render_map (f : σ → τ) : ∀ e : Expr σ, (e.map f).render = e.render
  | literal _ _ | var _ _ => rfl
  | element _ _ e | signed _ _ e | group _ e => by rw [map, render, render, render_map f e]
  | list _ items => by rw [map, render, render, renderEach_mapAll f items]
  | binary _ _ left right => by rw [map, render, render, render_map f left, render_map f right]

theorem renderEach_mapAll (f : σ → τ) :
    ∀ es : List (Expr σ), renderEach (mapAll f es) = renderEach es
  | [] => rfl
  | e :: es => by rw [mapAll, renderEach, renderEach, render_map f e, renderEach_mapAll f es]

end

mutual

theorem shaped_map (f : σ → τ) : ∀ (e : Expr σ) (ph : Phrase), (e.map f).Shaped ph ↔ e.Shaped ph
  | literal _ _, _ | var _ _, _ => Iff.rfl
  | element _ _ e, _ | group _ e, _ => by rw [map, Shaped, Shaped, shaped_map f e]
  | list _ items, _ => by
    rw [map, Shaped, Shaped, shapedAll_mapAll f items]
    cases items <;> simp [mapAll]
  | binary _ _ left right, _ => by
    rw [map, Shaped, Shaped, shaped_map f left, shaped_map f right]
  | signed _ _ e, ph => by simp only [map, Shaped, shaped_map f e]

theorem shapedAll_mapAll (f : σ → τ) :
    ∀ es : List (Expr σ), ShapedAll (mapAll f es) ↔ ShapedAll es
  | [] => Iff.rfl
  | e :: es => by rw [mapAll, ShapedAll, ShapedAll, shaped_map f e, shapedAll_mapAll f es]

end

@[simp] theorem render_bare (e : Expr σ) : e.bare.render = e.render := render_map _ e

@[simp] theorem shaped_bare (e : Expr σ) (ph : Phrase) : e.bare.Shaped ph ↔ e.Shaped ph :=
  shaped_map _ e ph

/-- A phrase that is less tight has more expressions. -/
theorem Shaped.widen {e : Expr σ} {ph ph' : Phrase} (h : e.Shaped ph) (hrank : ph'.rank ≤ ph.rank)
    (hsign : ∀ inner, ph.behindSign = some inner → ph'.behindSign = some inner) :
    e.Shaped ph' := by
  cases e with
  | literal | var | element | list | group => exact h
  | binary => exact ⟨hrank.trans h.1, h.2⟩
  | signed =>
    obtain ⟨inner, hinner, he⟩ := h
    exact ⟨inner, hsign inner hinner, he⟩

end Expr

end Bare

theorem Level.behindSign_of_first {l : Level} {inner : Phrase}
    (h : l.first.behindSign = some inner) : (Phrase.level l).behindSign = some inner := by
  cases l <;> exact h

theorem Phrase.Derives.content_eq {ph : Phrase} {ts : List Token} {last : Bool} {e : Expr Unit}
    (h : ph.Derives ts last e) : content ts = content e.render := by
  induction h with
  | first _ ih | plainFactor _ ih | plainExponent _ ih => exact ih
  | operation _ _ ihl ihr => simp [Expr.render, content_cons, ihl, ihr]
  | signedFactor _ _ ih | signedExponent _ _ ih => simp [Expr.render, content_cons, ih]
  | number | name => rfl
  | element _ _ hc ih | group _ hc ih =>
    simp [Expr.render, content_cons, Token.isLayout, ih, hc.content_eq rfl]
  | list _ _ hc ihs ih =>
    have hitems : Separated (fun ts _ (e : Expr Unit) => content ts = content e.render) _ true _ :=
      Separated.iff_items.mpr ⟨_, _, _, ihs, ih, rfl, rfl⟩
    have hcontent := hitems.content_eq (f := Expr.render) fun _ _ _ _ h => h
    simp only [content_append] at hcontent
    simp [Expr.render, Expr.renderEach_eq, content_cons, Token.isLayout, hc.content_eq rfl,
      hcontent]

theorem Phrase.behindSign_level {l : Level} {inner : Phrase}
    (h : (Phrase.level l).behindSign = some inner) : l ≠ .power ∧ inner = .factor := by
  cases l <;> cases h <;> exact ⟨nofun, rfl⟩

/-- What the grammar derives is shaped. -/
theorem Phrase.Derives.shaped {ph : Phrase} {ts : List Token} {last : Bool} {e : Expr Unit}
    (h : ph.Derives ts last e) : e.Shaped ph := by
  induction h with
  | @first l _ _ _ _ ih =>
    refine ih.widen ?_ fun _ => Level.behindSign_of_first
    rw [l.rank_first]
    exact Nat.le_succ _
  | operation _ _ ihl ihr => exact ⟨Nat.le_refl _, ihl, ihr⟩
  | plainFactor _ ih | plainExponent _ ih => exact ih.widen (Nat.le_refl _) nofun
  | signedFactor _ _ ih | signedExponent _ _ ih => exact ⟨_, rfl, ih⟩
  | number | name => trivial
  | element hn _ _ ih => exact ⟨hn, ih⟩
  | group _ _ ih => exact ih
  | list _ _ _ ihs ih =>
    refine ⟨by simp, Expr.shapedAll_iff.mpr fun e he => ?_⟩
    rcases List.mem_append.mp he with he | he
    · obtain ⟨i, hi, rfl⟩ := List.mem_map.mp he
      exact ihs i hi
    · obtain rfl := List.mem_singleton.mp he
      exact ih

theorem separated_commas {α : Type} {item : List Token → Bool → α → Prop} {f : α → List Token} :
    ∀ {xs : List α}, xs ≠ [] → (∀ x ∈ xs, item (f x) false x) →
      Separated item (commas (xs.map f)) false xs
  | [x], _, h => .one (h x List.mem_cons_self)
  | x :: y :: xs, _, h =>
    .more (h x List.mem_cons_self)
      (separated_commas (List.cons_ne_nil y xs) fun z hz => h z (List.mem_cons_of_mem x hz))

namespace Phrase.Derives

variable {ts : List Token} {last : Bool} {e : Expr Unit}

theorem of_factor (h : Phrase.factor.Derives ts last e) {l : Level} (hl : l ≠ .power) :
    (Phrase.level l).Derives ts last e := by
  have hproduct : (Phrase.level .product).Derives ts last e := .first h
  have hsum : (Phrase.level .sum).Derives ts last e := .first hproduct
  have hcomparison : (Phrase.level .comparison).Derives ts last e := .first hsum
  have hconjunction : (Phrase.level .conjunction).Derives ts last e := .first hcomparison
  cases l with
  | power => exact absurd rfl hl
  | product => exact hproduct
  | sum => exact hsum
  | comparison => exact hcomparison
  | conjunction => exact hconjunction
  | disjunction => exact .first hconjunction

theorem of_primary (h : Phrase.primary.Derives ts last e) (ph : Phrase) : ph.Derives ts last e := by
  have hpower : (Phrase.level .power).Derives ts last e := .first h
  cases ph with
  | primary => exact h
  | exponent => exact .plainExponent h
  | factor => exact .plainFactor hpower
  | level l =>
    by_cases hl : l = .power
    · exact hl ▸ hpower
    · exact of_factor (.plainFactor hpower) hl

/-- A phrase of one level is one of a looser level, if it is what the looser level begins with. -/
theorem of_tighter {k l : Level} (h : (Phrase.level k).Derives ts last e)
    (hfirst : l.rank < k.rank → l.first.Derives ts last e) (hle : l.rank ≤ k.rank) :
    (Phrase.level l).Derives ts last e := by
  rcases Nat.eq_or_lt_of_le hle with heq | hlt
  · rw [Level.eq_of_rank_eq heq]
    exact h
  · exact .first (hfirst hlt)

theorem of_level {k : Level} (h : (Phrase.level k).Derives ts last e) {ph : Phrase}
    (hph : ph.rank ≤ k.rank) : ph.Derives ts last e := by
  have hpower : 5 ≤ k.rank → (Phrase.level .power).Derives ts last e :=
    h.of_tighter (l := .power) fun hlt => absurd hlt (Nat.not_lt.mpr (Nat.le_of_lt_succ k.rank_lt))
  have hfactor : 5 ≤ k.rank → Phrase.factor.Derives ts last e :=
    fun hle => .plainFactor (hpower hle)
  have hproduct := h.of_tighter (l := .product) hfactor
  have hsum := h.of_tighter (l := .sum) hproduct
  have hcomparison := h.of_tighter (l := .comparison) hsum
  have hconjunction := h.of_tighter (l := .conjunction) hcomparison
  cases ph with
  | primary | exponent => exact absurd k.rank_lt (Nat.not_lt.mpr hph)
  | factor => exact hfactor hph
  | level l =>
    cases l with
    | power => exact hpower hph
    | product => exact hproduct hph
    | sum => exact hsum hph
    | comparison => exact hcomparison hph
    | conjunction => exact hconjunction hph
    | disjunction => exact h.of_tighter hconjunction hph

end Phrase.Derives

namespace Expr

open Phrase

mutual

/-- A shaped expression is derived from its rendered tokens. -/
theorem Shaped.derives :
    ∀ {e : Expr σ} {ph : Phrase}, e.Shaped ph → ph.Derives e.render false e.bare
  | literal _ x, ph, _ => (Derives.number x).of_primary ph
  | var _ n, ph, _ => (Derives.name n).of_primary ph
  | element _ _ _, ph, h => (Derives.element h.1 (Shaped.derives h.2) .written).of_primary ph
  | group _ _, ph, h => (Derives.group (Shaped.derives h) .written).of_primary ph
  | binary _ _ _ _, _, h =>
    (Derives.operation (Shaped.derives h.2.1) (Shaped.derives h.2.2)).of_level h.1
  | signed _ sign e, ph, h => by
    obtain ⟨inner, hinner, he⟩ := h
    have hderives := Shaped.derives he
    cases ph with
    | primary => cases hinner
    | exponent =>
      cases hinner
      exact .signedExponent sign hderives
    | factor =>
      cases hinner
      exact .signedFactor sign hderives
    | level l =>
      obtain ⟨hl, rfl⟩ := behindSign_level hinner
      exact Derives.of_factor (.signedFactor sign hderives) hl
  | list _ items, ph, h => by
    have hitems : Separated (fun ts last (e : Expr σ) => whole.Derives ts last e.bare)
        (commas (items.map render)) false items := separated_commas h.1 (ShapedAll.derives h.2)
    obtain ⟨before, ts, e, hbefore, he, hts, hes⟩ :=
      Separated.iff_items.mp (hitems.map (f := bare) fun _ _ _ _ h => h)
    rw [bare_list, render, renderEach_eq, hts, hes]
    exact (Derives.list hbefore he .written).of_primary ph

theorem ShapedAll.derives : ∀ {es : List (Expr σ)}, ShapedAll es →
    ∀ e ∈ es, whole.Derives e.render false e.bare
  | [], _ => nofun
  | _ :: _, h => List.forall_mem_cons.mpr ⟨Shaped.derives h.1, ShapedAll.derives h.2⟩

end

end Expr

end CalcBasic
