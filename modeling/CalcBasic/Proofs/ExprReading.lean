import CalcBasic.Proofs.Blocks
import CalcBasic.Proofs.ExprNesting
import CalcBasic.Proofs.Grammar

/-!
# Reading by the grammar

The reader of expressions accepts exactly what the grammar derives, as long as the levels keep to
the limit, and gives the expression that is derived (`reader_iff_derives`).

1. What is read is derived (`reader_finds`). A chain of operators is read from the left, so its
   statement carries the derivation of the left operand along.
2. What is derived is read (`Phrase.Derives.reads`), if what follows does not hold on to it
   (`Leaves`). Operators of the phrase's own level may follow; then reading goes on with the
   expression as the left operand (`onward`), and with the room that its operators have left.
3. So one token list has one expression (`Phrase.Derives.unique`): with enough room the reader gives
   both.
-/

namespace CalcBasic

/-! ## What is read -/

namespace Reader

open Stmt

variable {α β : Type}

/-- What the reader gives is in the relation `D` to the tokens that it takes. The flag says whether
the statement ends behind them. -/
def Finds (r : Reader α) (D : List (Spanned Token) → Bool → α → Prop) : Prop :=
  ∀ ts x rest, r ts = .ok (x, rest) → ∃ used, ts = used ++ rest ∧ D used (endsHere rest) x

/-- The tokens without their places. -/
def nodes (ts : List (Spanned Token)) : List Token := ts.map (·.node)

@[simp] theorem nodes_nil : nodes [] = [] := rfl

@[simp] theorem nodes_cons (t : Spanned Token) (ts : List (Spanned Token)) :
    nodes (t :: ts) = t.node :: nodes ts := rfl

@[simp] theorem nodes_append (ts us : List (Spanned Token)) :
    nodes (ts ++ us) = nodes ts ++ nodes us := List.map_append

theorem nodes_eq_cons {ts : List (Spanned Token)} {t : Token} {us : List Token} :
    nodes ts = t :: us ↔ ∃ span rest, ts = ⟨t, span⟩ :: rest ∧ nodes rest = us := by
  constructor
  · intro h
    obtain ⟨⟨_, span⟩, rest, rfl, rfl, rfl⟩ := List.map_eq_cons_iff.mp h
    exact ⟨span, rest, rfl, rfl⟩
  · rintro ⟨span, rest, rfl, rfl⟩
    rfl

theorem nodes_eq_singleton {ts : List (Spanned Token)} {t : Token} :
    nodes ts = [t] ↔ ∃ span, ts = [⟨t, span⟩] := by
  constructor
  · intro h
    obtain ⟨span, rest, rfl, hrest⟩ := nodes_eq_cons.mp h
    obtain rfl := List.map_eq_nil_iff.mp hrest
    exact ⟨span, rfl⟩
  · rintro ⟨span, rfl⟩
    rfl

theorem nodes_eq_append {ts : List (Spanned Token)} {us vs : List Token} :
    nodes ts = us ++ vs ↔ ∃ ts₁ ts₂, ts = ts₁ ++ ts₂ ∧ nodes ts₁ = us ∧ nodes ts₂ = vs :=
  List.map_eq_append_iff

theorem eat?_eq_some {t : Token} {ts rest : List (Spanned Token)} {span : Span} :
    eat? t ts = .ok (some span, rest) ↔ ts = ⟨t, span⟩ :: rest := by
  rcases ts with _ | ⟨⟨node, span'⟩, us⟩
  · simp [eat?]
  · by_cases h : node = t
    · subst h
      simp [eat?]
    · simp [eat?, h]

theorem eat?_eq_none {t : Token} {ts rest : List (Spanned Token)} :
    eat? t ts = .ok (none, rest) ↔ ts = rest ∧ ∀ u ∈ ts.head?, u.node ≠ t := by
  rcases ts with _ | ⟨⟨node, span'⟩, us⟩
  · simp [eat?]
  · by_cases h : node = t
    · subst h
      simp [eat?]
    · simp [eat?, h]

theorem expect_eq_ok {m : Mark} {ts rest : List (Spanned Token)} :
    expect m ts = .ok ((), rest) ↔ ∃ span, ts = ⟨.mark m, span⟩ :: rest := by
  unfold expect
  rw [bind_eq_ok]
  constructor
  · rintro ⟨span?, mid, heat, h⟩
    cases span? with
    | none => cases h
    | some span =>
      cases h
      exact ⟨span, eat?_eq_some.mp heat⟩
  · rintro ⟨span, rfl⟩
    exact ⟨some span, rest, eat?_eq_some.mpr rfl, rfl⟩

/-- A closing mark is taken, or it may be missing where the statement ends. -/
theorem close_cases {m : Mark} {ts rest : List (Spanned Token)} {closed : Option Span}
    (h : close m ts = .ok (closed, rest)) :
    (∃ span, closed = some span ∧ ts = ⟨.mark m, span⟩ :: rest) ∨
      closed = none ∧ ts = rest ∧ endsHere ts = true := by
  unfold close at h
  obtain ⟨span?, mid, heat, h⟩ := bind_eq_ok.mp h
  cases span? with
  | some span =>
    cases h
    exact .inl ⟨span, rfl, eat?_eq_some.mp heat⟩
  | none =>
    obtain ⟨rfl, -⟩ := eat?_eq_none.mp heat
    obtain ⟨ended, us, hend, h⟩ := bind_eq_ok.mp h
    rw [atEnd_eq] at hend
    cases hend
    cases hends : endsHere ts with
    | false =>
      rw [hends] at h
      cases h
    | true =>
      rw [hends] at h
      cases h
      exact .inr ⟨rfl, rfl, rfl⟩

theorem close_finds {m : Mark} {ts rest : List (Spanned Token)} {closed : Option Span}
    (h : close m ts = .ok (closed, rest)) :
    ∃ used, ts = used ++ rest ∧ Closing m (endsHere ts) (endsHere rest) (nodes used) := by
  obtain ⟨span, -, rfl⟩ | ⟨-, rfl, hends⟩ := close_cases h
  · exact ⟨[⟨.mark m, span⟩], rfl, .written⟩
  · rw [hends]
    exact ⟨[], rfl, .omitted⟩

/-- One or more items with commas between them, each in the relation to the tokens that it is taken
from. The flag says whether they stand at the end of a statement. -/
inductive Items (item : List (Spanned Token) → Bool → α → Prop) :
    List (Spanned Token) → Bool → List α → Prop
  | one {ts : List (Spanned Token)} {last : Bool} {x : α} (h : item ts last x) :
      Items item ts last [x]
  | more {ts us : List (Spanned Token)} {last : Bool} {x : α} {xs : List α} (h : item ts false x)
      (span : Span) (hs : Items item us last xs) :
      Items item (ts ++ ⟨.mark .comma, span⟩ :: us) last (x :: xs)

theorem Items.separated {D : List Token → Bool → α → Prop} {ts : List (Spanned Token)} {last : Bool}
    {xs : List α} (h : Items (fun us last x => D (nodes us) last x) ts last xs) :
    Separated D (nodes ts) last xs := by
  induction h with
  | one h => exact .one h
  | more h span _ ih =>
    rw [nodes_append, nodes_cons]
    exact .more h ih

theorem commaItems_finds {item : Reader α} {D : List (Spanned Token) → Bool → α → Prop}
    (h : item.Finds D) {fuel : Nat} {items xs : List α} {ts rest : List (Spanned Token)}
    (hxs : commaItems item items fuel ts = .ok (xs, rest)) (hfuel : ts.length ≤ fuel)
    {before : List (Spanned Token)} {x : α} (hx : D before (endsHere ts) x) :
    ∃ used ys, ts = used ++ rest ∧ xs = items.reverse ++ ys ∧
      Items D (before ++ used) (endsHere rest) (x :: ys) := by
  induction fuel generalizing items ts before x with
  | zero =>
    cases hxs
    exact ⟨[], [], rfl, by simp, by simpa using .one hx⟩
  | succ fuel ih =>
    rw [commaItems] at hxs
    obtain ⟨comma, mid, heat, hmore⟩ := bind_eq_ok.mp hxs
    cases comma with
    | none =>
      cases hmore
      obtain ⟨rfl, -⟩ := eat?_eq_none.mp heat
      exact ⟨[], [], rfl, by simp, by simpa using .one hx⟩
    | some span =>
      obtain rfl := eat?_eq_some.mp heat
      obtain ⟨y, mid', hy, hrest⟩ := bind_eq_ok.mp hmore
      obtain ⟨used, rfl, hD⟩ := h _ _ _ hy
      have hlen : mid'.length ≤ fuel := by
        simp only [List.length_cons, List.length_append] at hfuel
        omega
      obtain ⟨used', ys, rfl, rfl, hitems⟩ := ih hrest hlen hD
      exact ⟨⟨.mark .comma, span⟩ :: (used ++ used'), y :: ys, by simp, by simp, .more hx span hitems⟩

theorem separated_items {item : Reader α} {D : List (Spanned Token) → Bool → α → Prop}
    (h : item.Finds D) : (separated item).Finds (Items D) := by
  intro ts xs rest hxs
  obtain ⟨x, mid, hx, hmore⟩ := bind_eq_ok.mp hxs
  obtain ⟨used, rfl, hD⟩ := h _ _ _ hx
  obtain ⟨used', ys, rfl, rfl, hitems⟩ := commaItems_finds h hmore (Nat.le_refl _) hD
  exact ⟨used ++ used', by simp, hitems⟩

theorem separated_finds {item : Reader α} {D : List Token → Bool → α → Prop}
    (h : item.Finds fun used last x => D (nodes used) last x) :
    (separated item).Finds fun used last xs => Separated D (nodes used) last xs := by
  intro ts xs rest hxs
  obtain ⟨used, hused, hitems⟩ := separated_items h ts xs rest hxs
  exact ⟨used, hused, hitems.separated⟩

end Reader

namespace Expr

open Reader Stmt

/-- Reads a phrase of the grammar. -/
def phraseReader (d : Goal → Reader (Expr Span)) : Phrase → Reader (Expr Span)
  | .level .disjunction => disjunction d
  | .level .conjunction => conjunction d
  | .level .comparison => comparison d
  | .level .sum => sum d
  | .level .product => product d
  | .level .power => power d
  | .factor => factor d
  | .exponent => exponent d
  | .primary => primary d

theorem phraseReader_level (d : Goal → Reader (Expr Span)) (l : Level) :
    phraseReader d (.level l) = phraseReader d l.first >>= chain d l := by
  cases l <;> rfl

theorem operand_eq (d : Goal → Reader (Expr Span)) (l : Level) :
    operand d l = phraseReader d l.operand := by
  cases l <;> rfl

theorem operator?_eq_some {l : Level} {op : Op} {ts rest : List (Spanned Token)} :
    operator? l ts = .ok (some op, rest) ↔
      op.level = l ∧ ∃ span, ts = ⟨.op op, span⟩ :: rest := by
  unfold operator?
  split
  · rename_i o span us
    by_cases ho : o.level = l
    · subst ho
      simp only [if_true, Except.ok.injEq, Prod.mk.injEq, Option.some.injEq]
      constructor
      · rintro ⟨rfl, rfl⟩
        exact ⟨rfl, span, rfl⟩
      · rintro ⟨-, span', h⟩
        cases h
        exact ⟨rfl, rfl⟩
    · rw [if_neg ho]
      constructor
      · nofun
      · rintro ⟨hop, span', h⟩
        cases h
        exact absurd hop ho
  · rename_i hne
    constructor
    · nofun
    · rintro ⟨-, span, rfl⟩
      exact absurd rfl (hne op span rest)

theorem operator?_eq_none {l : Level} {ts rest : List (Spanned Token)} :
    operator? l ts = .ok (none, rest) ↔
      ts = rest ∧ ∀ t ∈ ts.head?, ∀ op : Op, t.node = .op op → op.level ≠ l := by
  unfold operator?
  split
  · rename_i o span us
    by_cases ho : o.level = l
    · rw [if_pos ho]
      constructor
      · nofun
      · rintro ⟨-, h⟩
        exact absurd ho (h _ rfl o rfl)
    · rw [if_neg ho]
      simp [ho]
  · rename_i hne
    simp only [Except.ok.injEq, Prod.mk.injEq, true_and]
    constructor
    · rintro rfl
      refine ⟨rfl, fun t ht op hop => ?_⟩
      obtain ⟨us, rfl⟩ := List.head?_eq_some_iff.mp ht
      obtain ⟨node, span⟩ := t
      cases hop
      exact absurd rfl (hne op span us)
    · exact And.left

theorem sign?_eq_some {sign : Sign} {span : Span} {ts rest : List (Spanned Token)} :
    sign? ts = .ok (some (sign, span), rest) ↔ ts = ⟨.op sign.op, span⟩ :: rest := by
  unfold sign?
  split
  · cases sign <;> simp [Sign.op]
  · cases sign <;> simp [Sign.op]
  · rename_i hplus hminus
    constructor
    · nofun
    · rintro rfl
      cases sign with
      | plus => exact absurd rfl (hplus span rest)
      | minus => exact absurd rfl (hminus span rest)

theorem sign?_eq_none {ts rest : List (Spanned Token)} :
    sign? ts = .ok (none, rest) ↔
      ts = rest ∧ ∀ t ∈ ts.head?, ∀ sign : Sign, t.node ≠ .op sign.op := by
  unfold sign?
  split
  · constructor
    · nofun
    · rintro ⟨-, h⟩
      exact absurd rfl (h _ rfl .plus)
  · constructor
    · nofun
    · rintro ⟨-, h⟩
      exact absurd rfl (h _ rfl .minus)
  · rename_i hplus hminus
    simp only [Except.ok.injEq, Prod.mk.injEq, true_and]
    constructor
    · rintro rfl
      refine ⟨rfl, fun t ht sign hsign => ?_⟩
      obtain ⟨us, rfl⟩ := List.head?_eq_some_iff.mp ht
      obtain ⟨node, span⟩ := t
      cases sign <;> cases hsign
      · exact absurd rfl (hplus span us)
      · exact absurd rfl (hminus span us)
    · exact And.left

/-- An index is a parenthesis, an expression, and perhaps the closing mark. -/
theorem index?_cases {d : Goal → Reader (Expr Span)}
    {D : List (Spanned Token) → Bool → Expr Span → Prop} (h : (d .whole).Finds D) {n : String}
    {ts rest : List (Spanned Token)} {found : Option (Expr Span × Option Span)}
    (hindex : index? d n ts = .ok (found, rest)) :
    (found = none ∧ ts = rest) ∨ ∃ e closed span used mid, found = some (e, closed) ∧
      (Region.of n).isIndexable = true ∧ ts = ⟨.mark .leftParen, span⟩ :: (used ++ mid) ∧
      D used (endsHere mid) e ∧ close .rightParen mid = .ok (closed, rest) := by
  unfold index? at hindex
  by_cases hn : (Region.of n).isIndexable = true
  · rw [if_pos hn] at hindex
    obtain ⟨paren, mid, heat, hmore⟩ := bind_eq_ok.mp hindex
    cases paren with
    | none =>
      cases hmore
      exact .inl ⟨rfl, (eat?_eq_none.mp heat).1⟩
    | some span =>
      obtain rfl := eat?_eq_some.mp heat
      obtain ⟨e, mid', he, hclose⟩ := bind_eq_ok.mp hmore
      obtain ⟨used, rfl, hD⟩ := h _ _ _ he
      obtain ⟨closed, us, hclosed, hp⟩ := bind_eq_ok.mp hclose
      cases hp
      exact .inr ⟨e, closed, span, used, mid', rfl, hn, rfl, hD, hclosed⟩
  · rw [if_neg hn] at hindex
    cases hindex
    exact .inl ⟨rfl, rfl⟩

/-- A property of readers that signs and the operators of each level keep is one of all phrases, if
the primaries have it. -/
theorem phraseReader_induction {d : Goal → Reader (Expr Span)} {P : Reader (Expr Span) → Prop}
    (hprimary : P (primary d)) (hlevel : ∀ l r, P r → P (r >>= chain d l))
    (hsigns : ∀ l r, P r → P (signs d l r)) (ph : Phrase) : P (phraseReader d ph) := by
  have hpower := hlevel .power _ hprimary
  have hfactor := hsigns .product _ hpower
  have hproduct := hlevel .product _ hfactor
  have hsum := hlevel .sum _ hproduct
  have hcomparison := hlevel .comparison _ hsum
  have hconjunction := hlevel .conjunction _ hcomparison
  cases ph with
  | primary => exact hprimary
  | exponent => exact hsigns .power _ hprimary
  | factor => exact hfactor
  | level l =>
    cases l with
    | power => exact hpower
    | product => exact hproduct
    | sum => exact hsum
    | comparison => exact hcomparison
    | conjunction => exact hconjunction
    | disjunction => exact hlevel .disjunction _ hconjunction

/-! ## What is read is derived -/

/-- What it means that a reader for a goal finds what the grammar derives. -/
def Goal.Sound (r : Reader (Expr Span)) : Goal → Prop
  | whole => r.Finds fun used last e => Phrase.whole.Derives (nodes used) last e.bare
  | operand l => r.Finds fun used last e => l.operand.Derives (nodes used) last e.bare
  | chain l left => ∀ before ts e rest, r ts = .ok (e, rest) →
      (Phrase.level l).Derives before (endsHere ts) left.bare →
      ∃ used, ts = used ++ rest ∧
        (Phrase.level l).Derives (before ++ nodes used) (endsHere rest) e.bare

section Sound

variable {d : Goal → Reader (Expr Span)} (hd : ∀ g : Goal, g.Sound (d g))

/-- The reader of a phrase finds what the grammar derives. -/
def PhraseSound (d : Goal → Reader (Expr Span)) (ph : Phrase) : Prop :=
  (phraseReader d ph).Finds fun used last e => ph.Derives (nodes used) last e.bare

theorem index?_finds (h : (Goal.whole).Sound (d .whole)) {n : String}
    {ts rest : List (Spanned Token)} {index? : Option (Expr Span × Option Span)}
    (hindex : Expr.index? d n ts = .ok (index?, rest)) :
    (index? = none ∧ ts = rest) ∨ ∃ p span used cs inner, index? = some p ∧
      (Region.of n).isIndexable = true ∧ ts = ⟨.mark .leftParen, span⟩ :: (used ++ cs ++ rest) ∧
      Phrase.whole.Derives (nodes used) inner p.1.bare ∧
      Closing .rightParen inner (endsHere rest) (nodes cs) := by
  have hwhole : (d .whole).Finds fun used last e => Phrase.whole.Derives (nodes used) last e.bare := h
  obtain ⟨rfl, rfl⟩ | ⟨e, closed, span, used, mid, rfl, hn, rfl, hderives, hclosed⟩ :=
    index?_cases hwhole hindex
  · exact .inl ⟨rfl, rfl⟩
  · obtain ⟨cs, rfl, hclosing⟩ := close_finds hclosed
    exact .inr ⟨_, span, used, cs, _, rfl, hn, by simp, hderives, hclosing⟩

include hd

theorem primary_sound : PhraseSound d .primary := by
  intro ts e rest h
  change primary d ts = _ at h
  unfold primary at h
  split at h
  case h_1 x span us =>
    cases h
    exact ⟨[⟨.number x, span⟩], rfl, .number x⟩
  case h_2 n span us =>
    obtain ⟨index?, mid, hindex, hmore⟩ := bind_eq_ok.mp h
    obtain ⟨rfl, rfl⟩ | ⟨p, paren, used, cs, inner, rfl, hn, rfl, hderives, hclosing⟩ :=
      index?_finds (hd .whole) hindex
    · cases hmore
      exact ⟨[⟨.name n, span⟩], rfl, .name n⟩
    · cases hmore
      refine ⟨⟨.name n, span⟩ :: ⟨.mark .leftParen, paren⟩ :: (used ++ cs), by simp, ?_⟩
      simpa using .element hn hderives hclosing
  case h_3 span us =>
    obtain ⟨inner, mid, hinner, hmore⟩ := bind_eq_ok.mp h
    obtain ⟨used, rfl, hderives⟩ := hd .whole _ _ _ hinner
    obtain ⟨closed, mid', hclosed, he⟩ := bind_eq_ok.mp hmore
    cases he
    obtain ⟨cs, rfl, hclosing⟩ := close_finds hclosed
    refine ⟨⟨.mark .leftParen, span⟩ :: (used ++ cs), by simp, ?_⟩
    simpa using .group hderives hclosing
  case h_4 span us =>
    obtain ⟨items, mid, hitems, hmore⟩ := bind_eq_ok.mp h
    obtain ⟨used, rfl, hseparated⟩ := separated_finds
      (D := fun ts last (e : Expr Span) => Phrase.whole.Derives ts last e.bare) (hd .whole) _ _ _
      hitems
    obtain ⟨closed, mid', hclosed, he⟩ := bind_eq_ok.mp hmore
    cases he
    obtain ⟨cs, rfl, hclosing⟩ := close_finds hclosed
    refine ⟨⟨.mark .leftBrace, span⟩ :: (used ++ cs), by simp, ?_⟩
    obtain ⟨before, us, x, hbefore, hx, hnodes, hbare⟩ :=
      Separated.iff_items.mp (hseparated.map (f := bare) fun _ _ _ _ h => h)
    rw [bare_list, hbare, nodes_cons, nodes_append, hnodes]
    exact .list hbefore hx hclosing
  case h_5 => cases h

theorem chain_sound (l : Level) (left : Expr Span) :
    (Goal.chain l left).Sound (chain d l left) := by
  intro before ts e rest h hleft
  obtain ⟨op?, mid, hop, hmore⟩ := bind_eq_ok.mp h
  cases op? with
  | none =>
    cases hmore
    obtain ⟨rfl, -⟩ := operator?_eq_none.mp hop
    exact ⟨[], rfl, by simpa using hleft⟩
  | some op =>
    obtain ⟨rfl, span, rfl⟩ := operator?_eq_some.mp hop
    obtain ⟨right, mid', hright, hjoined⟩ := bind_eq_ok.mp hmore
    obtain ⟨used, rfl, hderives⟩ := hd (.operand op.level) _ _ _ hright
    have hjoin := Phrase.Derives.operation hleft hderives
    obtain ⟨used', rfl, he⟩ := hd (.chain op.level (join left op right)) _ _ _ _ hjoined hjoin
    refine ⟨⟨.op op, span⟩ :: (used ++ used'), by simp, ?_⟩
    simpa using he

theorem level_sound (l : Level) (h : PhraseSound d l.first) : PhraseSound d (.level l) := by
  intro ts e rest he
  rw [phraseReader_level] at he
  obtain ⟨left, mid, hleft, hchain⟩ := bind_eq_ok.mp he
  obtain ⟨used, rfl, hderives⟩ := h _ _ _ hleft
  obtain ⟨used', rfl, hderives'⟩ := chain_sound hd l left _ _ _ _ hchain (.first hderives)
  exact ⟨used ++ used', by simp, by simpa using hderives'⟩

/-- Signs before a phrase. -/
theorem signs_sound (l : Level) {plain : Phrase} (h : PhraseSound d plain)
    (hplain : ∀ {ts last e}, plain.Derives ts last e → l.operand.Derives ts last e)
    (hsigned : ∀ {ts last e} (sign : Sign), l.operand.Derives ts last e →
      l.operand.Derives (.op sign.op :: ts) last (.signed () sign e)) :
    (signs d l (phraseReader d plain)).Finds
      fun used last e => l.operand.Derives (nodes used) last e.bare := by
  intro ts e rest he
  obtain ⟨sign?, mid, hsign, hmore⟩ := bind_eq_ok.mp he
  cases sign? with
  | none =>
    obtain ⟨rfl, -⟩ := sign?_eq_none.mp hsign
    obtain ⟨used, hused, hderives⟩ := h _ _ _ hmore
    exact ⟨used, hused, hplain hderives⟩
  | some p =>
    obtain ⟨sign, span⟩ := p
    obtain rfl := sign?_eq_some.mp hsign
    obtain ⟨operand, mid', hoperand, hjoined⟩ := bind_eq_ok.mp hmore
    cases hjoined
    obtain ⟨used, rfl, hderives⟩ := hd (.operand l) _ _ _ hoperand
    exact ⟨⟨.op sign.op, span⟩ :: used, rfl, hsigned sign hderives⟩

theorem phrase_sound (ph : Phrase) : PhraseSound d ph := by
  have hpower := level_sound hd .power (primary_sound hd)
  have hfactor : PhraseSound d .factor :=
    signs_sound hd .product hpower .plainFactor .signedFactor
  have hproduct := level_sound hd .product hfactor
  have hsum := level_sound hd .sum hproduct
  have hcomparison := level_sound hd .comparison hsum
  have hconjunction := level_sound hd .conjunction hcomparison
  cases ph with
  | primary => exact primary_sound hd
  | exponent => exact signs_sound hd .power (primary_sound hd) .plainExponent .signedExponent
  | factor => exact hfactor
  | level l =>
    cases l with
    | power => exact hpower
    | product => exact hproduct
    | sum => exact hsum
    | comparison => exact hcomparison
    | conjunction => exact hconjunction
    | disjunction => exact level_sound hd .disjunction hconjunction

theorem reach_sound (g : Goal) : g.Sound (reach d g) := by
  cases g with
  | whole => exact phrase_sound hd .whole
  | operand l =>
    have h := phrase_sound hd l.operand
    unfold PhraseSound at h
    rw [← operand_eq] at h
    exact h
  | chain l left => exact chain_sound hd l left

end Sound

theorem sound_fail (cause : Cause) (g : Goal) : g.Sound (fail cause) := by
  cases g with
  | whole => exact nofun
  | operand l => exact nofun
  | chain l left => exact nofun

theorem read_sound (room : Nat) (g : Goal) : g.Sound (read room g) := by
  induction room generalizing g with
  | zero => exact reach_sound (sound_fail .tooDeep) g
  | succ room ih => exact reach_sound ih g

theorem reader_finds (room : Nat) :
    (reader room).Finds fun used last e => Phrase.whole.Derives (nodes used) last e.bare := by
  cases room with
  | zero => exact sound_fail .tooDeep .whole
  | succ room => exact read_sound room .whole

end Expr

/-! ## What follows an expression -/

/-- How tight a token holds on to an expression before it. -/
def Token.hold : Token → Nat
  | op o => o.level.rank + 1
  | mark .leftParen => 7
  | _ => 0

/-- The tokens leave an expression of the rank before them as it is. -/
def Leaves (rank : Nat) (rest : List (Spanned Token)) : Prop := ∀ t ∈ rest.head?, t.node.hold ≤ rank

theorem Leaves.mono {rank rank' : Nat} {rest : List (Spanned Token)} (h : Leaves rank rest)
    (hle : rank ≤ rank') : Leaves rank' rest := fun t ht => (h t ht).trans hle

theorem leaves_cons {rank : Nat} {node : Token} (h : node.hold ≤ rank) (span : Span)
    (rest : List (Spanned Token)) : Leaves rank (⟨node, span⟩ :: rest) := by
  rintro t ⟨⟩
  exact h

theorem leaves_of_endsHere {rest : List (Spanned Token)} (h : Stmt.endsHere rest = true)
    (rank : Nat) : Leaves rank rest := by
  rcases rest with _ | ⟨⟨node, span⟩, rest⟩
  · exact nofun
  · obtain rfl : node = .separator := by simpa [Stmt.endsHere] using h
    exact leaves_cons (Nat.zero_le _) span rest

/-- How tight a token may hold on to a phrase such that the phrase is still read first. An operator
of a level may follow an expression of the same level, which it takes as its left operand. -/
def Phrase.grasp : Phrase → Nat
  | level l => l.rank + 1
  | ph => ph.rank

theorem Phrase.rank_le_grasp (ph : Phrase) : ph.rank ≤ ph.grasp := by
  cases ph with
  | level l => exact Nat.le_succ _
  | _ => exact Nat.le_refl _

/-- Whether a token begins a primary. -/
def Token.begins : Token → Bool
  | number _ | name _ | mark .leftParen | mark .leftBrace => true
  | _ => false

/-- Whether a phrase begins without a sign. -/
def Phrase.isPlain : Phrase → Bool
  | level .power | primary => true
  | _ => false

theorem Level.isPlain_first {l : Level} (h : (Phrase.level l).isPlain = true) :
    l.first.isPlain = true := by
  cases l <;> first | rfl | cases h

theorem Phrase.Derives.exists_head {ph : Phrase} {ts : List Token} {last : Bool} {e : Expr Unit}
    (h : ph.Derives ts last e) : ∃ t us, ts = t :: us ∧
      (t.begins = true ∨ ph.isPlain = false ∧ ∃ sign : Sign, t = .op sign.op) := by
  induction h with
  | first _ ih =>
    obtain ⟨t, us, rfl, ht | ⟨hplain, hsign⟩⟩ := ih
    · exact ⟨t, us, rfl, .inl ht⟩
    · refine ⟨t, us, rfl, .inr ⟨?_, hsign⟩⟩
      rw [← Bool.not_eq_true] at hplain ⊢
      exact fun h => hplain (Level.isPlain_first h)
  | operation _ _ ih _ =>
    obtain ⟨t, us, rfl, ht⟩ := ih
    exact ⟨t, _, rfl, ht⟩
  | plainFactor _ ih | plainExponent _ ih =>
    obtain ⟨t, us, rfl, ht | ⟨-, hsign⟩⟩ := ih
    · exact ⟨t, us, rfl, .inl ht⟩
    · exact ⟨t, us, rfl, .inr ⟨rfl, hsign⟩⟩
  | signedFactor sign | signedExponent sign => exact ⟨_, _, rfl, .inr ⟨rfl, sign, rfl⟩⟩
  | number | name | element | group | list => exact ⟨_, _, rfl, .inl rfl⟩

/-! ## What is derived is read -/

namespace Reader

open Stmt

variable {α β : Type}

/-- The reader makes `x` of the tokens, up to the view, whatever follows, as long as it does not
hold on to them. -/
def Readable (r : Reader α) (view : α → β) (ts : List Token) (last : Bool) (x : β) : Prop :=
  ∀ us rest, nodes us = ts → (last = true → endsHere rest = true) → Leaves 0 rest →
    ∃ y, view y = x ∧ r (us ++ rest) = .ok (y, rest)

theorem close_written {m : Mark} (span : Span) (rest : List (Spanned Token)) :
    close m (⟨.mark m, span⟩ :: rest) = .ok (some span, rest) :=
  bind_eq_ok.mpr ⟨some span, rest, eat?_eq_some.mpr rfl, rfl⟩

theorem close_omitted {m : Mark} {rest : List (Spanned Token)} (hends : endsHere rest = true) :
    close m rest = .ok (none, rest) := by
  have heat : eat? (.mark m) rest = .ok (none, rest) := by
    refine eat?_eq_none.mpr ⟨rfl, fun t ht hnode => ?_⟩
    obtain ⟨vs, rfl⟩ := List.head?_eq_some_iff.mp ht
    simp [endsHere, hnode] at hends
  refine bind_eq_ok.mpr ⟨none, rest, heat, bind_eq_ok.mpr ⟨true, rest, ?_, rfl⟩⟩
  rw [atEnd_eq, hends]

theorem close_of_closing {m : Mark} {inner last : Bool} {cs : List Token}
    (h : Closing m inner last cs) {us rest : List (Spanned Token)} (hus : nodes us = cs)
    (hlast : last = true → endsHere rest = true) :
    ∃ closed, close m (us ++ rest) = .ok (closed, rest) := by
  cases h with
  | written =>
    obtain ⟨span, rfl⟩ := nodes_eq_singleton.mp hus
    exact ⟨some span, close_written span rest⟩
  | omitted =>
    obtain rfl := List.map_eq_nil_iff.mp hus
    exact ⟨none, close_omitted (hlast rfl)⟩

/-- Behind the content of a bracket stands its closing mark, or the statement ends. -/
theorem closing_head {m : Mark} {inner last : Bool} {cs : List Token}
    (h : Closing m inner last cs) {us rest : List (Spanned Token)} (hus : nodes us = cs)
    (hlast : last = true → endsHere rest = true) :
    (inner = true → endsHere (us ++ rest) = true) ∧
      ∀ t ∈ (us ++ rest).head?, t.node = .mark m ∨ t.node = .separator := by
  cases h with
  | written =>
    obtain ⟨span, vs, rfl, -⟩ := nodes_eq_cons.mp hus
    refine ⟨nofun, ?_⟩
    rintro t ⟨⟩
    exact .inl rfl
  | omitted =>
    obtain rfl := List.map_eq_nil_iff.mp hus
    have hends := hlast rfl
    refine ⟨fun _ => hends, fun t ht => .inr ?_⟩
    obtain ⟨vs, rfl⟩ := List.head?_eq_some_iff.mp ht
    simpa [endsHere] using hends

theorem commaItems_reads {item : Reader α} {view : α → β} {ts : List Token} {last : Bool}
    {xs : List β} (h : Separated (Readable item view) ts last xs) {us rest : List (Spanned Token)}
    (hus : nodes us = ts) (hlast : last = true → endsHere rest = true) (hrest : Leaves 0 rest)
    (hcomma : ∀ t ∈ rest.head?, t.node ≠ .mark .comma) (items : List α) (span : Span) (fuel : Nat)
    (hfuel : us.length < fuel) :
    ∃ ys, ys.map view = xs ∧
      commaItems item items fuel (⟨.mark .comma, span⟩ :: (us ++ rest)) =
        .ok (items.reverse ++ ys, rest) := by
  obtain ⟨fuel, rfl⟩ : ∃ k, fuel = k + 1 := ⟨fuel - 1, by omega⟩
  induction h generalizing us items span fuel with
  | one hx =>
    obtain ⟨y, rfl, hy⟩ := hx us rest hus hlast hrest
    refine ⟨[y], rfl, bind_eq_ok.mpr ⟨some span, _, eat?_eq_some.mpr rfl, ?_⟩⟩
    refine bind_eq_ok.mpr ⟨y, rest, hy, ?_⟩
    rw [commaItems_of_ne _ _ _ hcomma, List.reverse_cons]
  | more hx _ ih =>
    obtain ⟨us₁, us₂, rfl, hus₁, hus₂⟩ := nodes_eq_append.mp hus
    obtain ⟨span', vs, rfl, hvs⟩ := nodes_eq_cons.mp hus₂
    obtain ⟨y, rfl, hy⟩ := hx us₁ (⟨.mark .comma, span'⟩ :: (vs ++ rest)) hus₁ nofun
      (leaves_cons (Nat.le_refl _) _ _)
    rw [List.length_append, List.length_cons] at hfuel
    obtain ⟨fuel, rfl⟩ : ∃ k, fuel = k + 1 := ⟨fuel - 1, by omega⟩
    obtain ⟨ys, rfl, hys⟩ := ih hvs hlast (y :: items) span' fuel (by omega)
    rw [List.append_assoc, List.cons_append]
    refine ⟨y :: ys, rfl, bind_eq_ok.mpr ⟨some span, _, eat?_eq_some.mpr rfl, ?_⟩⟩
    refine bind_eq_ok.mpr ⟨y, _, hy, ?_⟩
    rw [hys]
    simp

theorem separated_reads {item : Reader α} {view : α → β} {ts : List Token} {last : Bool}
    {xs : List β} (h : Separated (Readable item view) ts last xs) {us rest : List (Spanned Token)}
    (hus : nodes us = ts) (hlast : last = true → endsHere rest = true) (hrest : Leaves 0 rest)
    (hcomma : ∀ t ∈ rest.head?, t.node ≠ .mark .comma) :
    ∃ ys, ys.map view = xs ∧ separated item (us ++ rest) = .ok (ys, rest) := by
  cases h with
  | one hx =>
    obtain ⟨y, rfl, hy⟩ := hx us rest hus hlast hrest
    refine ⟨[y], rfl, bind_eq_ok.mpr ⟨y, rest, hy, ?_⟩⟩
    change commaItems item [y] rest.length rest = _
    rw [commaItems_of_ne _ _ _ hcomma]
    rfl
  | more hx hxs =>
    obtain ⟨us₁, us₂, rfl, hus₁, hus₂⟩ := nodes_eq_append.mp hus
    obtain ⟨span, vs, rfl, hvs⟩ := nodes_eq_cons.mp hus₂
    obtain ⟨y, rfl, hy⟩ := hx us₁ (⟨.mark .comma, span⟩ :: (vs ++ rest)) hus₁ nofun
      (leaves_cons (Nat.le_refl _) _ _)
    obtain ⟨ys, rfl, hys⟩ := commaItems_reads hxs hvs hlast hrest hcomma [y] span
      (⟨.mark .comma, span⟩ :: (vs ++ rest)).length
      (by simp only [List.length_cons, List.length_append]; omega)
    rw [List.append_assoc, List.cons_append]
    exact ⟨y :: ys, rfl, bind_eq_ok.mpr ⟨y, _, hy, hys⟩⟩

end Reader

namespace Expr

open Reader Stmt

/-- Goes on behind an expression of the phrase, with the room that its operators have left. -/
def onward (room : Nat) (t : Expr Span) : Phrase → Reader (Expr Span)
  | .level l => chain (deeper (room - t.run l)) l t
  | _ => pure t

theorem onward_of_leaves {room : Nat} {t : Expr Span} {ph : Phrase} {rest : List (Spanned Token)}
    (h : Leaves ph.rank rest) : onward room t ph rest = .ok (t, rest) := by
  cases ph with
  | level l =>
    refine bind_eq_ok.mpr ⟨none, rest, operator?_eq_none.mpr ⟨rfl, fun u hu op hop => ?_⟩, rfl⟩
    have hle := h u hu
    rw [hop] at hle
    rintro rfl
    exact Nat.not_succ_le_self _ hle
  | _ => rfl

/-- The tokens are read as the expression, if there is room for its levels. -/
def Read (ph : Phrase) (ts : List Token) (last : Bool) (e : Expr Unit) : Prop :=
  ∀ room us rest, e.need ≤ room → nodes us = ts → (last = true → endsHere rest = true) →
    Leaves ph.grasp rest →
    ∃ t, t.bare = e ∧ phraseReader (deeper room) ph (us ++ rest) = onward room t ph rest

variable {ts us : List Token} {last : Bool} {e left right : Expr Unit}

theorem Read.of_leaves {ph : Phrase} (h : Read ph ts last e) {room : Nat} (hroom : e.need ≤ room)
    {us rest : List (Spanned Token)} (hus : nodes us = ts)
    (hlast : last = true → endsHere rest = true) (hrest : Leaves ph.rank rest) :
    ∃ t, t.bare = e ∧ phraseReader (deeper room) ph (us ++ rest) = .ok (t, rest) := by
  obtain ⟨t, ht, hread⟩ := h room us rest hroom hus hlast (hrest.mono ph.rank_le_grasp)
  rw [onward_of_leaves hrest] at hread
  exact ⟨t, ht, hread⟩

theorem Read.readable (h : Read .whole ts last e) {room : Nat} (hroom : e.need < room) :
    Readable (deeper room .whole) bare ts last e := by
  obtain ⟨m, rfl⟩ : ∃ m, room = m + 1 := ⟨room - 1, by omega⟩
  intro us rest hus hlast hrest
  have hread : deeper (m + 1) .whole = phraseReader (deeper m) .whole :=
    congrFun (read_eq_reach m) .whole
  rw [hread]
  exact h.of_leaves (Nat.le_of_lt_succ hroom) hus hlast hrest

theorem Read.first {l : Level} (hderives : l.first.Derives ts last e) (h : Read l.first ts last e) :
    Read (.level l) ts last e := by
  intro room us rest hroom hus hlast hrest
  have hrest : Leaves l.first.rank rest := by
    rw [l.rank_first]
    exact hrest
  obtain ⟨t, rfl, hread⟩ := h.of_leaves hroom hus hlast hrest
  have hrun : t.run l = 0 := by
    rw [← run_bare]
    exact hderives.run_first
  refine ⟨t, rfl, ?_⟩
  rw [phraseReader_level, bind_apply, hread, onward, hrun]
  rfl

/-- One round of a chain: the operator and its right operand join the left one. -/
theorem chain_round {op : Op} {m : Nat} {ws rest : List (Spanned Token)} {r : Expr Span}
    (hright : phraseReader (deeper m) op.level.operand ws = .ok (r, rest)) (l : Expr Span)
    (span : Span) :
    chain (deeper (m + 1)) op.level l (⟨.op op, span⟩ :: ws) =
      chain (deeper m) op.level (join l op r) rest := by
  have hop : operator? op.level (⟨.op op, span⟩ :: ws) = .ok (some op, ws) :=
    operator?_eq_some.mpr ⟨rfl, span, rfl⟩
  have hoperand :
      deeper (m + 1) (.operand op.level) = phraseReader (deeper m) op.level.operand := by
    rw [← operand_eq]
    exact congrFun (read_eq_reach m) _
  have hchain : deeper (m + 1) (.chain op.level (join l op r)) =
      chain (deeper m) op.level (join l op r) := congrFun (read_eq_reach m) _
  rw [chain, bind_apply, hop]
  change (deeper (m + 1) (.operand op.level) >>= fun right =>
    deeper (m + 1) (.chain op.level (join l op right))) ws = _
  rw [bind_apply, hoperand, hright]
  change deeper (m + 1) (.chain op.level (join l op r)) rest = _
  rw [hchain]

theorem Read.operation {op : Op} (hl : Read (.level op.level) ts false left)
    (hr : Read op.level.operand us last right) :
    Read (.level op.level) (ts ++ .op op :: us) last (.binary () op left right) := by
  intro room ws rest hroom hws hlast hrest
  obtain ⟨ws₁, ws', rfl, hws₁, hws'⟩ := nodes_eq_append.mp hws
  obtain ⟨span, ws₂, rfl, hws₂⟩ := nodes_eq_cons.mp hws'
  have hneed : max left.need (left.run op.level + 1 + right.need) ≤ room := hroom
  obtain ⟨l, rfl, hleft⟩ := hl room ws₁ (⟨.op op, span⟩ :: (ws₂ ++ rest)) (by omega) hws₁ nofun
    (leaves_cons (Nat.le_refl _) span _)
  rw [run_bare] at hneed
  -- the operators before this one have used up their part of the room
  obtain ⟨m, hm⟩ : ∃ m, room - l.run op.level = m + 1 := ⟨room - l.run op.level - 1, by omega⟩
  have hspace : right.need ≤ m := by omega
  have hleaves : Leaves op.level.operand.rank rest := by
    rw [op.level.rank_operand]
    exact hrest
  obtain ⟨r, rfl, hright⟩ := hr.of_leaves hspace hws₂ hlast hleaves
  have hrun : room - (join l op r).run op.level = m := by
    have : (join l op r).run op.level = l.run op.level + 1 := if_pos rfl
    omega
  refine ⟨join l op r, rfl, ?_⟩
  rw [List.append_assoc, List.cons_append, hleft, onward, hm, chain_round hright, onward, hrun]

/-- Signs before a phrase that begins without one. -/
theorem Read.plain (l : Level) {ph : Phrase} (hplain : ph.isPlain = true)
    (hgrasp : ph.rank = l.operand.grasp) (hderives : ph.Derives ts last e) (h : Read ph ts last e)
    {room : Nat} (hroom : e.need ≤ room) {us rest : List (Spanned Token)} (hus : nodes us = ts)
    (hlast : last = true → endsHere rest = true) (hrest : Leaves l.operand.grasp rest) :
    ∃ t, t.bare = e ∧
      signs (deeper room) l (phraseReader (deeper room) ph) (us ++ rest) = .ok (t, rest) := by
  rw [← hgrasp] at hrest
  obtain ⟨t, ht, hread⟩ := h.of_leaves hroom hus hlast hrest
  refine ⟨t, ht, bind_eq_ok.mpr ⟨none, us ++ rest, sign?_eq_none.mpr ⟨rfl, ?_⟩, hread⟩⟩
  obtain ⟨node, ns, rfl, hnode | ⟨hsign, -⟩⟩ := hderives.exists_head
  · obtain ⟨span, vs, rfl, -⟩ := nodes_eq_cons.mp hus
    rintro u ⟨⟩ sign rfl
    cases hnode
  · rw [hplain] at hsign
    cases hsign

theorem Read.signed (l : Level) (sign : Sign) (h : Read l.operand ts last e) {room : Nat}
    (hroom : (Expr.signed () sign e).need ≤ room) {us rest : List (Spanned Token)}
    (hus : nodes us = .op sign.op :: ts) (hlast : last = true → endsHere rest = true)
    (hrest : Leaves l.operand.rank rest) (plain : Reader (Expr Span)) :
    ∃ t, t.bare = .signed () sign e ∧
      signs (deeper room) l plain (us ++ rest) = .ok (t, rest) := by
  obtain ⟨span, vs, rfl, hvs⟩ := nodes_eq_cons.mp hus
  have hneed : e.need + 1 ≤ room := hroom
  obtain ⟨m, rfl⟩ : ∃ m, room = m + 1 := ⟨room - 1, by omega⟩
  obtain ⟨t, rfl, hread⟩ := h.of_leaves (Nat.le_of_succ_le_succ hneed) hvs hlast hrest
  have hoperand : deeper (m + 1) (.operand l) = phraseReader (deeper m) l.operand := by
    rw [← operand_eq]
    exact congrFun (read_eq_reach m) _
  refine ⟨.signed (span.merge t.span) sign t, rfl, ?_⟩
  refine bind_eq_ok.mpr ⟨some (sign, span), vs ++ rest, sign?_eq_some.mpr rfl, ?_⟩
  refine bind_eq_ok.mpr ⟨t, rest, ?_, rfl⟩
  rw [hoperand]
  exact hread

/-- A name is read without an index, if none follows. -/
theorem index?_of_leaves (d : Goal → Reader (Expr Span)) (n : String)
    {rest : List (Spanned Token)} (hrest : Leaves 6 rest) : index? d n rest = .ok (none, rest) := by
  unfold index?
  by_cases hn : (Region.of n).isIndexable = true
  · rw [if_pos hn]
    refine bind_eq_ok.mpr ⟨none, rest, eat?_eq_none.mpr ⟨rfl, fun t ht hnode => ?_⟩, rfl⟩
    have hle := hrest t ht
    rw [hnode] at hle
    exact absurd hle (by decide)
  · rw [if_neg hn]
    rfl

theorem Read.name (n : String) : Read .primary [.name n] last (.var () n) := by
  intro room us rest _ hus _ hrest
  obtain ⟨span, rfl⟩ := nodes_eq_singleton.mp hus
  exact ⟨.var span n, rfl, bind_eq_ok.mpr ⟨none, rest, index?_of_leaves _ n hrest, rfl⟩⟩

section Brackets

variable {cs : List Token} {inner : Bool} {us rest : List (Spanned Token)}

/-- The content of parentheses and their end. -/
theorem reads_parenthesised {r : Reader (Expr Span)} (h : Readable r bare ts inner e)
    (hc : Closing .rightParen inner last cs) (hus : nodes us = ts ++ cs)
    (hlast : last = true → endsHere rest = true) :
    ∃ t closed mid, t.bare = e ∧ r (us ++ rest) = .ok (t, mid) ∧
      close .rightParen mid = .ok (closed, rest) := by
  obtain ⟨us₁, us₂, rfl, hus₁, hus₂⟩ := nodes_eq_append.mp hus
  obtain ⟨hinner, hhead⟩ := closing_head hc hus₂ hlast
  obtain ⟨closed, hclosed⟩ := close_of_closing hc hus₂ hlast
  have hleaves : Leaves 0 (us₂ ++ rest) := by
    intro t ht
    rcases hhead t ht with hnode | hnode <;> rw [hnode] <;> exact Nat.le_refl _
  obtain ⟨t, ht, hread⟩ := h us₁ (us₂ ++ rest) hus₁ hinner hleaves
  rw [List.append_assoc]
  exact ⟨t, closed, _, ht, hread, hclosed⟩

/-- The index behind a name that can have one. -/
theorem index?_reads {d : Goal → Reader (Expr Span)} {n : String}
    (hn : (Region.of n).isIndexable = true) (h : Readable (d .whole) bare ts inner e)
    (hc : Closing .rightParen inner last cs) (hus : nodes us = .mark .leftParen :: (ts ++ cs))
    (hlast : last = true → endsHere rest = true) :
    ∃ t closed, t.bare = e ∧ index? d n (us ++ rest) = .ok (some (t, closed), rest) := by
  obtain ⟨paren, vs, rfl, hvs⟩ := nodes_eq_cons.mp hus
  obtain ⟨t, closed, mid, ht, hread, hclosed⟩ := reads_parenthesised h hc hvs hlast
  refine ⟨t, closed, ht, ?_⟩
  rw [index?, if_pos hn]
  refine bind_eq_ok.mpr ⟨some paren, vs ++ rest, eat?_eq_some.mpr rfl, ?_⟩
  exact bind_eq_ok.mpr ⟨t, mid, hread, bind_eq_ok.mpr ⟨closed, rest, hclosed, rfl⟩⟩

end Brackets

theorem Read.element {cs : List Token} {inner : Bool} {n : String}
    (hn : (Region.of n).isIndexable = true) (h : Read .whole ts inner e)
    (hc : Closing .rightParen inner last cs) :
    Read .primary (.name n :: .mark .leftParen :: (ts ++ cs)) last (.element () n e) := by
  intro room us rest hroom hus hlast _
  obtain ⟨span, vs, rfl, hvs⟩ := nodes_eq_cons.mp hus
  obtain ⟨t, closed, rfl, hindex⟩ := index?_reads hn (h.readable hroom) hc hvs hlast
  exact ⟨.element (span.merge (closed.getD t.span)) n t, rfl,
    bind_eq_ok.mpr ⟨some (t, closed), rest, hindex, rfl⟩⟩

theorem Read.group {cs : List Token} {inner : Bool} (h : Read .whole ts inner e)
    (hc : Closing .rightParen inner last cs) :
    Read .primary (.mark .leftParen :: (ts ++ cs)) last (.group () e) := by
  intro room us rest hroom hus hlast _
  obtain ⟨span, vs, rfl, hvs⟩ := nodes_eq_cons.mp hus
  obtain ⟨t, closed, mid, rfl, hread, hclosed⟩ :=
    reads_parenthesised (h.readable hroom) hc hvs hlast
  refine ⟨.group (span.merge (closed.getD t.span)) t, rfl, ?_⟩
  exact bind_eq_ok.mpr ⟨t, mid, hread, bind_eq_ok.mpr ⟨closed, rest, hclosed, rfl⟩⟩

theorem Read.list {cs : List Token} {inner : Bool} {es : List (Expr Unit)}
    (h : Separated (Read .whole) ts inner es) (hc : Closing .rightBrace inner last cs) :
    Read .primary (.mark .leftBrace :: (ts ++ cs)) last (.list () es) := by
  intro room us rest hroom hus hlast _
  obtain ⟨span, vs, rfl, hvs⟩ := nodes_eq_cons.mp hus
  obtain ⟨us₁, us₂, rfl, hus₁, hus₂⟩ := nodes_eq_append.mp hvs
  obtain ⟨hinner, hhead⟩ := closing_head hc hus₂ hlast
  obtain ⟨closed, hclosed⟩ := close_of_closing hc hus₂ hlast
  have hreadable : Separated (Readable (deeper room .whole) bare) ts inner es :=
    h.imp fun _ _ e he hread =>
      hread.readable (Nat.lt_of_le_of_lt (needAll_le.mp (Nat.le_refl _) e he) hroom)
  have hleaves : Leaves 0 (us₂ ++ rest) := by
    intro t ht
    rcases hhead t ht with hnode | hnode <;> rw [hnode] <;> exact Nat.le_refl _
  have hcomma : ∀ t ∈ (us₂ ++ rest).head?, t.node ≠ .mark .comma := by
    intro t ht
    rcases hhead t ht with hnode | hnode <;> rw [hnode] <;> exact nofun
  obtain ⟨items, rfl, hitems⟩ := separated_reads hreadable hus₁ hinner hleaves hcomma
  let final := (items.getLast?.map Expr.span).getD span
  refine ⟨.list (span.merge (closed.getD final)) items, bare_list _ items, ?_⟩
  rw [List.cons_append, List.append_assoc]
  exact bind_eq_ok.mpr ⟨items, _, hitems, bind_eq_ok.mpr ⟨closed, rest, hclosed, rfl⟩⟩

end Expr

open CalcBasic.Expr Reader in
/-- What is derived is read. -/
theorem Phrase.Derives.reads {ph : Phrase} {ts : List Token} {last : Bool} {e : Expr Unit}
    (h : ph.Derives ts last e) : Read ph ts last e := by
  induction h with
  | first hderives ih => exact .first hderives ih
  | operation _ _ ihl ihr => exact ihl.operation ihr
  | plainFactor hderives ih =>
    intro room us rest hroom hus hlast hrest
    exact ih.plain .product rfl rfl hderives hroom hus hlast hrest
  | signedFactor sign _ ih =>
    intro room us rest hroom hus hlast hrest
    exact Read.signed .product sign ih hroom hus hlast hrest _
  | plainExponent hderives ih =>
    intro room us rest hroom hus hlast hrest
    exact ih.plain .power rfl rfl hderives hroom hus hlast hrest
  | signedExponent sign _ ih =>
    intro room us rest hroom hus hlast hrest
    exact Read.signed .power sign ih hroom hus hlast hrest _
  | number x =>
    intro room us rest _ hus _ _
    obtain ⟨span, rfl⟩ := nodes_eq_singleton.mp hus
    exact ⟨.literal span x, rfl, rfl⟩
  | name n => exact .name n
  | element hn _ hc ih => exact .element hn ih hc
  | group _ hc ih => exact ih.group hc
  | list _ _ hc ihs ih => exact .list (Separated.iff_items.mpr ⟨_, _, _, ihs, ih, rfl, rfl⟩) hc

namespace Expr

open Reader Stmt

/-- An expression that is derived is read with room for its levels, if what follows does not hold on
to it. -/
theorem reader_reads {ts : List Token} {last : Bool} {e : Expr Unit}
    (h : Phrase.whole.Derives ts last e) {room : Nat} (hroom : e.levels ≤ room) :
    Readable (reader room) bare ts last e := h.reads.readable hroom

end Expr

/-- The tokens write one expression. -/
theorem Phrase.Derives.unique {ts : List Token} {e e' : Expr Unit}
    (h : Phrase.whole.Derives ts true e) (h' : Phrase.whole.Derives ts true e') : e = e' := by
  -- with room for both, the reader gives the one and the other
  have hroom : e.levels ≤ max e.levels e'.levels := Nat.le_max_left _ _
  have hroom' : e'.levels ≤ max e.levels e'.levels := Nat.le_max_right _ _
  let us : List (Spanned Token) := ts.map fun t => ⟨t, ⟨0, 0⟩⟩
  have hus : Reader.nodes us = ts := by
    rw [Reader.nodes, List.map_map]
    exact List.map_id ts
  obtain ⟨t, rfl, ht⟩ := Expr.reader_reads h hroom us [] hus (fun _ => rfl) nofun
  obtain ⟨t', rfl, ht'⟩ := Expr.reader_reads h' hroom' us [] hus (fun _ => rfl) nofun
  rw [ht] at ht'
  cases ht'
  rfl

/-! ## The limit -/

namespace Expr

open Reader

/-- The tokens are read to their end as an expression exactly if the grammar derives it from them
and its levels keep to the limit. -/
theorem reader_eq_ok_iff (limit : Nat) (ts : List (Spanned Token)) (e : Expr Unit) :
    (∃ t, reader limit ts = .ok (t, []) ∧ t.bare = e) ↔
      Phrase.whole.Derives (nodes ts) true e ∧ e.levels ≤ limit := by
  constructor
  · rintro ⟨t, ht, rfl⟩
    obtain ⟨used, rfl, hderives⟩ := reader_finds limit _ _ _ ht
    have hlevels := (reader_follows limit 0 _ _ _ ht).1.1
    rw [List.append_nil]
    refine ⟨hderives, ?_⟩
    rw [levels, need_bare]
    exact hlevels
  · rintro ⟨hderives, hlevels⟩
    obtain ⟨t, ht, hread⟩ := reader_reads hderives hlevels ts [] rfl (fun _ => rfl) nofun
    rw [List.append_nil] at hread
    exact ⟨t, hread, ht⟩

/-- **The reader of expressions is the grammar with a limit.** All tokens are read as an expression
exactly if the grammar derives the expression from them and it takes at most `maxNesting` levels;
for a source these are its own tokens. The expression that is derived from some tokens is the only
one. -/
theorem reader_iff_derives :
    (∀ (ts : List (Spanned Token)) (e : Expr Unit),
      (∃ t, reader maxNesting ts = .ok (t, []) ∧ t.bare = e) ↔
        Phrase.whole.Derives (nodes ts) true e ∧ e.need + 1 ≤ maxNesting) ∧
    (∀ (source : String) (e : Expr Unit),
      (∃ t, parse source = .ok t ∧ t.bare = e) ↔
        ∃ ts, Token.read source = .ok ts ∧
          Phrase.whole.Derives (nodes ts) true e ∧ e.need + 1 ≤ maxNesting) ∧
    ∀ (ts : List Token) (e e' : Expr Unit), Phrase.whole.Derives ts true e →
      (Phrase.whole.Derives ts true e' ↔ e' = e) := by
  refine ⟨reader_eq_ok_iff maxNesting, fun source e => ?_, fun ts e e' h => ⟨?_, ?_⟩⟩
  · constructor
    · rintro ⟨t, ht, hbare⟩
      obtain ⟨ts, hts, hread⟩ := ofSource_eq_ok.mp ht
      exact ⟨ts, hts, (reader_eq_ok_iff maxNesting ts e).mp ⟨t, hread, hbare⟩⟩
    · rintro ⟨ts, hts, hderives⟩
      obtain ⟨t, hread, hbare⟩ := (reader_eq_ok_iff maxNesting ts e).mpr hderives
      exact ⟨t, ofSource_eq_ok.mpr ⟨ts, hts, hread⟩, hbare⟩
  · exact fun h' => h'.unique h
  · rintro rfl
    exact h

end Expr

end CalcBasic
