import CalcBasic.Proofs.LineFeeds
import CalcBasic.Proofs.Places
import CalcBasic.Proofs.StmtReading

/-!
# Spans of what is read

The tokens of a source stand one behind the other (`Token.read_inTurn`), and a reader takes them
from the front. So what it reads stands between two offsets, and what it reads next stands behind
the second one (`Reader.Spans.bind`).

1. All nodes of an expression stand inside its own span (`Expr.reader_spans`).
2. All nodes in the head of a statement stand inside the statement's span (`Stmt.reader_spans`), at
   every depth of nesting.
-/

namespace CalcBasic

variable {α β : Type}

/-! ## Spans between offsets -/

namespace Span

/-- The span is a range that lies between two offsets. -/
def Between (a b : Nat) (s : Span) : Prop := a ≤ s.start ∧ s.start ≤ s.stop ∧ s.stop ≤ b

variable {a b a' b' : Nat} {s t : Span}

theorem Between.mono (h : s.Between a b) (ha : a' ≤ a) (hb : b ≤ b') : s.Between a' b' := by
  unfold Between at *
  omega

theorem Between.merge (hs : s.Between a b) (ht : t.Between a b) : (s.merge t).Between a b := by
  unfold Between Span.merge at *
  dsimp only
  omega

theorem Between.le (h : s.Between a b) : a ≤ b := h.1.trans (h.2.1.trans h.2.2)

/-- The places stand inside the span. -/
def HoldsAll (s : Span) (places : List Span) : Prop := ∀ q ∈ places, q.Between s.start s.stop

theorem HoldsAll.mono {places : List Span} (h : s.HoldsAll places) (ht : s.Between t.start t.stop) :
    t.HoldsAll places := fun q hq => (h q hq).mono ht.1 ht.2.2

theorem holdsAll_nil (s : Span) : s.HoldsAll [] := nofun

theorem holdsAll_cons {q : Span} {places : List Span} :
    s.HoldsAll (q :: places) ↔ q.Between s.start s.stop ∧ s.HoldsAll places := List.forall_mem_cons

theorem holdsAll_append {places places' : List Span} :
    s.HoldsAll (places ++ places') ↔ s.HoldsAll places ∧ s.HoldsAll places' :=
  List.forall_mem_append

theorem Between.self (h : s.Between a b) : s.Between s.start s.stop :=
  ⟨Nat.le_refl _, h.2.1, Nat.le_refl _⟩

theorem Between.left_merge (h : s.Between a b) (t : Span) :
    s.Between (s.merge t).start (s.merge t).stop :=
  ⟨Nat.min_le_left _ _, h.2.1, Nat.le_max_left _ _⟩

theorem Between.right_merge (h : t.Between a b) (s : Span) :
    t.Between (s.merge t).start (s.merge t).stop :=
  ⟨Nat.min_le_right _ _, h.2.1, Nat.le_max_right _ _⟩

/-- What stands behind the first of two spans and up to the end of the second is inside both taken
together. -/
theorem Between.enclosed {first last : Span} {m : Nat} (hfirst : first.Between a m)
    (hs : s.Between m last.stop) : s.Between (first.merge last).start (first.merge last).stop := by
  unfold Between Span.merge at *
  dsimp only
  omega

/-- A node whose first token stands before the nodes in it, and whose last one ends behind them. -/
theorem holdsAll_bracket {first last : Span} {inner : List Span} {m : Nat}
    (hfirst : first.Between a m) (hlast : last.Between m b)
    (hinner : ∀ q ∈ inner, q.Between m last.stop) :
    (first.merge last).Between a b ∧ (first.merge last).HoldsAll (first.merge last :: inner) := by
  have hspan : (first.merge last).Between a b :=
    (hfirst.mono (Nat.le_refl a) hlast.le).merge (hlast.mono hfirst.le (Nat.le_refl b))
  exact ⟨hspan, holdsAll_cons.mpr ⟨hspan.self, fun q hq => hfirst.enclosed (hinner q hq)⟩⟩

/-- A node that is a single token. -/
theorem holdsAll_leaf (h : s.Between a b) : s.Between a b ∧ s.HoldsAll [s] :=
  ⟨h, holdsAll_cons.mpr ⟨h.self, holdsAll_nil s⟩⟩

end Span

/-- What holds between two offsets holds between offsets further apart. -/
def Widens (Q : Nat → Nat → α → Prop) : Prop :=
  ∀ a b a' b' x, Q a b x → a' ≤ a → b ≤ b' → Q a' b' x

theorem widens_between : Widens Span.Between := fun _ _ _ _ _ h ha hb => h.mono ha hb

/-- The things stand one behind the other between two offsets. -/
def InTurn (Q : Nat → Nat → α → Prop) (a b : Nat) : List α → Prop
  | [] => a ≤ b
  | x :: xs => ∃ m, a ≤ m ∧ Q a m x ∧ InTurn Q m b xs

namespace InTurn

variable {Q : Nat → Nat → α → Prop} {a b m : Nat} {x : α} {xs ys : List α}

theorem le (h : InTurn Q a b xs) : a ≤ b := by
  induction xs generalizing a with
  | nil => exact h
  | cons x xs ih =>
    obtain ⟨m, hm, -, hxs⟩ := h
    exact hm.trans (ih hxs)

theorem split (h : InTurn Q a b (xs ++ ys)) : ∃ m, InTurn Q a m xs ∧ InTurn Q m b ys := by
  induction xs generalizing a with
  | nil => exact ⟨a, Nat.le_refl a, h⟩
  | cons x xs ih =>
    obtain ⟨m, hm, hx, hxs⟩ := h
    obtain ⟨m', hxs, hys⟩ := ih hxs
    exact ⟨m', ⟨m, hm, hx, hxs⟩, hys⟩

theorem widen {b' : Nat} (h : InTurn Q a b xs) (hb : b ≤ b') : InTurn Q a b' xs := by
  induction xs generalizing a with
  | nil => exact Nat.le_trans h hb
  | cons x xs ih =>
    obtain ⟨m, hm, hx, hxs⟩ := h
    exact ⟨m, hm, hx, ih hxs⟩

variable (hQ : Widens Q)

include hQ

theorem push (h : InTurn Q a m xs) (hm : m ≤ b) (hx : Q m b x) : InTurn Q a b (xs ++ [x]) := by
  induction xs generalizing a with
  | nil => exact ⟨b, Nat.le_trans h hm, hQ m b a b x hx h (Nat.le_refl b), Nat.le_refl b⟩
  | cons y ys ih =>
    obtain ⟨m', hm', hy, hys⟩ := h
    exact ⟨m', hm', hy, ih hys⟩

theorem lower {a' : Nat} (h : InTurn Q a b xs) (ha : a' ≤ a) : InTurn Q a' b xs := by
  cases xs with
  | nil => exact Nat.le_trans ha h
  | cons x xs =>
    obtain ⟨m, hm, hx, hxs⟩ := h
    exact ⟨m, ha.trans hm, hQ _ _ _ _ x hx ha (Nat.le_refl m), hxs⟩

theorem all (h : InTurn Q a b xs) : ∀ x ∈ xs, Q a b x := by
  induction xs generalizing a with
  | nil => exact nofun
  | cons x xs ih =>
    obtain ⟨m, hm, hx, hxs⟩ := h
    refine List.forall_mem_cons.mpr ⟨hQ _ _ _ _ _ hx (Nat.le_refl a) hxs.le, fun y hy => ?_⟩
    exact hQ _ _ _ _ _ (ih hxs y hy) hm (Nat.le_refl b)

end InTurn

theorem InTurn.map {Q : Nat → Nat → α → Prop} {R : Nat → Nat → β → Prop} {f : α → β} {a b : Nat}
    {xs : List α} (h : InTurn Q a b xs) (hf : ∀ a b x, Q a b x → R a b (f x)) :
    InTurn R a b (xs.map f) := by
  induction xs generalizing a with
  | nil => exact h
  | cons x xs ih =>
    obtain ⟨m, hm, hx, hxs⟩ := h
    exact ⟨m, hm, hf _ _ _ hx, ih hxs⟩

/-- The last one of some spans that stand one behind the other ends behind all of them. -/
theorem InTurn.last {spans : List Span} {a b : Nat} (h : InTurn Span.Between a b spans)
    (hne : spans ≠ []) (other : Span) :
    (spans.getLast?.getD other).Between a b ∧
      ∀ s ∈ spans, s.stop ≤ (spans.getLast?.getD other).stop := by
  obtain ⟨before, last, rfl⟩ := (List.eq_nil_or_concat' spans).resolve_left hne
  obtain ⟨m, hbefore, m', -, hlast, hm'⟩ := h.split
  rw [List.getLast?_concat, Option.getD_some]
  refine ⟨hlast.mono hbefore.le hm', fun s hs => ?_⟩
  obtain hs | hs := List.mem_append.mp hs
  · exact ((hbefore.all widens_between) s hs).2.2.trans (hlast.1.trans hlast.2.1)
  · rw [List.mem_singleton.mp hs]

/-! ## The tokens of a source -/

/-- The token stands between two offsets. -/
def Token.Between (a b : Nat) (t : Spanned Token) : Prop := t.span.Between a b

theorem Token.widens_between : Widens Token.Between := fun _ _ _ _ _ h ha hb => h.mono ha hb

theorem byteLength_le_of_isPrefix {c : Char} {cs lexeme : List Char} (h : lexeme <+: c :: cs) :
    byteLength lexeme ≤ c.utf8Size + byteLength (cs.take (lexeme.length - 1)) := by
  cases lexeme with
  | nil => exact Nat.zero_le _
  | cons d ds =>
    obtain ⟨rest, hrest⟩ := h
    rw [List.cons_append] at hrest
    obtain ⟨rfl, rfl⟩ := List.cons.inj hrest
    rw [byteLength_cons, List.length_cons, Nat.add_sub_cancel, List.take_left]

/-- The tokens read so far stand before the characters that are still to be read, apart from those
that belong to the last token. -/
theorem Token.readFrom_inTurn {cs : List Char} {skip offset : Nat}
    {tokens ts : List (Spanned Token)} (h : Token.readFrom skip offset tokens cs = .ok ts)
    (htokens : InTurn Token.Between 0 (offset + byteLength (cs.take skip)) tokens.reverse) :
    InTurn Token.Between 0 (offset + byteLength cs) ts := by
  induction cs generalizing skip offset tokens with
  | nil =>
    cases h
    rwa [List.take_nil] at htokens
  | cons c cs ih =>
    rw [byteLength_cons, ← Nat.add_assoc]
    cases skip with
    | succ n =>
      rw [List.take_succ_cons, byteLength_cons, ← Nat.add_assoc] at htokens
      exact ih h htokens
    | zero =>
      have hskipped : InTurn Token.Between 0 (offset + c.utf8Size + byteLength (cs.take 0))
          tokens.reverse := by
        refine htokens.widen ?_
        rw [List.take_zero, List.take_zero, Nat.add_right_comm]
        exact Nat.le_add_right _ _
      rw [Token.readFrom] at h
      by_cases hc : isSkipped c = true
      · rw [if_pos hc] at h
        exact ih h hskipped
      · rw [if_neg hc] at h
        rcases hlexeme : Token.next c cs with slice | ⟨token, lexeme⟩
        · rw [hlexeme] at h
          cases h
        · rw [hlexeme] at h
          have hlength := byteLength_le_of_isPrefix (Token.next_isPrefix hlexeme)
          refine ih h ?_
          rw [List.reverse_cons]
          rw [List.take_zero] at htokens
          refine InTurn.push Token.widens_between htokens ?_ ⟨?_, ?_, ?_⟩
          · show offset + 0 ≤ _
            omega
          · exact Nat.le_refl _
          · exact Nat.le_add_right _ _
          · show offset + byteLength lexeme ≤ _
            omega

theorem Token.read_inTurn {source : String} {ts : List (Spanned Token)}
    (h : Token.read source = .ok ts) : InTurn Token.Between 0 source.utf8ByteSize ts := by
  have hread := Token.readFrom_inTurn h (Nat.zero_le _)
  rwa [byteLength_toList, Nat.zero_add] at hread

/-! ## Readers -/

namespace Reader

variable {Q : Nat → Nat → α → Prop} {R : Nat → Nat → β → Prop} {a b : Nat}

/-- What the reader gives is in the relation `Q` to any two offsets that the tokens it takes stand
between. -/
def Spans (r : Reader α) (Q : Nat → Nat → α → Prop) : Prop :=
  r.Finds fun used _ x => ∀ a b, InTurn Token.Between a b used → Q a b x

theorem Spans.pure {x : α} (h : ∀ a b, a ≤ b → Q a b x) : Spans (pure x) Q :=
  Finds.pure fun _ a b hab => h a b hab

theorem spans_fail {cause : Cause} : (fail cause : Reader α).Spans Q := finds_fail

theorem Spans.imp {R : Nat → Nat → α → Prop} {r : Reader α} (h : r.Spans Q)
    (hR : ∀ a b x, a ≤ b → Q a b x → R a b x) : r.Spans R := by
  intro ts x rest hx
  obtain ⟨used, hused, hQ⟩ := h ts x rest hx
  exact ⟨used, hused, fun a b hab => hR a b x hab.le (hQ a b hab)⟩

/-- What is read next stands behind what was read before. -/
theorem Spans.bind {r : Reader α} {f : α → Reader β} (h : r.Spans Q)
    (hf : ∀ x, (f x).Spans fun m b y => ∀ a, a ≤ m → Q a m x → R a b y) : (r >>= f).Spans R := by
  refine Finds.bind h fun x before _ hx => ?_
  intro ts y rest hy
  obtain ⟨used, hused, hR⟩ := hf x ts y rest hy
  refine ⟨used, hused, fun a b hab => ?_⟩
  obtain ⟨m, hbefore, hmore⟩ := hab.split
  exact hR m b hmore a hbefore.le (hx a m hbefore)

/-- What is read behind a token that is taken first. -/
theorem spans_behind {r : Reader α} {t : Spanned Token} {rest rest' : List (Spanned Token)} {x : α}
    (hx : r rest = .ok (x, rest'))
    (h : r.Spans fun m b x => ∀ a, t.span.Between a m → Q a b x) :
    ∃ used, t :: rest = used ++ rest' ∧ ∀ a b, InTurn Token.Between a b used → Q a b x := by
  obtain ⟨used, rfl, hQ⟩ := h _ _ _ hx
  refine ⟨t :: used, rfl, ?_⟩
  rintro a b ⟨m, -, ht, hused⟩
  exact hQ m b hused a ht

/-- Some span, if there is one, stands between two offsets. -/
def Found (a b : Nat) (found : Option Span) : Prop := ∀ span ∈ found, span.Between a b

/-- A closing mark that is there stands behind what it closes. -/
theorem Found.last {m : Nat} {s : Span} {closed : Option Span} (hc : Found m b closed)
    (hs : s.Between a m) (hm : m ≤ b) :
    (closed.getD s).Between a b ∧ s.stop ≤ (closed.getD s).stop := by
  cases closed with
  | none => exact ⟨hs.mono (Nat.le_refl a) hm, Nat.le_refl _⟩
  | some span =>
    have hspan := hc span rfl
    exact ⟨hspan.mono hs.le (Nat.le_refl b), hs.2.2.trans (hspan.1.trans hspan.2.1)⟩

theorem eat?_spans (t : Token) : (eat? t).Spans Found := by
  intro ts found rest h
  obtain ⟨used, hused, ⟨rfl, rfl⟩ | ⟨span, rfl, rfl⟩⟩ := eat?_finds t ts found rest h
  · exact ⟨[], hused, fun _ _ _ => nofun⟩
  · refine ⟨_, hused, ?_⟩
    rintro a b ⟨m, -, ht, hm⟩ _ ⟨⟩
    exact Span.Between.mono ht (Nat.le_refl a) hm

theorem expect_spans (m : Mark) : (expect m).Spans fun _ _ _ => True :=
  (eat?_spans (.mark m)).bind fun found => by
    cases found with
    | none => exact nofun
    | some span => exact .pure fun _ _ _ _ _ _ => trivial

theorem atEnd_spans : atEnd.Spans fun _ _ _ => True := by
  intro ts ended rest h
  rw [Stmt.atEnd_eq] at h
  cases h
  exact ⟨[], rfl, fun _ _ _ => trivial⟩

theorem close_spans (m : Mark) : (close m).Spans Found := by
  refine (eat?_spans (.mark m)).bind fun found => ?_
  cases found with
  | some span =>
    refine .pure fun m b hb a _ hspan => ?_
    rintro _ ⟨⟩
    exact (hspan span rfl).mono (Nat.le_refl a) hb
  | none =>
    refine atEnd_spans.bind fun ended => ?_
    cases ended with
    | false => exact nofun
    | true => exact .pure fun _ _ _ _ _ _ _ _ _ => nofun

theorem commaItems_spans (hQ : Widens Q) {item : Reader α} (h : item.Spans Q) (fuel : Nat)
    (items : List α) (hitems : items ≠ []) : (commaItems item items fuel).Spans fun m b xs =>
      xs ≠ [] ∧ ∀ a, InTurn Q a m items.reverse → InTurn Q a b xs := by
  induction fuel generalizing items with
  | zero =>
    exact .pure fun m b hb => ⟨mt List.reverse_eq_nil_iff.mp hitems, fun a h => h.widen hb⟩
  | succ fuel ih =>
    rw [commaItems]
    refine (eat?_spans (.mark .comma)).bind fun comma => ?_
    cases comma with
    | none =>
      refine .pure fun m b hb m' hm' _ => ⟨mt List.reverse_eq_nil_iff.mp hitems, fun a h => ?_⟩
      exact h.widen (hm'.trans hb)
    | some span =>
      refine h.bind fun x => (ih (x :: items) (List.cons_ne_nil _ _)).imp ?_
      rintro m b xs - ⟨hne, hxs⟩ m₁ hm₁ hx m₂ hm₂ -
      refine ⟨hne, fun a hturn => hxs a ?_⟩
      rw [List.reverse_cons]
      exact InTurn.push hQ (hturn.widen hm₂) hm₁ hx

theorem separated_spans (hQ : Widens Q) {item : Reader α} (h : item.Spans Q) :
    (separated item).Spans fun a b xs => xs ≠ [] ∧ InTurn Q a b xs := by
  refine h.bind fun x ts xs rest hxs => ?_
  obtain ⟨used, hused, hturn⟩ :=
    commaItems_spans hQ h ts.length [x] (List.cons_ne_nil _ _) ts xs rest hxs
  refine ⟨used, hused, fun m b hab a hm hx => ?_⟩
  obtain ⟨hne, hxs⟩ := hturn m b hab
  exact ⟨hne, hxs a ⟨m, hm, hx, Nat.le_refl m⟩⟩

end Reader

/-! ## Expressions -/

namespace Expr

open Reader

variable {a b m : Nat} {e left right : Expr Span}

/-- The expression stands between two offsets, and all its nodes stand inside its span. -/
def Placed (a b : Nat) (e : Expr Span) : Prop := e.span.Between a b ∧ e.span.HoldsAll e.places

theorem widens_placed : Widens Placed := fun _ _ _ _ _ h ha hb => ⟨h.1.mono ha hb, h.2⟩

theorem Placed.mono {a' b' : Nat} (h : e.Placed a b) (ha : a' ≤ a) (hb : b ≤ b') :
    e.Placed a' b' := widens_placed _ _ _ _ e h ha hb

/-- The nodes of an expression stand where the expression stands. -/
theorem Placed.all (h : e.Placed a b) {b' : Nat} (hb : e.span.stop ≤ b') :
    ∀ q ∈ e.places, q.Between a b' := fun q hq => (h.2 q hq).mono h.1.1 hb

/-- An operator between operands that stand one behind the other. -/
theorem placed_join (op : Op) (hl : left.Placed a m) (hr : right.Placed m b) :
    (join left op right).Placed a b := by
  have hspan : (left.span.merge right.span).Between a b :=
    (hl.1.mono (Nat.le_refl a) hr.1.le).merge (hr.1.mono hl.1.le (Nat.le_refl b))
  refine ⟨hspan, Span.holdsAll_cons.mpr ⟨hspan.self, Span.holdsAll_append.mpr ⟨?_, ?_⟩⟩⟩
  · exact hl.2.mono (hl.1.left_merge right.span)
  · exact hr.2.mono (hr.1.right_merge left.span)

/-- An expression and the closing mark behind it, which may be missing. The nodes of the expression
stand before the end of both. -/
def Closed (a b : Nat) (p : Expr Span × Option Span) : Prop :=
  (p.2.getD p.1.span).Between a b ∧ ∀ q ∈ p.1.places, q.Between a (p.2.getD p.1.span).stop

theorem Placed.closed {m' : Nat} {closed : Option Span} (he : e.Placed a m)
    (hc : Found m m' closed) (hm : m ≤ m') (hb : m' ≤ b) : Closed a b (e, closed) := by
  obtain ⟨hlast, hstop⟩ := hc.last he.1 hm
  exact ⟨hlast.mono (Nat.le_refl a) hb, he.all hstop⟩

/-- Expressions that stand one behind the other have all their nodes before the end of the last. -/
theorem last_of_inTurn {es : List (Expr Span)} (h : InTurn Placed a b es) (hne : es ≠ [])
    (other : Span) :
    (((es.map span).getLast?).getD other).Between a b ∧
      ∀ q ∈ placesAll es, q.Between a (((es.map span).getLast?).getD other).stop := by
  have hspans : InTurn Span.Between a b (es.map span) := h.map fun _ _ _ he => he.1
  obtain ⟨hlast, hall⟩ := hspans.last (mt List.map_eq_nil_iff.mp hne) other
  refine ⟨hlast, fun q hq => ?_⟩
  rw [placesAll_eq, List.mem_flatMap] at hq
  obtain ⟨e, he, hq⟩ := hq
  exact (h.all widens_placed e he).all (hall _ (List.mem_map_of_mem he)) q hq

/-- What it means that a reader for a goal gives expressions that are placed. -/
def Goal.Spans (r : Reader (Expr Span)) : Goal → Prop
  | whole | operand _ => r.Spans Placed
  | chain _ left => r.Spans fun m b e => ∀ a, left.Placed a m → e.Placed a b

theorem operator?_spans (l : Level) : (operator? l).Spans fun _ _ _ => True := by
  intro ts op? rest h
  cases op? with
  | none => exact ⟨[], (operator?_eq_none.mp h).1, fun _ _ _ => trivial⟩
  | some op =>
    obtain ⟨-, span, rfl⟩ := operator?_eq_some.mp h
    exact ⟨[⟨.op op, span⟩], rfl, fun _ _ _ => trivial⟩

theorem sign?_spans : sign?.Spans fun a b found => Found a b (found.map Prod.snd) := by
  intro ts found rest h
  cases found with
  | none => exact ⟨[], (sign?_eq_none.mp h).1, fun _ _ _ => nofun⟩
  | some p =>
    obtain ⟨sign, span⟩ := p
    obtain rfl := sign?_eq_some.mp h
    refine ⟨[⟨.op sign.op, span⟩], rfl, ?_⟩
    rintro a b ⟨m, -, ht, hm⟩ _ ⟨⟩
    exact Span.Between.mono ht (Nat.le_refl a) hm

section Levels

variable {d : Goal → Reader (Expr Span)} (hd : ∀ g : Goal, g.Spans (d g))

theorem index?_spans (h : (d .whole).Spans Placed) (n : String) :
    (index? d n).Spans fun a b found => ∀ p ∈ found, Closed a b p := by
  unfold index?
  by_cases hn : (Region.of n).isIndexable = true
  · rw [if_pos hn]
    refine (eat?_spans (.mark .leftParen)).bind fun paren => ?_
    cases paren with
    | none => exact .pure fun _ _ _ _ _ _ => nofun
    | some span =>
      refine h.bind fun index => (close_spans .rightParen).bind fun closed => ?_
      refine .pure fun m₃ b hb m₂ hm₂ hclosed m₁ hm₁ hindex a ha _ => ?_
      rintro _ ⟨⟩
      exact (hindex.mono ha (Nat.le_refl m₂)).closed hclosed hm₂ hb
  · rw [if_neg hn]
    exact .pure fun _ _ _ => nofun

include hd

theorem primary_spans : (primary d).Spans Placed := by
  intro ts e rest h
  unfold primary at h
  split at h
  case h_1 x span us =>
    refine spans_behind (r := pure (.literal span x)) h (.pure fun m b hb a hspan => ?_)
    exact Span.holdsAll_leaf (hspan.mono (Nat.le_refl a) hb)
  case h_2 n span us =>
    refine spans_behind h ((index?_spans (hd .whole) n).bind fun found => ?_)
    cases found with
    | none =>
      refine .pure fun m b hb m' hm' _ a hspan => ?_
      exact Span.holdsAll_leaf (hspan.mono (Nat.le_refl a) (hm'.trans hb))
    | some p =>
      refine .pure fun m b hb m' hm' hp a hspan => ?_
      obtain ⟨hlast, hinner⟩ := hp p rfl
      exact Span.holdsAll_bracket hspan (hlast.mono (Nat.le_refl m') hb) hinner
  case h_3 span us =>
    refine spans_behind h ((hd .whole).bind fun inner =>
      (close_spans .rightParen).bind fun closed => ?_)
    refine .pure fun m₂ b hb m₁ hm₁ hclosed m hm hinner a hspan => ?_
    obtain ⟨hlast, hinner⟩ := hinner.closed hclosed hm₁ hb
    exact Span.holdsAll_bracket hspan hlast hinner
  case h_4 span us =>
    refine spans_behind h ((separated_spans widens_placed (hd .whole)).bind fun items =>
      (close_spans .rightBrace).bind fun closed => ?_)
    refine .pure fun m₂ b hb m₁ hm₁ hclosed m hm hitems a hspan => ?_
    obtain ⟨hlast, hinner⟩ := last_of_inTurn hitems.2 hitems.1 span
    rw [List.getLast?_map] at hlast hinner
    obtain ⟨hend, hstop⟩ := hclosed.last hlast hm₁
    refine Span.holdsAll_bracket hspan (hend.mono (Nat.le_refl m) hb) fun q hq => ?_
    exact (hinner q hq).mono (Nat.le_refl m) hstop
  case h_5 => cases h

theorem chain_spans (l : Level) (left : Expr Span) :
    (Goal.chain l left).Spans (chain d l left) := by
  refine (operator?_spans l).bind fun op? => ?_
  cases op? with
  | none =>
    exact .pure fun m b hb m' hm' _ a hleft => hleft.mono (Nat.le_refl a) (hm'.trans hb)
  | some op =>
    refine Spans.bind (hd (.operand l)) fun right => (hd (.chain l (join left op right))).imp ?_
    intro m₂ b e _ he m₁ _ hright m hm _ a hleft
    exact he a (placed_join op (hleft.mono (Nat.le_refl a) hm) hright)

theorem signs_spans (l : Level) {unsigned : Reader (Expr Span)} (h : unsigned.Spans Placed) :
    (signs d l unsigned).Spans Placed := by
  refine sign?_spans.bind fun found => ?_
  cases found with
  | none =>
    refine h.imp fun m b e _ he a ha _ => ?_
    exact he.mono ha (Nat.le_refl b)
  | some p =>
    refine Spans.bind (hd (.operand l)) fun operand => ?_
    refine .pure fun m₁ b hb m hm hoperand a ha hsign => ?_
    have hspan := hsign p.2 rfl
    exact Span.holdsAll_bracket hspan (hoperand.1.mono (Nat.le_refl m) hb)
      (hoperand.all (Nat.le_refl _))

theorem level_spans (l : Level) {operand : Reader (Expr Span)} (h : operand.Spans Placed) :
    (operand >>= chain d l).Spans Placed := by
  refine h.bind fun left => (chain_spans hd l left).imp fun m b e _ he a _ hleft => ?_
  exact he a hleft

theorem phrase_spans (ph : Phrase) : (phraseReader d ph).Spans Placed :=
  phraseReader_induction (P := fun r => r.Spans Placed) (primary_spans hd)
    (fun l _ h => level_spans hd l h) (fun l _ h => signs_spans hd l h) ph

theorem reach_spans (g : Goal) : g.Spans (reach d g) := by
  cases g with
  | whole => exact phrase_spans hd .whole
  | operand l =>
    have h := phrase_spans hd l.operand
    rw [← operand_eq] at h
    exact h
  | chain l left => exact chain_spans hd l left

end Levels

theorem spans_fail (cause : Cause) (g : Goal) : g.Spans (fail cause) := by
  cases g with
  | whole => exact nofun
  | operand l => exact nofun
  | chain l left => exact nofun

theorem read_spans (room : Nat) (g : Goal) : g.Spans (read room g) := by
  induction room generalizing g with
  | zero => exact reach_spans (spans_fail .tooDeep) g
  | succ room ih => exact reach_spans ih g

/-- **Expressions.** The nodes of an expression that is read stand inside its span. -/
theorem reader_spans (room : Nat) : (reader room).Spans Placed := by
  cases room with
  | zero => exact nofun
  | succ room => exact read_spans room .whole

end Expr

/-! ## Statements -/

namespace Stmt

open Reader

variable {σ : Type} {a b m : Nat} {s : Stmt Span}

/-- The statement stands between two offsets, and the nodes of its head stand inside its span. -/
def Stands (a b : Nat) (s : Stmt Span) : Prop := s.span.Between a b ∧ s.span.HoldsAll s.places

theorem widens_stands : Widens Stands := fun _ _ _ _ _ h ha hb => ⟨h.1.mono ha hb, h.2⟩

/-- What holds of all statements of some blocks. -/
def Everywhere (P : Stmt σ → Prop) (blocks : List (List (Stmt σ))) : Prop :=
  ∀ c ∈ blocks, ∀ s ∈ c, P s

/-- The statement stands between two offsets, and so do all statements inside it. -/
def StandsDeep (a b : Nat) (s : Stmt Span) : Prop :=
  s.Stands a b ∧ Everywhere (Stands a b) s.chains

/-- The statements stand between two offsets, and so do all statements inside them. -/
def StandAll (a b : Nat) (ss : List (Stmt Span)) : Prop :=
  Everywhere (Stands a b) (ss :: chainsOf ss)

theorem Everywhere.widen {a' b' : Nat} {blocks : List (List (Stmt Span))}
    (h : Everywhere (Stands a b) blocks) (ha : a' ≤ a) (hb : b ≤ b') :
    Everywhere (Stands a' b') blocks :=
  fun c hc s hs => widens_stands _ _ _ _ s (h c hc s hs) ha hb

theorem standAll_nil (a b : Nat) : StandAll a b [] := by
  intro c hc s hs
  obtain rfl : c = [] := by simpa [chainsOf] using hc
  cases hs

theorem standAll_cons {ss : List (Stmt Span)} (hs : s.StandsDeep a b) (hss : StandAll a b ss) :
    StandAll a b (s :: ss) := by
  obtain ⟨hfirst, hrest⟩ := List.forall_mem_cons.mp hss
  refine List.forall_mem_cons.mpr ⟨List.forall_mem_cons.mpr ⟨hs.1, hfirst⟩, ?_⟩
  rw [chainsOf]
  exact List.forall_mem_append.mpr ⟨hs.2, hrest⟩

theorem nameReader_spans : nameReader.Spans fun a b n => n.span.Between a b := by
  intro ts n rest h
  obtain ⟨used, hused, rfl⟩ := nameReader_finds ts n rest h
  refine ⟨_, hused, ?_⟩
  rintro a b ⟨m, -, hn, hm⟩
  exact Span.Between.mono hn (Nat.le_refl a) hm

theorem textReader_spans : textReader.Spans fun _ _ _ => True := by
  intro ts text rest h
  obtain ⟨used, hused, -⟩ := textReader_finds ts text rest h
  exact ⟨used, hused, fun _ _ _ => trivial⟩

theorem targetReader_spans (room : Nat) : (targetReader room).Spans fun a b t =>
    t.2.Between a b ∧ ∀ q ∈ t.1.places, q.Between a t.2.stop := by
  refine nameReader_spans.bind fun name => ?_
  refine (Expr.index?_spans (d := fun _ => Expr.reader room) (Expr.reader_spans room) _).bind
    fun found => ?_
  cases found with
  | none =>
    refine .pure fun m₁ b hb m hm _ a _ hname => ⟨hname.mono (Nat.le_refl a) (hm.trans hb), ?_⟩
    exact List.forall_mem_singleton.mpr ⟨hname.1, hname.2.1, Nat.le_refl _⟩
  | some p =>
    refine .pure fun m₁ b hb m _ hp a _ hname => ?_
    obtain ⟨hlast, hinner⟩ := hp p rfl
    have hname' : name.span.Between a (p.2.getD p.1.span).stop :=
      hname.mono (Nat.le_refl a) (hlast.1.trans hlast.2.1)
    have hindex : ∀ q ∈ p.1.places, q.Between a (p.2.getD p.1.span).stop := fun q hq =>
      (hinner q hq).mono hname.le (Nat.le_refl _)
    refine ⟨hlast.mono hname.le hb, List.forall_mem_cons.mpr ⟨?_, ?_⟩⟩
    · exact hname'.merge (hindex _ p.1.span_mem_places)
    · exact List.forall_mem_cons.mpr ⟨hname', hindex⟩

theorem valuesReader_spans (room : Nat) :
    (valuesReader room).Spans (InTurn Expr.Placed) := by
  refine atEnd_spans.bind fun ended => ?_
  cases ended with
  | true => exact .pure fun m b hb a ha _ => ha.trans hb
  | false =>
    refine (separated_spans Expr.widens_placed (Expr.reader_spans room)).imp ?_
    intro m b es _ hes a ha _
    exact hes.2.lower Expr.widens_placed ha

/-- The head of a counting loop whose parts stand one behind the other. -/
theorem range_between {r : Range Span} {closed : Option Span} {m₁ m₂ m₃ m₄ : Nat}
    (hcounter : r.counter.span.Between a m₁) (hstart : r.start.Placed m₁ m₂)
    (hlast : r.last.Placed m₂ m₃) (hm : m₃ ≤ m₄) (hstep : ∀ e ∈ r.step, e.Placed m₃ m₄)
    (hclosed : Found m₄ b closed) (hb : m₄ ≤ b) :
    (closed.getD (r.step.getD r.last).span).Between a b ∧
      ∀ q ∈ r.places, q.Between a (closed.getD (r.step.getD r.last).span).stop := by
  -- The last bound that is written ends behind the one before it.
  have hfinal : (r.step.getD r.last).span.Between m₂ m₄ ∧
      r.last.span.stop ≤ (r.step.getD r.last).span.stop := by
    cases hr : r.step with
    | none => exact ⟨hlast.1.mono (Nat.le_refl _) hm, Nat.le_refl _⟩
    | some step =>
      have h := (hstep step hr).1
      exact ⟨h.mono hlast.1.le (Nat.le_refl _), hlast.1.2.2.trans (h.1.trans h.2.1)⟩
  obtain ⟨hend, hstop⟩ := hclosed.last hfinal.1 hb
  generalize closed.getD (r.step.getD r.last).span = final at hend hstop ⊢
  have hm₁ : a ≤ m₁ := hcounter.le
  have hm₂ : m₁ ≤ m₂ := hstart.1.le
  have hm₂' : m₂ ≤ final.stop := hend.1.trans hend.2.1
  refine ⟨hend.mono (hm₁.trans hm₂) (Nat.le_refl b), List.forall_mem_cons.mpr ⟨?_, ?_⟩⟩
  · exact hcounter.mono (Nat.le_refl a) (hm₂.trans hm₂')
  · rw [List.forall_mem_append, List.forall_mem_append]
    refine ⟨⟨?_, ?_⟩, ?_⟩
    · exact (hstart.mono hm₁ (Nat.le_refl _)).all (hstart.1.2.2.trans hm₂')
    · exact (hlast.mono (hm₁.trans hm₂) (Nat.le_refl _)).all (hfinal.2.trans hstop)
    · cases hr : r.step with
      | none => exact nofun
      | some step =>
        rw [hr] at hstop
        exact ((hstep step hr).mono (hm₁.trans (hm₂.trans hlast.1.le)) (Nat.le_refl _)).all hstop

theorem rangeReader_spans (room : Nat) : (rangeReader room).Spans fun a b r =>
    r.2.Between a b ∧ ∀ q ∈ r.1.places, q.Between a r.2.stop := by
  refine nameReader_spans.bind fun counter => (expect_spans .comma).bind fun _ => ?_
  refine (Expr.reader_spans room).bind fun start => (expect_spans .comma).bind fun _ => ?_
  refine (Expr.reader_spans room).bind fun last => (eat?_spans (.mark .comma)).bind fun comma => ?_
  cases comma with
  | none =>
    simp only [pure_bind]
    refine (close_spans .rightParen).bind fun closed => .pure ?_
    intro m₆ b hb m₅ hm₅ hclosed m₄ hm₄ _ m₃ hm₃ hlast m₂ hm₂ _ m₁ hm₁ hstart m hm _ a ha hcounter
    have hclosed : Found m₅ b closed := fun c hc => (hclosed c hc).mono (Nat.le_refl _) hb
    exact range_between (r := ⟨counter, start, last, none⟩)
      (hcounter.mono (Nat.le_refl a) hm) (hstart.mono (Nat.le_refl _) hm₂) hlast hm₄ nofun hclosed
      (hm₅.trans hb)
  | some span =>
    simp only [map_eq_pure_bind, bind_assoc, pure_bind]
    refine (Expr.reader_spans room).bind fun step => ?_
    refine (close_spans .rightParen).bind fun closed => .pure ?_
    intro m₇ b hb m₆ hm₆ hclosed m₅ hm₅ hstep m₄ hm₄ _ m₃ hm₃ hlast m₂ hm₂ _ m₁ hm₁ hstart m hm _ a
      ha hcounter
    have hclosed : Found m₆ b closed := fun c hc => (hclosed c hc).mono (Nat.le_refl _) hb
    refine range_between (r := ⟨counter, start, last, some step⟩)
      (hcounter.mono (Nat.le_refl a) hm) (hstart.mono (Nat.le_refl _) hm₂)
      (hlast.mono (Nat.le_refl _) hm₄) hm₅ ?_ hclosed (hm₆.trans hb)
    rintro _ ⟨⟩
    exact hstep

theorem standsDeep_command {span : Span} {c : Command Span}
    (h : span.Between a b ∧ span.HoldsAll (span :: c.places)) :
    (command span c).StandsDeep a b := ⟨h, nofun⟩

theorem valueReader_spans (room : Nat) : (valueReader room).Spans StandsDeep := by
  refine (Expr.reader_spans room).bind fun value => (eat?_spans (.mark .store)).bind fun store => ?_
  cases store with
  | none =>
    refine .pure fun m₁ b hb m hm _ a _ hvalue => ?_
    have hspan := hvalue.1.mono (Nat.le_refl a) (hm.trans hb)
    exact standsDeep_command ⟨hspan, Span.holdsAll_cons.mpr ⟨hspan.self, hvalue.2⟩⟩
  | some arrow =>
    refine (targetReader_spans room).bind fun t => ?_
    refine .pure fun m₂ b hb m₁ hm₁ ht m hm _ a _ hvalue => ?_
    obtain ⟨hstop, htarget⟩ := ht
    have hspan : (value.span.merge t.2).Between a b :=
      (hvalue.1.mono (Nat.le_refl a) (hm.trans (hm₁.trans hb))).merge
        (hstop.mono (hvalue.1.le.trans hm) hb)
    refine standsDeep_command ⟨hspan, Span.holdsAll_cons.mpr ⟨hspan.self, ?_⟩⟩
    refine Span.holdsAll_append.mpr ⟨hvalue.2.mono (hvalue.1.left_merge t.2), fun q hq => ?_⟩
    exact hvalue.1.enclosed ((htarget q hq).mono hm (Nat.le_refl _))

theorem displayReader_spans (room : Nat) (span : Span) :
    (do
      let values ← valuesReader room
      return .command (spanThrough span (values.map Expr.span)) (.display values) :
        Reader (Stmt Span)).Spans
      fun m b s => ∀ a, span.Between a m → s.StandsDeep a b := by
  refine (valuesReader_spans room).bind fun values => .pure fun m₁ b hb m hm hvalues a hspan => ?_
  refine standsDeep_command ?_
  by_cases hne : values = []
  · subst hne
    have hspan := hspan.mono (Nat.le_refl a) (hm.trans hb)
    exact Span.holdsAll_leaf (hspan.merge hspan)
  · obtain ⟨hlast, hinner⟩ := Expr.last_of_inTurn hvalues hne span
    exact Span.holdsAll_bracket hspan (hlast.mono (Nat.le_refl m) hb) hinner

theorem promptReader_spans (span : Span) :
    (do
      let names ← separated nameReader
      return .command (spanThrough span (names.map Name.span)) (.prompt names) :
        Reader (Stmt Span)).Spans
      fun m b s => ∀ a, span.Between a m → s.StandsDeep a b := by
  have hwidens : Widens fun a b (n : Name Span) => n.span.Between a b :=
    fun _ _ _ _ _ h ha hb => h.mono ha hb
  refine (separated_spans hwidens nameReader_spans).bind fun names => ?_
  refine .pure fun m₁ b hb m hm hnames a hspan => standsDeep_command ?_
  have hspans : InTurn Span.Between m m₁ (names.map Name.span) :=
    hnames.2.map fun _ _ _ hn => hn
  obtain ⟨hlast, hstop⟩ := hspans.last (mt List.map_eq_nil_iff.mp hnames.1) span
  refine Span.holdsAll_bracket hspan (hlast.mono (Nat.le_refl m) hb) fun q hq => ?_
  have hq' := hspans.all widens_between q hq
  exact ⟨hq'.1, hq'.2.1, hstop q hq⟩

theorem inputReader_spans (span : Span) :
    (do
      let text ← textReader
      let name ← nameReader
      return .command (span.merge name.span) (.input text name) : Reader (Stmt Span)).Spans
      fun m b s => ∀ a, span.Between a m → s.StandsDeep a b := by
  refine textReader_spans.bind fun text => nameReader_spans.bind fun name => ?_
  refine .pure fun m₂ b hb m₁ hm₁ hname m hm _ a hspan => standsDeep_command ?_
  have hname := hname.mono hm hb
  refine Span.holdsAll_bracket hspan hname (List.forall_mem_singleton.mpr ?_)
  exact ⟨hname.1, hname.2.1, Nat.le_refl _⟩

/-! ## Blocks -/

theorem blockEnd_spans (opener : Keyword) (header : Span) :
    (blockEnd opener header).Spans fun _ _ _ => True := by
  intro ts x rest h
  obtain ⟨used, hused, -⟩ := blockEnd_finds opener header ts x rest h
  exact ⟨used, hused, fun _ _ _ => trivial⟩

/-- Separators before what is read do not matter. -/
theorem inTurn_past {ts used rest : List (Spanned Token)} (h : past ts = used ++ rest) :
    ∃ used', ts = used' ++ rest ∧ ∀ a b, InTurn Token.Between a b used' →
      InTurn Token.Between a b used := by
  obtain ⟨seps, hseps, -⟩ := past_holds ts
  refine ⟨seps ++ used, by rw [hseps, h, List.append_assoc], fun a b hab => ?_⟩
  obtain ⟨m, hbefore, hused⟩ := hab.split
  exact hused.lower Token.widens_between hbefore.le

theorem block_spans {r : Reader (Stmt Span)} (h : r.Spans StandsDeep) :
    (block r).Spans StandAll := by
  intro ts
  -- a statement takes at least one token, so the rest of the block is a block of fewer tokens
  induction hn : ts.length using Nat.strong_induction_on generalizing ts with
  | _ n ih =>
    intro ss rest hblock
    obtain ⟨rfl, rfl⟩ | ⟨s, mid, tail, hs, -, hlt, htail, rfl⟩ :=
      block_cases (shrinks_of_finds h) hblock
    · obtain ⟨used, hused, -⟩ := inTurn_past (List.nil_append (past ts)).symm
      exact ⟨used, hused, fun a b _ => standAll_nil a b⟩
    · obtain ⟨first, hfirst, hstands⟩ := h _ _ _ hs
      obtain ⟨others, rfl, hothers⟩ := ih _ (hn ▸ hlt) mid rfl tail rest htail
      obtain ⟨used, rfl, hused⟩ := inTurn_past (hfirst.trans (List.append_assoc _ _ _).symm)
      refine ⟨used, rfl, fun a b hab => ?_⟩
      obtain ⟨m, hbefore, hafter⟩ := (hused a b hab).split
      have hs := hstands a m hbefore
      have hle : m ≤ b := hafter.le
      refine standAll_cons ⟨?_, hs.2.widen (Nat.le_refl a) hle⟩ ?_
      · exact widens_stands _ _ _ _ s hs.1 (Nat.le_refl a) hle
      · exact (hothers m b hafter).widen hbefore.le (Nat.le_refl b)

section Forms

variable {body : Reader (List (Stmt Span))} {single : Reader (Stmt Span)}
  (hbody : body.Spans StandAll) (hsingle : single.Spans StandsDeep)

include hbody

theorem thenPart_spans (header : Span) (e : Expr Span) :
    (thenPart body header e).Spans fun m b s => ∀ a,
      header.Between a m → header.HoldsAll (header :: e.places) → s.StandsDeep a b := by
  refine hbody.bind fun yes => (eat?_spans (.keyword .else_)).bind fun otherwise => ?_
  cases otherwise with
  | none =>
    refine (blockEnd_spans .if_ header).bind fun _ => .pure ?_
    intro m₃ b hb m₂ hm₂ _ m₁ hm₁ _ m hm hyes a hheader hholds
    have hle : m₁ ≤ b := hm₁.trans (hm₂.trans hb)
    refine ⟨⟨hheader.mono (Nat.le_refl a) (hm.trans hle), hholds⟩, ?_⟩
    exact hyes.widen hheader.le hle
  | some span =>
    refine hbody.bind fun no => (blockEnd_spans .if_ header).bind fun _ => .pure ?_
    intro m₄ b hb m₃ hm₃ _ m₂ hm₂ hno m₁ hm₁ _ m hm hyes a hheader hholds
    have hle : m₁ ≤ b := hm₁.trans (hm₂.trans (hm₃.trans hb))
    refine ⟨⟨hheader.mono (Nat.le_refl a) (hm.trans hle), hholds⟩, ?_⟩
    refine List.forall_mem_append.mpr ⟨hyes.widen hheader.le hle, ?_⟩
    exact hno.widen (hheader.le.trans (hm.trans hm₁)) (hm₃.trans hb)

include hsingle

theorem guarded_spans (header : Span) (e : Expr Span) :
    (guarded body single header e).Spans fun m b s => ∀ a,
      header.Between a m → header.HoldsAll (header :: e.places) → s.StandsDeep a b := by
  intro ts s rest h
  obtain ⟨t, us, hp, -, h⟩ | ⟨s', hs', rfl⟩ := guarded_cases h
  · have hthen : (thenPart body header e).Spans fun m' b s => ∀ m, t.span.Between m m' → ∀ a,
        header.Between a m → header.HoldsAll (header :: e.places) → s.StandsDeep a b :=
      (thenPart_spans hbody header e).imp fun m' b s _ hs m ht a hheader hholds =>
        hs a (hheader.mono (Nat.le_refl a) ht.le) hholds
    obtain ⟨used, hused, hs⟩ := spans_behind h hthen
    obtain ⟨used', rfl, hpast⟩ := inTurn_past (hp.trans hused)
    exact ⟨used', rfl, fun m b hab => hs m b (hpast m b hab)⟩
  · obtain ⟨used, hused, hs⟩ := hsingle _ _ _ hs'
    obtain ⟨used', rfl, hpast⟩ := inTurn_past hused
    refine ⟨used', rfl, fun m b hab a hheader hholds => ?_⟩
    have hbody := hs m b (hpast m b hab)
    refine ⟨⟨hheader.mono (Nat.le_refl a) hab.le, hholds⟩, ?_⟩
    exact Everywhere.widen (standAll_cons hbody (standAll_nil m b)) hheader.le (Nat.le_refl b)

theorem form_spans (room : Nat) : (form room body single).Spans StandsDeep := by
  intro ts s rest h
  unfold form at h
  split at h
  case h_1 span us => exact spans_behind h (displayReader_spans room span)
  case h_2 span us => exact spans_behind h (promptReader_spans span)
  case h_3 span us => exact spans_behind h (inputReader_spans span)
  case h_4 span us =>
    refine spans_behind h ((Expr.reader_spans room).bind fun e => ?_)
    refine (guarded_spans hbody hsingle _ e).imp fun m₁ b s _ hs m hm he a hspan => ?_
    obtain ⟨hheader, hholds⟩ := Span.holdsAll_bracket hspan he.1 (he.all (Nat.le_refl _))
    exact hs a hheader hholds
  case h_5 span us =>
    refine spans_behind h ((Expr.reader_spans room).bind fun e => hbody.bind fun ss =>
      (blockEnd_spans .while_ _).bind fun _ => .pure ?_)
    intro m₃ b hb m₂ hm₂ _ m₁ hm₁ hss m hm he a hspan
    obtain ⟨hheader, hholds⟩ := Span.holdsAll_bracket hspan he.1 (he.all (Nat.le_refl _))
    have hle : m₂ ≤ b := hm₂.trans hb
    refine ⟨⟨hheader.mono (Nat.le_refl a) (hm₁.trans hle), hholds⟩, ?_⟩
    exact hss.widen hheader.le hle
  case h_6 span us =>
    refine spans_behind h ((rangeReader_spans room).bind fun r => hbody.bind fun ss =>
      (blockEnd_spans .for_ _).bind fun _ => .pure ?_)
    intro m₃ b hb m₂ hm₂ _ m₁ hm₁ hss m hm hr a hspan
    obtain ⟨hheader, hholds⟩ := Span.holdsAll_bracket hspan hr.1 hr.2
    have hle : m₂ ≤ b := hm₂.trans hb
    refine ⟨⟨hheader.mono (Nat.le_refl a) (hm₁.trans hle), hholds⟩, ?_⟩
    exact hss.widen hheader.le hle
  case h_7 | h_8 | h_9 =>
    cases h
    refine ⟨[_], rfl, ?_⟩
    rintro a b ⟨m, -, ht, hm⟩
    exact standsDeep_command (Span.holdsAll_leaf (Span.Between.mono ht (Nat.le_refl a) hm))
  case h_10 => cases h
  case h_11 => exact valueReader_spans room _ _ _ h

end Forms

/-- **Statements.** The nodes in the head of a statement that is read stand inside its span, and so
it is with all statements inside it. -/
theorem reader_spans (room : Nat) : (reader room).Spans StandsDeep := by
  induction room with
  | zero => exact form_spans spans_fail spans_fail 0
  | succ room ih => exact form_spans (block_spans ih) ih (room + 1)

end Stmt

/-- All statements of a program that is read stand in the source, with the nodes of their heads
inside their spans. -/
theorem Program.parse_stands {source : String} {p : Program Span}
    (h : Program.parse source = .ok p) :
    Stmt.Everywhere (Stmt.Stands 0 source.utf8ByteSize) p.chains := by
  obtain ⟨ts, hts, hread⟩ := Reader.ofSource_eq_ok.mp h
  obtain ⟨ss, mid, hblock, hp⟩ := Reader.bind_eq_ok.mp hread
  cases hp
  obtain ⟨used, rfl, hstands⟩ := Stmt.block_spans (Stmt.reader_spans maxNesting) _ _ _ hblock
  rw [List.append_nil] at hts
  exact hstands 0 _ (Token.read_inTurn hts)

end CalcBasic
