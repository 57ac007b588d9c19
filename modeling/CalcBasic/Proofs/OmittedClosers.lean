import CalcBasic.Proofs.Layout

/-!
# Closing marks left out

A closing mark may be left out where a statement ends. Tokens with some of them left out there are
read as they are read with them, up to places (`Stmt.reader_lenient`).

1. `Looser` relates some tokens to those that are left of them. Where the two lists begin with
   different tokens, a closing mark is left out and the statement ends (`Looser.head`).
2. `Lax` says that what one reader finds in some tokens another one finds in looser ones. It goes one
   way only, because a closing mark that nothing opens is wrong, and is right left out. It is closed
   under sequencing (`Lax.bind`).
3. Closing marks are looked for by `close` alone, which does not miss them (`close_lax`). Every other
   reader finds the same tokens in both lists, and none takes a closing mark for the beginning of an
   expression or of a statement (`Lenient`).
-/

namespace CalcBasic

open Stmt (past endsHere)

/-! ## Looser lists -/

/-- Whether a token closes what may also be closed by the end of the statement. -/
def Token.isCloser : Token → Bool
  | mark .rightParen | mark .rightBrace => true
  | _ => false

/-- The second list is the first one at other places, with closing marks left out where a statement
ends. -/
inductive Looser : List (Spanned Token) → List (Spanned Token) → Prop
  | nil : Looser [] []
  | keep (node : Token) (a b : Span) {ts us : List (Spanned Token)} (h : Looser ts us) :
      Looser (⟨node, a⟩ :: ts) (⟨node, b⟩ :: us)
  | drop {node : Token} (hcloser : node.isCloser = true) (a : Span) {ts us : List (Spanned Token)}
      (hends : endsHere us = true) (h : Looser ts us) : Looser (⟨node, a⟩ :: ts) us

namespace Looser

variable {ts us : List (Spanned Token)}

theorem ends (h : Looser ts us) (hends : endsHere ts = true) : endsHere us = true := by
  cases h with
  | nil => rfl
  | keep => exact hends
  | drop _ _ hus => exact hus

/-- A word that is not a closing mark is kept. -/
theorem word {node : Token} {a : Span} (h : Looser (⟨node, a⟩ :: ts) us)
    (hnode : node.isCloser = false) : ∃ b us', us = ⟨node, b⟩ :: us' ∧ Looser ts us' := by
  cases h with
  | keep _ _ b h => exact ⟨b, _, rfl, h⟩
  | drop hcloser =>
    rw [hnode] at hcloser
    cases hcloser

/-- What is true of separators and of the next token is true of the next one that is left. -/
theorem head (P : Token → Prop) (hsep : P .separator) (h : Looser ts us)
    (hts : ∀ t ∈ ts.head?, P t.node) : ∀ u ∈ us.head?, P u.node := by
  cases h with
  | nil => exact nofun
  | keep node a b =>
    rintro u ⟨⟩
    exact hts ⟨node, a⟩ rfl
  | drop _ _ hus =>
    intro u hu
    rw [Stmt.endsHere_eq_true.mp hus u hu]
    exact hsep

/-- Behind the separators nothing is left, or the same word stands, or the first of the two lists has
a closing mark that the other one may lack. -/
theorem past_cases (h : Looser ts us) :
    (past ts = [] ∧ past us = []) ∨
      (∃ node a b ts' us', past ts = ⟨node, a⟩ :: ts' ∧ past us = ⟨node, b⟩ :: us' ∧
        Looser ts' us') ∨
      ∃ t ts', past ts = t :: ts' ∧ t.node.isCloser = true := by
  induction h with
  | nil => exact .inl ⟨rfl, rfl⟩
  | @keep node a b ts us h ih =>
    by_cases hsep : node = .separator
    · subst hsep
      exact ih
    · exact .inr (.inl ⟨node, a, b, ts, us, Stmt.past_cons hsep ts, Stmt.past_cons hsep us, h⟩)
  | @drop node hcloser a ts us hends h ih =>
    refine .inr (.inr ⟨⟨node, a⟩, ts, Stmt.past_cons ?_ ts, hcloser⟩)
    rintro rfl
    cases hcloser

end Looser

/-! ## Readers -/

namespace Reader

variable {α β γ δ : Type} {view : α → γ} {seen : β → δ}

/-- What the first reader finds in some tokens the second one finds in looser ones, up to the view,
and what they leave over is looser again. -/
def Lax (view : α → γ) (r r' : Reader α) : Prop :=
  ∀ ts us x rest, Looser ts us → r ts = .ok (x, rest) →
    ∃ y rest', r' us = .ok (y, rest') ∧ view x = view y ∧ Looser rest rest'

theorem Lax.bind {r r' : Reader α} {k k' : α → Reader β} (h : Lax view r r')
    (hk : ∀ x y, view x = view y → Lax seen (k x) (k' y)) : Lax seen (r >>= k) (r' >>= k') := by
  intro ts us z rest hl hz
  obtain ⟨x, mid, hx, hmore⟩ := bind_eq_ok.mp hz
  obtain ⟨y, mid', hy, hview, hmid⟩ := h _ _ _ _ hl hx
  obtain ⟨w, rest', hw, hseen, hrest⟩ := hk x y hview _ _ _ _ hmid hmore
  exact ⟨w, rest', bind_eq_ok.mpr ⟨y, mid', hy, hw⟩, hseen, hrest⟩

theorem lax_pure {x y : α} (h : view x = view y) : Lax view (pure x) (pure y) := by
  intro ts us _ rest hl hx
  cases hx
  exact ⟨y, us, rfl, h, hl⟩

theorem lax_fail {cause : Cause} {r : Reader α} : Lax view (fail cause) r := nofun

theorem eat?_lax {t : Token} (hsep : t ≠ .separator) (hcloser : t.isCloser = false) :
    Lax Option.isSome (eat? t) (eat? t) := by
  intro ts us found rest hl h
  cases found with
  | none =>
    obtain ⟨rfl, hne⟩ := eat?_eq_none.mp h
    exact ⟨none, us, eat?_eq_none.mpr ⟨rfl, hl.head (· ≠ t) hsep.symm hne⟩, rfl, hl⟩
  | some span =>
    obtain rfl := eat?_eq_some.mp h
    obtain ⟨b, us, rfl, hrest⟩ := hl.word hcloser
    exact ⟨some b, us, eat?_eq_some.mpr rfl, rfl, hrest⟩

theorem expect_lax {m : Mark} (hm : (Token.mark m).isCloser = false) :
    Lax id (expect m) (expect m) := by
  intro ts us _ rest hl h
  obtain ⟨span, rfl⟩ := expect_eq_ok.mp h
  obtain ⟨b, us, rfl, hrest⟩ := hl.word hm
  exact ⟨(), us, expect_eq_ok.mpr ⟨b, rfl⟩, rfl, hrest⟩

/-- A closing mark that is left out is not missed, since the statement ends there. -/
theorem close_lax (m : Mark) : Lax (fun _ => ()) (close m) (close m) := by
  intro ts us closed rest hl h
  obtain ⟨span, rfl, rfl⟩ | ⟨rfl, rfl, hends⟩ := close_cases h
  · cases hl with
    | keep _ _ b hrest => exact ⟨some b, _, close_written b _, rfl, hrest⟩
    | drop _ _ hends hrest => exact ⟨none, us, close_omitted hends, rfl, hrest⟩
  · exact ⟨none, us, close_omitted (hl.ends hends), rfl, hl⟩

/-! ### Items -/

/-- Without a comma both sides stop. -/
theorem commaItems_lax_stop {item : Reader α} {fuel : Nat} (fuel' : Nat) {items items' xs : List α}
    {ts us rest : List (Spanned Token)} (hitems : items.map view = items'.map view)
    (hl : Looser ts us) (hts : ∀ t ∈ ts.head?, t.node ≠ .mark .comma)
    (hxs : commaItems item items fuel ts = .ok (xs, rest)) :
    ∃ ys rest', commaItems item items' fuel' us = .ok (ys, rest') ∧ xs.map view = ys.map view ∧
      Looser rest rest' := by
  rw [commaItems_of_ne _ _ _ hts] at hxs
  cases hxs
  have hus := hl.head (· ≠ .mark .comma) nofun hts
  refine ⟨items'.reverse, us, commaItems_of_ne _ _ _ hus, ?_, hl⟩
  rw [List.map_reverse, List.map_reverse, hitems]

section Items

variable {item : Reader α} {D : List (Spanned Token) → Bool → α → Prop} (hitem : item.Finds D)
  (h : Lax view item item)

include hitem h

/-- Further items after commas. Each side counts its own tokens, and neither runs out of fuel before
it runs out of commas. -/
theorem commaItems_lax (fuel fuel' : Nat) {items items' xs : List α}
    {ts us rest : List (Spanned Token)} (hitems : items.map view = items'.map view)
    (hl : Looser ts us) (hfuel : ts.length ≤ fuel) (hfuel' : us.length ≤ fuel')
    (hxs : commaItems item items fuel ts = .ok (xs, rest)) :
    ∃ ys rest', commaItems item items' fuel' us = .ok (ys, rest') ∧ xs.map view = ys.map view ∧
      Looser rest rest' := by
  induction fuel generalizing fuel' items items' ts us with
  | zero =>
    obtain rfl : ts = [] := List.length_eq_zero_iff.mp (Nat.le_zero.mp hfuel)
    exact commaItems_lax_stop fuel' hitems hl nofun hxs
  | succ fuel ih =>
    obtain ⟨comma, mid, heat, hmore⟩ := bind_eq_ok.mp hxs
    cases comma with
    | none => exact commaItems_lax_stop fuel' hitems hl (eat?_eq_none.mp heat).2 hxs
    | some a =>
      obtain rfl := eat?_eq_some.mp heat
      obtain ⟨b, us, rfl, hmid⟩ := hl.word rfl
      obtain ⟨x, mid', hx, htail⟩ := bind_eq_ok.mp hmore
      obtain ⟨y, us', hy, hview, hrest⟩ := h _ _ _ _ hmid hx
      obtain ⟨used, rfl, -⟩ := hitem _ _ _ hx
      obtain ⟨used', rfl, -⟩ := hitem _ _ _ hy
      simp only [List.length_cons, List.length_append] at hfuel hfuel'
      obtain ⟨fuel', rfl⟩ : ∃ n, fuel' = n + 1 := ⟨fuel' - 1, by omega⟩
      obtain ⟨ys, rest', hys, hviews, hrests⟩ := @ih fuel' (x :: items) (y :: items') _ _
        (by simp [hview, hitems]) hrest (by omega) (by omega) htail
      refine ⟨ys, rest', ?_, hviews, hrests⟩
      exact bind_eq_ok.mpr ⟨some b, _, eat?_eq_some.mpr rfl, bind_eq_ok.mpr ⟨y, us', hy, hys⟩⟩

theorem separated_lax : Lax (List.map view) (separated item) (separated item) := by
  refine h.bind fun x y hview ts us xs rest hl hxs => ?_
  exact commaItems_lax hitem h _ _ (by simp [hview]) hl (Nat.le_refl _) (Nat.le_refl _) hxs

end Items

end Reader

/-! ## Expressions -/

namespace Expr

open Reader

theorem operator?_lax (level : Level) : Lax id (operator? level) (operator? level) := by
  intro ts us found rest hl h
  cases found with
  | none =>
    obtain ⟨rfl, hne⟩ := operator?_eq_none.mp h
    have hus := hl.head (fun t => ∀ op : Op, t = .op op → op.level ≠ level) nofun hne
    exact ⟨none, us, operator?_eq_none.mpr ⟨rfl, hus⟩, rfl, hl⟩
  | some op =>
    obtain ⟨rfl, span, rfl⟩ := operator?_eq_some.mp h
    obtain ⟨b, us, rfl, hrest⟩ := hl.word rfl
    exact ⟨some op, us, operator?_eq_some.mpr ⟨rfl, b, rfl⟩, rfl, hrest⟩

theorem sign?_lax : Lax (Option.map Prod.fst) sign? sign? := by
  intro ts us found rest hl h
  cases found with
  | none =>
    obtain ⟨rfl, hne⟩ := sign?_eq_none.mp h
    have hus := hl.head (fun t => ∀ sign : Sign, t ≠ .op sign.op) nofun hne
    exact ⟨none, us, sign?_eq_none.mpr ⟨rfl, hus⟩, rfl, hl⟩
  | some p =>
    obtain ⟨sign, span⟩ := p
    obtain rfl := sign?_eq_some.mp h
    obtain ⟨b, us, rfl, hrest⟩ := hl.word rfl
    exact ⟨some (sign, b), us, sign?_eq_some.mpr rfl, rfl, hrest⟩

section Levels

variable {d : Goal → Reader (Expr Span)} (hd : ∀ g g', Goal.Alike g g' → Lax bare (d g) (d g'))
  {D : List (Spanned Token) → Bool → Expr Span → Prop} (hfinds : (d .whole).Finds D)

include hd

theorem index?_lax (name : String) :
    Lax (Option.map fun p => p.1.bare) (index? d name) (index? d name) := by
  unfold index?
  by_cases hi : (Region.of name).isIndexable
  · rw [if_pos hi]
    refine (eat?_lax (t := .mark .leftParen) nofun rfl).bind fun x y hxy => ?_
    cases x <;> cases y <;> cases hxy
    · exact lax_pure rfl
    · refine (hd _ _ .whole).bind fun e e' he => (close_lax .rightParen).bind fun c c' _ => ?_
      exact lax_pure (congrArg some he)
  · rw [if_neg hi]
    exact lax_pure rfl

theorem chain_lax (level : Level) {left left' : Expr Span} (h : left.bare = left'.bare) :
    Lax bare (chain d level left) (chain d level left') := by
  refine (operator?_lax level).bind ?_
  rintro op _ rfl
  cases op with
  | none => exact lax_pure h
  | some op =>
    refine (hd _ _ (.operand level)).bind fun right right' hright => ?_
    refine hd _ _ (.chain level ?_)
    simpa [bare, join, Expr.map] using And.intro h hright

theorem signs_lax (level : Level) {r : Reader (Expr Span)} (h : Lax bare r r) :
    Lax bare (signs d level r) (signs d level r) := by
  refine sign?_lax.bind fun x y hxy => ?_
  rcases x with _ | ⟨sign, a⟩ <;> rcases y with _ | ⟨sign', b⟩ <;> cases hxy
  · exact h
  · refine (hd _ _ (.operand level)).bind fun e e' he => lax_pure ?_
    simpa [bare, Expr.map] using he

include hfinds

theorem primary_lax : Lax bare (primary d) (primary d) := by
  intro ts us e rest hl h
  unfold primary at h
  split at h
  case h_1 x a ts =>
    obtain ⟨b, us, rfl, hrest⟩ := hl.word rfl
    cases h
    exact ⟨_, us, rfl, rfl, hrest⟩
  case h_2 n a ts =>
    obtain ⟨b, us, rfl, hrest⟩ := hl.word rfl
    refine (index?_lax hd n).bind (fun x y hxy => ?_) ts us e rest hrest h
    rcases x with _ | ⟨e, closed⟩ <;> rcases y with _ | ⟨e', closed'⟩
    · exact lax_pure rfl
    · cases hxy
    · cases hxy
    · have he : e.bare = e'.bare := Option.some.inj hxy
      exact lax_pure (by simpa [bare, Expr.map] using he)
  case h_3 a ts =>
    obtain ⟨b, us, rfl, hrest⟩ := hl.word rfl
    refine (hd _ _ .whole).bind (fun e e' he => ?_) ts us e rest hrest h
    refine (close_lax .rightParen).bind fun c c' _ => lax_pure ?_
    simpa [bare, Expr.map] using he
  case h_4 a ts =>
    obtain ⟨b, us, rfl, hrest⟩ := hl.word rfl
    refine (separated_lax hfinds (hd _ _ .whole)).bind (fun es es' hes => ?_) ts us e rest hrest h
    refine (close_lax .rightBrace).bind fun c c' _ => lax_pure ?_
    rw [bare_list, bare_list, hes]
  case h_5 => cases h

theorem phrase_lax (ph : Phrase) : Lax bare (phraseReader d ph) (phraseReader d ph) :=
  phraseReader_induction (P := fun r => Lax bare r r) (primary_lax hd hfinds)
    (fun l _ h => h.bind fun _ _ hleft => chain_lax hd l hleft) (fun l _ h => signs_lax hd l h) ph

theorem reach_lax {g g' : Goal} (hg : Goal.Alike g g') : Lax bare (reach d g) (reach d g') := by
  cases hg with
  | whole => exact phrase_lax hd hfinds .whole
  | operand l =>
    have h := phrase_lax hd hfinds l.operand
    rw [← operand_eq] at h
    exact h
  | chain l h => exact chain_lax hd l h

end Levels

theorem read_lax (room : Nat) (g g' : Goal) (hg : Goal.Alike g g') :
    Lax bare (read room g) (read room g') := by
  induction room generalizing g g' with
  | zero => exact reach_lax (fun _ _ _ => lax_fail) (finds_fail (D := fun _ _ _ => True)) hg
  | succ room ih =>
    have hfinds : (read room .whole).Finds fun used last e =>
        Phrase.whole.Derives (nodes used) last e.bare := read_sound room .whole
    exact reach_lax ih hfinds hg

/-- **Expressions** do not need their last closing marks. -/
theorem reader_lax (room : Nat) : Lax bare (reader room) (reader room) := by
  cases room with
  | zero => exact lax_fail
  | succ room => exact read_lax room _ _ .whole

/-- An expression that is read begins with a primary or a sign. -/
theorem reader_head {room : Nat} {ts rest : List (Spanned Token)} {e : Expr Span}
    (h : reader room ts = .ok (e, rest)) : ∃ t us, ts = t :: us ∧
      (t.node.begins = true ∨ ∃ sign : Sign, t.node = .op sign.op) := by
  obtain ⟨used, rfl, hderives⟩ := reader_finds room _ _ _ h
  obtain ⟨node, ns, hnodes, hnode⟩ := hderives.exists_head
  obtain ⟨span, us, rfl, -⟩ := nodes_eq_cons.mp hnodes
  exact ⟨⟨node, span⟩, us ++ rest, rfl, hnode.imp_right And.right⟩

/-- So it does not begin where a statement ends. -/
theorem endsHere_eq_false {room : Nat} {ts rest : List (Spanned Token)} {e : Expr Span}
    (h : reader room ts = .ok (e, rest)) : endsHere ts = false := by
  obtain ⟨⟨node, span⟩, us, rfl, hhead⟩ := reader_head h
  refine Stmt.endsHere_cons ?_ span us
  rintro rfl
  simp [Token.begins] at hhead

/-- Nor does it begin with a closing mark. -/
theorem isCloser_eq_false {room : Nat} {t : Spanned Token} {ts rest : List (Spanned Token)}
    {e : Expr Span} (h : reader room (t :: ts) = .ok (e, rest)) : t.node.isCloser = false := by
  obtain ⟨_, _, heq, hhead | ⟨sign, hsign⟩⟩ := reader_head h <;> cases heq
  · generalize t.node = node at hhead
    unfold Token.begins at hhead
    split at hhead <;> first | rfl | cases hhead
  · rw [hsign]
    rfl

end Expr

/-! ## Statements -/

namespace Stmt

open Reader

theorem nameReader_lax : Lax (Name.map fun _ => ()) nameReader nameReader := by
  intro ts us n rest hl h
  obtain ⟨used, rfl, rfl⟩ := nameReader_finds _ _ _ h
  obtain ⟨b, us, rfl, hrest⟩ := hl.word rfl
  exact ⟨⟨b, n.text⟩, us, rfl, rfl, hrest⟩

theorem textReader_of_head {ts : List (Spanned Token)} (h : ∀ t ∈ ts.head?, ∀ s, t.node ≠ .text s) :
    textReader ts = .ok (none, ts) := by
  unfold textReader
  split
  · exact absurd rfl (h _ rfl _)
  · rfl

theorem textReader_lax : Lax id textReader textReader := by
  intro ts us text rest hl h
  unfold textReader at h
  split at h
  · obtain ⟨b, us, rfl, hmid⟩ := hl.word rfl
    exact (expect_lax rfl).bind (fun _ _ _ => lax_pure rfl) _ _ _ _ hmid h
  · rename_i hne
    cases h
    have hts : ∀ t ∈ ts.head?, ∀ s, t.node ≠ .text s := by
      rintro ⟨node, span⟩ ht s rfl
      obtain ⟨vs, rfl⟩ := List.head?_eq_some_iff.mp ht
      exact hne s span vs rfl
    exact ⟨none, us, textReader_of_head (hl.head (fun t => ∀ s, t ≠ .text s) nofun hts), rfl, hl⟩

theorem targetReader_lax (room : Nat) :
    Lax (fun p => p.1.map fun _ => ()) (targetReader room) (targetReader room) := by
  refine nameReader_lax.bind fun n n' hn => ?_
  have hindex := Expr.index?_lax (d := fun _ => Expr.reader room)
    (fun _ _ _ => Expr.reader_lax room) n.text
  have htext : n.text = n'.text := congrArg (Name.text (σ := Unit)) hn
  rw [← htext]
  refine hindex.bind fun x y hxy => ?_
  rcases x with _ | ⟨e, closed⟩ <;> rcases y with _ | ⟨e', closed'⟩
  · exact lax_pure (congrArg Target.whole hn)
  · cases hxy
  · cases hxy
  · have he : e.bare = e'.bare := Option.some.inj hxy
    exact lax_pure (congrArg₂ (Target.element ()) hn he)

theorem valuesReader_lax (room : Nat) :
    Lax (List.map Expr.bare) (valuesReader room) (valuesReader room) := by
  intro ts us es rest hl h
  obtain ⟨ended, mid, hend, hmore⟩ := bind_eq_ok.mp h
  rw [atEnd_eq] at hend
  obtain ⟨rfl, rfl⟩ := Prod.mk.inj (Except.ok.inj hend)
  cases hends : endsHere ts with
  | true =>
    rw [hends] at hmore
    cases hmore
    exact ⟨[], us, bind_eq_ok.mpr ⟨true, us, by rw [atEnd_eq, hl.ends hends], rfl⟩, rfl, hl⟩
  | false =>
    rw [hends] at hmore
    obtain ⟨es', rest', hes', hview, hrest⟩ :=
      separated_lax (Expr.reader_finds room) (Expr.reader_lax room) _ _ _ _ hl hmore
    -- the values that are left begin with a word, so the statement does not end before them
    obtain ⟨e, mid, he, -⟩ := bind_eq_ok.mp hes'
    have hus := Expr.endsHere_eq_false he
    exact ⟨es', rest', bind_eq_ok.mpr ⟨false, us, by rw [atEnd_eq, hus], hes'⟩, hview, hrest⟩

theorem valueReader_lax (room : Nat) : Lax bare (valueReader room) (valueReader room) := by
  refine (Expr.reader_lax room).bind fun e e' he => ?_
  refine (eat?_lax (t := .mark .store) nofun rfl).bind fun x y hxy => ?_
  cases x <;> cases y <;> cases hxy
  · exact lax_pure (congrArg (fun e => command () (.evaluate e)) he)
  · refine (targetReader_lax room).bind fun p p' hp => lax_pure ?_
    exact congrArg₂ (fun e t => command () (.store e t)) he hp

theorem stepReader_lax (room : Nat) {comma comma' : Option Span}
    (h : comma.isSome = comma'.isSome) :
    Lax (Option.map Expr.bare) (stepReader room comma) (stepReader room comma') := by
  cases comma <;> cases comma' <;> cases h
  · exact lax_pure rfl
  · simp only [stepReader, map_eq_pure_bind]
    exact (Expr.reader_lax room).bind fun e e' he => lax_pure (congrArg some he)

theorem rangeReader_lax (room : Nat) :
    Lax (fun p => p.1.map fun _ => ()) (rangeReader room) (rangeReader room) := by
  rw [rangeReader_eq]
  refine nameReader_lax.bind fun n n' hn => (expect_lax rfl).bind fun _ _ _ => ?_
  refine (Expr.reader_lax room).bind fun start start' hstart => ?_
  refine (expect_lax rfl).bind fun _ _ _ => ?_
  refine (Expr.reader_lax room).bind fun last last' hlast => ?_
  refine (eat?_lax (t := .mark .comma) nofun rfl).bind fun x y hxy => ?_
  refine (stepReader_lax room hxy).bind fun step step' hstep => ?_
  exact (close_lax .rightParen).bind fun c c' _ => lax_pure (map_range hn hstart hlast hstep)

/-! ## Blocks -/

/-- A reader of statements that takes something from the front of the tokens, does not begin with a
closing mark, and does not miss those that are left out. -/
structure Lenient (r : Reader (Stmt Span)) : Prop where
  shrinks : Shrinks r
  isCloser_eq_false : ∀ {t : Spanned Token} {ts rest : List (Spanned Token)} {s : Stmt Span},
    r (t :: ts) = .ok (s, rest) → t.node.isCloser = false
  lax : Lax bare r r

theorem lenient_fail {cause : Cause} : Lenient (fail cause) := ⟨nofun, nofun, lax_fail⟩

theorem closes_of_isCloser {t : Token} (h : t.isCloser = true) : closes t = false := by
  unfold Token.isCloser at h
  split at h <;> first | rfl | cases h

theorem block_lax {r : Reader (Stmt Span)} (h : Lenient r) :
    Lax (List.map bare) (block r) (block r) := by
  intro ts
  -- a statement takes at least one token, so the rest of the block is a block of fewer tokens
  induction hn : ts.length using Nat.strong_induction_on generalizing ts with
  | _ n ih =>
    intro us ss rest hl hblock
    rw [block_eq h.shrinks] at hblock
    rw [block_eq h.shrinks us]
    obtain ⟨hts, hus⟩ | ⟨node, a, b, ts', us', hts, hus, hrest⟩ | ⟨t, ts', hts, hcloser⟩ :=
      hl.past_cases
    · rw [hts] at hblock
      rw [hus]
      cases hblock
      exact ⟨[], [], rfl, rfl, .nil⟩
    · rw [hts] at hblock
      rw [hus]
      dsimp only at hblock ⊢
      by_cases hc : closes node = true
      · rw [if_pos hc] at hblock ⊢
        cases hblock
        exact ⟨[], _, rfl, rfl, .keep node a b hrest⟩
      · rw [if_neg hc] at hblock ⊢
        rcases hs : r (⟨node, a⟩ :: ts') with c | ⟨s, mid⟩ <;> rw [hs] at hblock
        · cases hblock
        · obtain ⟨s', mid', hs', hview, hmid⟩ := h.lax _ _ _ _ (.keep node a b hrest) hs
          rw [hs']
          dsimp only at hblock ⊢
          by_cases he : endsHere mid = true
          · have hlt := length_lt_of_endsHere h.shrinks hts hs he
            rw [if_pos he] at hblock
            rw [if_pos (hmid.ends he)]
            obtain ⟨tail, htail, rfl⟩ := after_eq_ok.mp hblock
            obtain ⟨tail', rest', htail', hviews, hrest⟩ := ih _ (hn ▸ hlt) mid rfl _ _ _ hmid htail
            refine ⟨s' :: tail', rest', after_eq_ok.mpr ⟨tail', htail', rfl⟩, ?_, hrest⟩
            simp [hview, hviews]
          · rw [if_neg he] at hblock
            cases hblock
    · rw [hts] at hblock
      dsimp only at hblock
      rw [if_neg (by simp [closes_of_isCloser hcloser])] at hblock
      rcases hs : r (t :: ts') with c | ⟨s, mid⟩ <;> rw [hs] at hblock
      · cases hblock
      · cases hcloser.symm.trans (h.isCloser_eq_false hs)

theorem blockEnd_lax (opener : Keyword) (header header' : Span) :
    Lax id (blockEnd opener header) (blockEnd opener header') := by
  intro ts us _ rest hl h
  obtain ⟨stop, rfl⟩ := blockEnd_eq_ok h
  obtain ⟨b, us, rfl, hrest⟩ := hl.word rfl
  exact ⟨(), us, rfl, rfl, hrest⟩

section Forms

variable {b : Reader (List (Stmt Span))} {single : Reader (Stmt Span)}
  (hb : Lax (List.map bare) b b) (hsingle : Lenient single)

include hb

/-- Behind a block stands its end. -/
theorem closedBlock_lax (opener : Keyword) (header header' : Span)
    (make make' : List (Stmt Span) → Stmt Span)
    (hmake : ∀ ss ss', ss.map bare = ss'.map bare → (make ss).bare = (make' ss').bare) :
    Lax bare (b >>= fun ss => blockEnd opener header >>= fun _ => pure (make ss))
      (b >>= fun ss => blockEnd opener header' >>= fun _ => pure (make' ss)) :=
  hb.bind fun ss ss' hss => (blockEnd_lax opener header header').bind fun _ _ _ =>
    lax_pure (hmake ss ss' hss)

theorem thenPart_lax (header header' : Span) {e e' : Expr Span} (he : e.bare = e'.bare) :
    Lax bare (thenPart b header e) (thenPart b header' e') := by
  refine hb.bind fun yes yes' hyes => ?_
  refine (eat?_lax (t := .keyword .else_) nofun rfl).bind fun x y hxy => ?_
  cases x <;> cases y <;> cases hxy
  · refine (blockEnd_lax .if_ header header').bind fun _ _ _ => lax_pure ?_
    rw [bare_ifThen, bare_ifThen, he, hyes]
  · refine closedBlock_lax hb .if_ header header' (ifElse header e yes) (ifElse header' e' yes')
      fun no no' hno => ?_
    rw [bare_ifElse, bare_ifElse, he, hyes, hno]

include hsingle

theorem guarded_lax (header header' : Span) {e e' : Expr Span} (he : e.bare = e'.bare) :
    Lax bare (guarded b single header e) (guarded b single header' e') := by
  intro ts us s rest hl h
  obtain ⟨hts, -⟩ | ⟨node, a, c, ts', us', hts, hus, hrest⟩ | ⟨t, ts', hts, hcloser⟩ :=
    hl.past_cases
  · rw [guarded_eq, hts] at h
    cases h
  · rw [guarded_eq, hts] at h
    rw [guarded_eq, hus]
    dsimp only at h ⊢
    by_cases hthen : node = .keyword .then_
    · rw [if_pos hthen] at h ⊢
      exact thenPart_lax hb header header' he _ _ _ _ hrest h
    · rw [if_neg hthen] at h ⊢
      by_cases hc : closes node = true
      · rw [if_pos hc] at h
        cases h
      · rw [if_neg hc] at h ⊢
        refine hsingle.lax.bind (fun s s' hs => lax_pure ?_) _ _ _ _ (.keep node a c hrest) h
        rw [bare_ifThen, bare_ifThen, he, List.map_singleton, List.map_singleton, hs]
  · obtain ⟨u, us', hp, hthen, -⟩ | ⟨body, hbody, -⟩ := guarded_cases h
    · cases hts.symm.trans hp
      rw [hthen] at hcloser
      cases hcloser
    · rw [hts] at hbody
      cases hcloser.symm.trans (hsingle.isCloser_eq_false hbody)

theorem form_lax (room : Nat) : Lax bare (form room b single) (form room b single) := by
  intro ts us s rest hl h
  unfold form at h
  split at h
  case h_1 a ts =>
    obtain ⟨c, us, rfl, hrest⟩ := hl.word rfl
    refine (valuesReader_lax room).bind (fun es es' hes => lax_pure ?_) _ _ _ _ hrest h
    exact congrArg (fun es => command () (.display es)) hes
  case h_2 a ts =>
    obtain ⟨c, us, rfl, hrest⟩ := hl.word rfl
    refine (separated_lax nameReader_finds nameReader_lax).bind (fun ns ns' hns => lax_pure ?_)
      _ _ _ _ hrest h
    exact congrArg (fun ns => command () (.prompt ns)) hns
  case h_3 a ts =>
    obtain ⟨c, us, rfl, hrest⟩ := hl.word rfl
    refine textReader_lax.bind (fun text text' htext => ?_) _ _ _ _ hrest h
    refine nameReader_lax.bind fun n n' hn => lax_pure ?_
    exact congrArg₂ (fun text n => command () (.input text n)) htext hn
  case h_4 a ts =>
    obtain ⟨c, us, rfl, hrest⟩ := hl.word rfl
    refine (Expr.reader_lax room).bind (fun e e' he => ?_) _ _ _ _ hrest h
    exact guarded_lax hb hsingle _ _ he
  case h_5 a ts =>
    obtain ⟨c, us, rfl, hrest⟩ := hl.word rfl
    refine (Expr.reader_lax room).bind (fun e e' he => ?_) _ _ _ _ hrest h
    refine closedBlock_lax hb .while_ _ _ (whileLoop (a.merge e.span) e)
      (whileLoop (c.merge e'.span) e') fun ss ss' hss => ?_
    rw [bare_whileLoop, bare_whileLoop, he, hss]
  case h_6 a ts =>
    obtain ⟨c, us, rfl, hrest⟩ := hl.word rfl
    refine (rangeReader_lax room).bind (fun p p' hp => ?_) _ _ _ _ hrest h
    refine closedBlock_lax hb .for_ _ _ (forLoop (a.merge p.2) p.1) (forLoop (c.merge p'.2) p'.1)
      fun ss ss' hss => ?_
    rw [bare_forLoop, bare_forLoop, hss]
    exact congrArg (fun r => forLoop () r _) hp
  case h_7 | h_8 | h_9 =>
    obtain ⟨c, us, rfl, hrest⟩ := hl.word rfl
    cases h
    exact ⟨_, us, rfl, rfl, hrest⟩
  case h_10 => cases h
  case h_11 =>
    obtain ⟨s', rest', hs', hview, hrest⟩ := valueReader_lax room _ _ _ _ hl h
    obtain ⟨e, mid, he, -⟩ := bind_eq_ok.mp hs'
    obtain ⟨⟨node, span⟩, us, rfl, hhead⟩ := Expr.reader_head he
    exact ⟨s', rest', (valueReader_of_head b single hhead span).trans hs', hview, hrest⟩

omit hb hsingle in
/-- A statement that is read does not begin with a closing mark. -/
theorem form_isCloser_eq_false {room : Nat} {t : Spanned Token} {ts rest : List (Spanned Token)}
    {s : Stmt Span} (h : form room b single (t :: ts) = .ok (s, rest)) :
    t.node.isCloser = false := by
  by_contra hcloser
  obtain ⟨node, span⟩ := t
  have hvalue :
      form room b single (⟨node, span⟩ :: ts) = valueReader room (⟨node, span⟩ :: ts) := by
    cases node with
    | mark => rfl
    | _ => exact absurd rfl hcloser
  rw [hvalue] at h
  obtain ⟨e, mid, he, -⟩ := bind_eq_ok.mp h
  exact hcloser (Expr.isCloser_eq_false he)

end Forms

theorem reader_isCloser_eq_false {room : Nat} {t : Spanned Token} {ts rest : List (Spanned Token)}
    {s : Stmt Span} (h : reader room (t :: ts) = .ok (s, rest)) : t.node.isCloser = false := by
  cases room <;> exact form_isCloser_eq_false h

/-- **Statements** do not need the closing marks at their ends. -/
theorem reader_lenient (room : Nat) : Lenient (reader room) := by
  induction room with
  | zero => exact ⟨reader_shrinks 0, reader_isCloser_eq_false, form_lax lax_fail lenient_fail 0⟩
  | succ room ih =>
    have hlax := form_lax (block_lax ih) ih (room + 1)
    exact ⟨reader_shrinks (room + 1), reader_isCloser_eq_false, hlax⟩

end Stmt

end CalcBasic
