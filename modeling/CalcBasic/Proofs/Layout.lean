import CalcBasic.Proofs.ProgramLines
import CalcBasic.Proofs.ReadBack

/-!
# Layout

Two token lists have the same layout if they differ only in places, in how many separators stand
where some stand, and in whether separators stand at the end. They are read alike: to the same
program up to places, or to complaints of which both or none say that a block is left open.

1. `Like` relates the lists, and `Tight` does if no separators stand in front.
2. `Alike` relates the outcomes of readers: the results have the same view, and the tokens left over
   are like each other again. It is closed under sequencing (`Even.bind`), and so every reader of
   expressions and statements is even (`Expr.reader_even`, `Stmt.reader_even`).
3. A block passes over separators, so what is left over behind it is tight; the end of a block is
   looked for only there (`blockEnd_alike`).
-/

namespace CalcBasic

open Stmt (past endsHere)

/-! ## Lists with the same layout -/

/-- The lists differ only in places and in how many separators stand where some stand. They do not
begin with separators, and may end with any number. -/
inductive Tight : List (Spanned Token) → List (Spanned Token) → Prop where
  | nil : Tight [] []
  | word {node : Token} (hnode : node ≠ .separator) (a b : Span) {ts us : List (Spanned Token)}
      (hends : endsHere ts = endsHere us) (hpast : Tight (past ts) (past us)) :
      Tight (⟨node, a⟩ :: ts) (⟨node, b⟩ :: us)

/-- The lists are tight behind the separators in front of them. One of them begins with separators
or is empty only if the other does or is. -/
structure Like (ts us : List (Spanned Token)) : Prop where
  ends : endsHere ts = endsHere us
  past : Tight (past ts) (past us)

theorem Stmt.endsHere_eq_true {ts : List (Spanned Token)} :
    endsHere ts = true ↔ Reader.Trails ts := by
  rcases ts with _ | ⟨t, ts⟩
  · exact ⟨fun _ => Reader.trails_nil, fun _ => rfl⟩
  · simp [endsHere, Reader.Trails]

theorem Stmt.endsHere_cons {node : Token} (hnode : node ≠ .separator) (a : Span)
    (ts : List (Spanned Token)) : endsHere (⟨node, a⟩ :: ts) = false := by
  simp [endsHere, hnode]

theorem Tight.like {ts us : List (Spanned Token)} (h : Tight ts us) : Like ts us := by
  cases h with
  | nil => exact ⟨rfl, .nil⟩
  | word hnode a b hends hpast =>
    constructor
    · rw [Stmt.endsHere_cons hnode, Stmt.endsHere_cons hnode]
    · rw [Stmt.past_cons hnode, Stmt.past_cons hnode]
      exact .word hnode a b hends hpast

theorem Like.word {node : Token} (hnode : node ≠ .separator) (a b : Span)
    {ts us : List (Spanned Token)} (h : Like ts us) :
    Like (⟨node, a⟩ :: ts) (⟨node, b⟩ :: us) :=
  (Tight.word hnode a b h.ends h.past).like

/-- Lists with the same layout both begin with a separator or are empty, or they begin with the same
word. -/
theorem Like.cases {ts us : List (Spanned Token)} (h : Like ts us) :
    (Reader.Trails ts ∧ Reader.Trails us) ∨ ∃ node a b ts' us', node ≠ Token.separator ∧
      ts = ⟨node, a⟩ :: ts' ∧ us = ⟨node, b⟩ :: us' ∧ Like ts' us' := by
  by_cases hends : endsHere ts = true
  · exact .inl ⟨Stmt.endsHere_eq_true.mp hends, Stmt.endsHere_eq_true.mp (h.ends ▸ hends)⟩
  · have hus : ¬endsHere us = true := h.ends ▸ hends
    rcases ts with _ | ⟨t, ts⟩
    · exact absurd rfl hends
    rcases us with _ | ⟨u, us⟩
    · exact absurd rfl hus
    have ht : t.node ≠ .separator := fun ht => hends (by simp [endsHere, ht])
    have hu : u.node ≠ .separator := fun hu => hus (by simp [endsHere, hu])
    have hpast := h.past
    rw [Stmt.past_cons ht, Stmt.past_cons hu] at hpast
    cases hpast with
    | word hnode a b hends hpast => exact .inr ⟨_, a, b, ts, us, hnode, rfl, rfl, hends, hpast⟩

/-- The same tokens at other places, with separators behind them. -/
theorem like_of_nodes {ts us : List (Spanned Token)} {seps : List Token}
    (hseps : ∀ t ∈ seps, t = .separator) (h : Reader.nodes ts = Reader.nodes us ++ seps) :
    Like ts us := by
  induction us generalizing ts with
  | nil =>
    have hall : ∀ t ∈ ts, t.node = .separator := by
      intro t ht
      refine hseps _ ?_
      rw [← List.nil_append seps]
      exact h ▸ List.mem_map_of_mem ht
    constructor
    · cases ts with
      | nil => rfl
      | cons t ts => simp [endsHere, hall t List.mem_cons_self]
    · have hpast : past ts = [] := List.dropWhile_eq_nil_iff.mpr fun t ht => by simp [hall t ht]
      rw [hpast]
      exact .nil
  | cons u us ih =>
    obtain ⟨a, ts, rfl, hrest⟩ := Reader.nodes_eq_cons.mp h
    obtain ⟨node, b⟩ := u
    have hlike := ih hrest
    by_cases hsep : node = .separator
    · subst hsep
      exact ⟨rfl, by simpa [past] using hlike.past⟩
    · exact hlike.word hsep a b

/-! ## Outcomes and readers -/

namespace Reader

variable {α β γ δ : Type}

/-- The results have the same view and leave over lists that `R` relates, or both are complaints of
which both or none say that a block is left open. -/
inductive Alike (R : List (Spanned Token) → List (Spanned Token) → Prop) (view : α → γ)
    (ts us : List (Spanned Token)) : Except Complaint (α × List (Spanned Token)) →
      Except Complaint (α × List (Spanned Token)) → Prop where
  | ok {x y : α} {rest rest' : List (Spanned Token)} (hview : view x = view y)
      (hrest : rest <:+ ts) (hrest' : rest' <:+ us) (h : R rest rest') :
      Alike R view ts us (.ok (x, rest)) (.ok (y, rest'))
  | error {c c' : Complaint} (h : c.cause.isIncomplete = c'.cause.isIncomplete) :
      Alike R view ts us (.error c) (.error c')

/-- On lists with the same layout the readers have outcomes that are alike, and leave over lists
with the same layout. -/
def Even (view : α → γ) (r r' : Reader α) : Prop :=
  ∀ ts us, Like ts us → Alike Like view ts us (r ts) (r' us)

variable {R R' : List (Spanned Token) → List (Spanned Token) → Prop} {view : α → γ} {seen : β → δ}
  {ts us : List (Spanned Token)}

theorem Alike.bind {r r' : Reader α} {k k' : α → Reader β}
    (h : Alike R view ts us (r ts) (r' us))
    (hk : ∀ x y rest rest', view x = view y → rest <:+ ts → rest' <:+ us → R rest rest' →
      Alike R' seen rest rest' (k x rest) (k' y rest')) :
    Alike R' seen ts us ((r >>= k) ts) ((r' >>= k') us) := by
  rw [bind_apply, bind_apply]
  generalize r ts = o at h
  generalize r' us = o' at h
  cases h with
  | error hc => exact .error hc
  | @ok x y rest rest' hview hrest hrest' hR =>
    have hnext := hk x y rest rest' hview hrest hrest' hR
    dsimp only
    generalize k x rest = o at hnext
    generalize k' y rest' = o' at hnext
    cases hnext with
    | error hc => exact .error hc
    | ok hseen h h' hR' => exact .ok hseen (h.trans hrest) (h'.trans hrest') hR'

theorem Even.bind {r r' : Reader α} {k k' : α → Reader β} (h : Even view r r')
    (hk : ∀ x y, view x = view y → Even seen (k x) (k' y)) : Even seen (r >>= k) (r' >>= k') :=
  fun ts us hlike => (h ts us hlike).bind fun x y rest rest' hview _ _ => hk x y hview rest rest'

theorem Alike.widen {ts' us' : List (Spanned Token)}
    {o o' : Except Complaint (α × List (Spanned Token))} (h : Alike R view ts' us' o o')
    (hts : ts' <:+ ts) (hus : us' <:+ us) : Alike R view ts us o o' := by
  cases h with
  | ok hview hrest hrest' hR => exact .ok hview (hrest.trans hts) (hrest'.trans hus) hR
  | error hc => exact .error hc

theorem Alike.behind {t u : Spanned Token} {o o' : Except Complaint (α × List (Spanned Token))}
    (h : Alike R view ts us o o') : Alike R view (t :: ts) (u :: us) o o' :=
  h.widen (List.suffix_cons t ts) (List.suffix_cons u us)

/-- Results that take no tokens. -/
theorem alike_here (h : R ts us) {x y : α} (hview : view x = view y) :
    Alike R view ts us (.ok (x, ts)) (.ok (y, us)) :=
  .ok hview List.suffix_rfl List.suffix_rfl h

theorem even_pure {x y : α} (h : view x = view y) : Even view (pure x) (pure y) :=
  fun _ _ hlike => alike_here hlike h

theorem even_unexpected (what : Expected) : Even view (unexpected what) (unexpected what) :=
  fun _ _ _ => .error rfl

theorem even_fail (cause : Cause) : Even view (fail cause) (fail cause) := fun _ _ _ => .error rfl

/-! ## Single tokens -/

theorem head_ne_of_trails {z : List (Spanned Token)} (hz : Trails z) {t : Token}
    (ht : t ≠ .separator) : ∀ u ∈ z.head?, u.node ≠ t := by
  intro u hu hnode
  exact ht (hnode ▸ hz u hu)

theorem eat?_even {t : Token} (ht : t ≠ .separator) : Even Option.isSome (eat? t) (eat? t) := by
  have hend (z : List (Spanned Token)) (hz : Trails z) : eat? t z = .ok (none, z) := by
    obtain rfl | ⟨span, us, rfl⟩ := hz.eq_nil_or
    · rfl
    · exact if_neg (Ne.symm ht)
  intro ts us hlike
  obtain ⟨hts, hus⟩ | ⟨node, a, b, ts, us, hnode, rfl, rfl, hrest⟩ := hlike.cases
  · rw [hend ts hts, hend us hus]
    exact alike_here hlike rfl
  · by_cases hnt : node = t
    · subst hnt
      have htake (span : Span) (rest : List (Spanned Token)) :
          eat? node (⟨node, span⟩ :: rest) = .ok (some span, rest) := if_pos rfl
      rw [htake, htake]
      exact .behind (alike_here hrest rfl)
    · have hleave (span : Span) (rest : List (Spanned Token)) :
          eat? t (⟨node, span⟩ :: rest) = .ok (none, ⟨node, span⟩ :: rest) := if_neg hnt
      rw [hleave, hleave]
      exact alike_here hlike rfl

theorem atEnd_even : Even id atEnd atEnd := by
  intro ts us hlike
  rw [Stmt.atEnd_eq, Stmt.atEnd_eq]
  exact alike_here hlike hlike.ends

theorem expect_even (m : Mark) : Even id (expect m) (expect m) := by
  refine (eat?_even (t := .mark m) nofun).bind fun x y hxy => ?_
  cases x <;> cases y <;> cases hxy
  · exact even_unexpected _
  · exact even_pure rfl

/-- Where the closing mark stands does not matter, nor whether it does. -/
theorem close_even (m : Mark) : Even (fun _ => ()) (close m) (close m) := by
  refine (eat?_even (t := .mark m) nofun).bind fun x y hxy => ?_
  cases x <;> cases y <;> cases hxy
  · refine atEnd_even.bind ?_
    rintro ended _ rfl
    cases ended with
    | true => exact even_pure rfl
    | false => exact even_unexpected _
  · exact even_pure rfl

/-! ## Items -/

/-- Without a comma both sides stop. -/
theorem commaItems_alike_stop {item : Reader α} (fuel fuel' : Nat) {items items' : List α}
    (hitems : items.map view = items'.map view) (hlike : Like ts us)
    (hts : ∀ t ∈ ts.head?, t.node ≠ .mark .comma) (hus : ∀ t ∈ us.head?, t.node ≠ .mark .comma) :
    Alike Like (List.map view) ts us (commaItems item items fuel ts)
      (commaItems item items' fuel' us) := by
  rw [commaItems_of_ne _ _ _ hts, commaItems_of_ne _ _ _ hus]
  refine alike_here hlike ?_
  rw [List.map_reverse, List.map_reverse, hitems]

/-- Further items after commas. Each side counts its own tokens, and neither runs out of fuel before
it runs out of commas. -/
theorem commaItems_alike {item : Reader α} (h : Even view item item) (fuel fuel' : Nat)
    {items items' : List α} (hitems : items.map view = items'.map view) (hlike : Like ts us)
    (hfuel : ts.length ≤ fuel) (hfuel' : us.length ≤ fuel') :
    Alike Like (List.map view) ts us (commaItems item items fuel ts)
      (commaItems item items' fuel' us) := by
  induction fuel generalizing fuel' items items' ts us with
  | zero =>
    obtain rfl : ts = [] := List.length_eq_zero_iff.mp (Nat.le_zero.mp hfuel)
    have hus : Trails us := Stmt.endsHere_eq_true.mp hlike.ends.symm
    exact commaItems_alike_stop _ _ hitems hlike nofun (head_ne_of_trails hus nofun)
  | succ fuel ih =>
    obtain ⟨hts, hus⟩ | ⟨node, a, b, ts, us, hnode, rfl, rfl, hrest⟩ := hlike.cases
    · exact commaItems_alike_stop _ _ hitems hlike (head_ne_of_trails hts nofun)
        (head_ne_of_trails hus nofun)
    · by_cases hcomma : node = .mark .comma
      · subst hcomma
        rw [List.length_cons] at hfuel hfuel'
        obtain ⟨fuel', rfl⟩ : ∃ n, fuel' = n + 1 := ⟨fuel' - 1, by omega⟩
        have hnext : Alike Like (List.map view) ts us
            ((item >>= fun x => commaItems item (x :: items) fuel) ts)
            ((item >>= fun x => commaItems item (x :: items') fuel') us) := by
          refine (h ts us hrest).bind fun x y rest rest' hview hsuffix hsuffix' hlike' => ?_
          have hlen := hsuffix.length_le
          have hlen' := hsuffix'.length_le
          exact ih fuel' (by simp [hview, hitems]) hlike' (by omega) (by omega)
        exact hnext.behind
      · refine commaItems_alike_stop _ _ hitems hlike ?_ ?_ <;>
          rintro t ⟨⟩ <;> exact hcomma

theorem separated_even {item : Reader α} (h : Even view item item) :
    Even (List.map view) (separated item) (separated item) := by
  intro ts us hlike
  refine (h ts us hlike).bind fun x y rest rest' hview _ _ hrest => ?_
  exact commaItems_alike h _ _ (by simp [hview]) hrest (Nat.le_refl _) (Nat.le_refl _)

end Reader

/-! ## Expressions -/

namespace Expr

open Reader

/-- The goals differ only in places. -/
inductive Goal.Alike : Goal → Goal → Prop where
  | whole : Alike .whole .whole
  | operand (level : Level) : Alike (.operand level) (.operand level)
  | chain (level : Level) {left left' : Expr Span} (h : left.bare = left'.bare) :
    Alike (.chain level left) (.chain level left')

theorem operator?_even (level : Level) : Even id (operator? level) (operator? level) := by
  have hend (z : List (Spanned Token)) (hz : Trails z) : operator? level z = .ok (none, z) := by
    obtain rfl | ⟨span, us, rfl⟩ := hz.eq_nil_or <;> rfl
  intro ts us hlike
  obtain ⟨hts, hus⟩ | ⟨node, a, b, ts, us, hnode, rfl, rfl, hrest⟩ := hlike.cases
  · rw [hend ts hts, hend us hus]
    exact alike_here hlike rfl
  · cases node with
    | op o =>
      by_cases ho : o.level = level
      · have htake (span : Span) (rest : List (Spanned Token)) :
            operator? level (⟨.op o, span⟩ :: rest) = .ok (some o, rest) := if_pos ho
        rw [htake, htake]
        exact .behind (alike_here hrest rfl)
      · have hleave (span : Span) (rest : List (Spanned Token)) :
            operator? level (⟨.op o, span⟩ :: rest) = .ok (none, ⟨.op o, span⟩ :: rest) :=
          if_neg ho
        rw [hleave, hleave]
        exact alike_here hlike rfl
    | _ => exact alike_here hlike rfl

theorem sign?_even : Even (Option.map Prod.fst) sign? sign? := by
  have hend (z : List (Spanned Token)) (hz : Trails z) : sign? z = .ok (none, z) := by
    obtain rfl | ⟨span, us, rfl⟩ := hz.eq_nil_or <;> rfl
  intro ts us hlike
  obtain ⟨hts, hus⟩ | ⟨node, a, b, ts, us, hnode, rfl, rfl, hrest⟩ := hlike.cases
  · rw [hend ts hts, hend us hus]
    exact alike_here hlike rfl
  · cases node with
    | op o =>
      cases o with
      | add | sub => exact .behind (alike_here hrest rfl)
      | _ => exact alike_here hlike rfl
    | _ => exact alike_here hlike rfl

section Levels

variable {d : Goal → Reader (Expr Span)} (hd : ∀ g g', Goal.Alike g g' → Even bare (d g) (d g'))

include hd

theorem index?_even (name : String) :
    Even (Option.map fun p => p.1.bare) (index? d name) (index? d name) := by
  unfold index?
  by_cases hi : (Region.of name).isIndexable
  · rw [if_pos hi]
    refine (eat?_even (t := .mark .leftParen) nofun).bind fun x y hxy => ?_
    cases x <;> cases y <;> cases hxy
    · exact even_pure rfl
    · refine (hd _ _ .whole).bind fun e e' he => (close_even .rightParen).bind fun c c' _ => ?_
      exact even_pure (congrArg some he)
  · rw [if_neg hi]
    exact even_pure rfl

theorem primary_even : Even bare (primary d) (primary d) := by
  have hend (z : List (Spanned Token)) (hz : Trails z) :
      primary d z = unexpected .expression z := by
    obtain rfl | ⟨span, us, rfl⟩ := hz.eq_nil_or <;> rfl
  intro ts us hlike
  obtain ⟨hts, hus⟩ | ⟨node, a, b, ts, us, hnode, rfl, rfl, hrest⟩ := hlike.cases
  · rw [hend ts hts, hend us hus]
    exact even_unexpected .expression ts us hlike
  · cases node with
    | number x => exact .behind (alike_here hrest rfl)
    | name n =>
      refine .behind ((index?_even hd n ts us hrest).bind fun x y rest rest' hxy _ _ hlike' => ?_)
      rcases x with _ | ⟨e, closed⟩ <;> rcases y with _ | ⟨e', closed'⟩
      · exact alike_here hlike' rfl
      · cases hxy
      · cases hxy
      · have he : e.bare = e'.bare := Option.some.inj hxy
        exact alike_here hlike' (by simpa [bare, Expr.map] using he)
    | mark m =>
      cases m with
      | leftParen =>
        refine .behind ((hd _ _ .whole ts us hrest).bind fun e e' rest rest' he _ _ hlike' => ?_)
        refine (close_even .rightParen rest rest' hlike').bind fun c c' _ _ _ _ _ hlike'' => ?_
        exact alike_here hlike'' (by simpa [bare, Expr.map] using he)
      | leftBrace =>
        refine .behind ((separated_even (hd _ _ .whole) ts us hrest).bind
          fun es es' rest rest' hes _ _ hlike' => ?_)
        refine (close_even .rightBrace rest rest' hlike').bind fun c c' _ _ _ _ _ hlike'' => ?_
        exact alike_here hlike'' (by rw [bare_list, bare_list, hes])
      | _ => exact even_unexpected .expression _ _ hlike
    | _ => exact even_unexpected .expression _ _ hlike

theorem chain_even (level : Level) {left left' : Expr Span} (h : left.bare = left'.bare) :
    Even bare (chain d level left) (chain d level left') := by
  refine (operator?_even level).bind ?_
  rintro op _ rfl
  cases op with
  | none => exact even_pure h
  | some op =>
    refine (hd _ _ (.operand level)).bind fun right right' hright => ?_
    refine hd _ _ (.chain level ?_)
    simpa [bare, join, Expr.map] using And.intro h hright

theorem signs_even (level : Level) {r : Reader (Expr Span)} (h : Even bare r r) :
    Even bare (signs d level r) (signs d level r) := by
  refine sign?_even.bind fun x y hxy => ?_
  rcases x with _ | ⟨sign, a⟩ <;> rcases y with _ | ⟨sign', b⟩ <;> cases hxy
  · exact h
  · refine (hd _ _ (.operand level)).bind fun e e' he => even_pure ?_
    simpa [bare, Expr.map] using he

theorem phrase_even (ph : Phrase) : Even bare (phraseReader d ph) (phraseReader d ph) :=
  phraseReader_induction (P := fun r => Even bare r r) (primary_even hd)
    (fun l _ h => h.bind fun _ _ hleft => chain_even hd l hleft) (fun l _ h => signs_even hd l h) ph

theorem reach_even {g g' : Goal} (hg : Goal.Alike g g') : Even bare (reach d g) (reach d g') := by
  cases hg with
  | whole => exact phrase_even hd .whole
  | operand l =>
    have h := phrase_even hd l.operand
    rw [← operand_eq] at h
    exact h
  | chain l h => exact chain_even hd l h

end Levels

theorem read_even (room : Nat) (g g' : Goal) (hg : Goal.Alike g g') :
    Even bare (read room g) (read room g') := by
  induction room generalizing g g' with
  | zero => exact reach_even (fun _ _ _ => even_fail .tooDeep) hg
  | succ room ih => exact reach_even ih hg

/-- **Expressions** do not depend on layout. -/
theorem reader_even (room : Nat) : Even bare (reader room) (reader room) := by
  cases room with
  | zero => exact even_fail .tooDeep
  | succ room => exact read_even room _ _ .whole

end Expr

/-! ## Statements -/

namespace Stmt

open Reader

theorem nameReader_even : Even (Name.map fun _ => ()) nameReader nameReader := by
  have hend (z : List (Spanned Token)) (hz : Trails z) :
      nameReader z = unexpected .variableName z := by
    obtain rfl | ⟨span, us, rfl⟩ := hz.eq_nil_or <;> rfl
  intro ts us hlike
  obtain ⟨hts, hus⟩ | ⟨node, a, b, ts, us, hnode, rfl, rfl, hrest⟩ := hlike.cases
  · rw [hend ts hts, hend us hus]
    exact even_unexpected .variableName ts us hlike
  · cases node with
    | name n => exact .behind (alike_here hrest rfl)
    | _ => exact even_unexpected .variableName _ _ hlike

theorem textReader_even : Even id textReader textReader := by
  have hend (z : List (Spanned Token)) (hz : Trails z) : textReader z = .ok (none, z) := by
    obtain rfl | ⟨span, us, rfl⟩ := hz.eq_nil_or <;> rfl
  intro ts us hlike
  obtain ⟨hts, hus⟩ | ⟨node, a, b, ts, us, hnode, rfl, rfl, hrest⟩ := hlike.cases
  · rw [hend ts hts, hend us hus]
    exact alike_here hlike rfl
  · cases node with
    | text s =>
      refine .behind ((expect_even .comma ts us hrest).bind fun _ _ _ _ _ _ _ hlike' => ?_)
      exact alike_here hlike' rfl
    | _ => exact alike_here hlike rfl

theorem targetReader_even (room : Nat) :
    Even (fun p => p.1.map fun _ => ()) (targetReader room) (targetReader room) := by
  refine nameReader_even.bind fun n n' hn => ?_
  have hindex := Expr.index?_even (d := fun _ => Expr.reader room)
    (fun _ _ _ => Expr.reader_even room) n.text
  have htext : n.text = n'.text := congrArg (Name.text (σ := Unit)) hn
  rw [← htext]
  refine hindex.bind fun x y hxy => ?_
  rcases x with _ | ⟨e, closed⟩ <;> rcases y with _ | ⟨e', closed'⟩
  · exact even_pure (congrArg Target.whole hn)
  · cases hxy
  · cases hxy
  · have he : e.bare = e'.bare := Option.some.inj hxy
    exact even_pure (congrArg₂ (Target.element ()) hn he)

theorem valuesReader_even (room : Nat) :
    Even (List.map Expr.bare) (valuesReader room) (valuesReader room) := by
  refine atEnd_even.bind ?_
  rintro ended _ rfl
  cases ended with
  | true => exact even_pure rfl
  | false => exact separated_even (Expr.reader_even room)

theorem valueReader_even (room : Nat) : Even bare (valueReader room) (valueReader room) := by
  refine (Expr.reader_even room).bind fun e e' he => ?_
  refine (eat?_even (t := .mark .store) nofun).bind fun x y hxy => ?_
  cases x <;> cases y <;> cases hxy
  · exact even_pure (congrArg (fun e => command () (.evaluate e)) he)
  · refine (targetReader_even room).bind fun p p' hp => even_pure ?_
    exact congrArg₂ (fun e t => command () (.store e t)) he hp

theorem stepReader_even (room : Nat) {comma comma' : Option Span}
    (h : comma.isSome = comma'.isSome) :
    Even (Option.map Expr.bare) (stepReader room comma) (stepReader room comma') := by
  cases comma <;> cases comma' <;> cases h
  · exact even_pure rfl
  · simp only [stepReader, map_eq_pure_bind]
    exact (Expr.reader_even room).bind fun e e' he => even_pure (congrArg some he)

theorem map_range {n n' : Name Span} {start start' last last' : Expr Span}
    {step step' : Option (Expr Span)} (hn : (n.map fun _ => ()) = n'.map fun _ => ())
    (hstart : start.bare = start'.bare) (hlast : last.bare = last'.bare)
    (hstep : step.map Expr.bare = step'.map Expr.bare) :
    ((⟨n, start, last, step⟩ : Range Span).map fun _ => ()) =
      (⟨n', start', last', step'⟩ : Range Span).map fun _ => () := by
  show Range.mk (n.map fun _ => ()) start.bare last.bare (step.map Expr.bare) = ⟨n'.map _, _, _, _⟩
  rw [hn, hstart, hlast, hstep]
  rfl

theorem rangeReader_even (room : Nat) :
    Even (fun p => p.1.map fun _ => ()) (rangeReader room) (rangeReader room) := by
  rw [rangeReader_eq]
  refine nameReader_even.bind fun n n' hn => (expect_even .comma).bind fun _ _ _ => ?_
  refine (Expr.reader_even room).bind fun start start' hstart => ?_
  refine (expect_even .comma).bind fun _ _ _ => ?_
  refine (Expr.reader_even room).bind fun last last' hlast => ?_
  refine (eat?_even (t := .mark .comma) nofun).bind fun x y hxy => ?_
  refine (stepReader_even room hxy).bind fun step step' hstep => ?_
  exact (close_even .rightParen).bind fun c c' _ => even_pure (map_range hn hstart hlast hstep)

/-! ## Blocks -/

/-- The end of a block is looked for where no separators stand. -/
theorem blockEnd_alike (opener : Keyword) (header header' : Span) {ts us : List (Spanned Token)}
    (h : Tight ts us) :
    Alike Like id ts us (blockEnd opener header ts) (blockEnd opener header' us) := by
  cases h with
  | nil => exact .error rfl
  | @word node hnode a b ts us hends hpast =>
    by_cases hend : node = .keyword .end_
    · subst hend
      exact .behind (alike_here ⟨hends, hpast⟩ rfl)
    · have hother (header span : Span) (rest : List (Spanned Token)) :
          blockEnd opener header (⟨node, span⟩ :: rest) =
            unexpected .blockEnd (⟨node, span⟩ :: rest) := by
        simp [blockEnd, hend]
      rw [hother, hother]
      exact .error rfl

theorem alike_after {s s' : Stmt Span} (hs : s.bare = s'.bare) {ts us : List (Spanned Token)}
    {o o' : Except Complaint (List (Stmt Span) × List (Spanned Token))}
    (h : Alike Tight (List.map bare) ts us o o') :
    Alike Tight (List.map bare) ts us (after [s] o) (after [s'] o') := by
  cases h with
  | error hc => exact .error hc
  | ok hview hrest hrest' hR => exact .ok (by simp [hs, hview]) hrest hrest' hR

/-- A block of statements that do not depend on layout. Where separators stand in front of it, it
does not matter whether any do. -/
theorem block_alike {r : Reader (Stmt Span)} (hr : Shrinks r) (heven : Even bare r r) (n : Nat)
    {ts us : List (Spanned Token)} (hn : ts.length < n) (h : Tight (past ts) (past us)) :
    Alike Tight (List.map bare) ts us (block r ts) (block r us) := by
  induction n generalizing ts us with
  | zero => exact absurd hn (Nat.not_lt_zero _)
  | succ n ih =>
    have hts := past_suffix ts
    have hus := past_suffix us
    rw [block_eq hr, block_eq hr us]
    generalize hp : past ts = ps at h hts
    generalize past us = qs at h hus
    cases h with
    | nil => exact .ok rfl hts hus .nil
    | @word node hnode a b ps qs hends hpast =>
      dsimp only
      by_cases hc : closes node = true
      · rw [if_pos hc, if_pos hc]
        exact .ok rfl hts hus (.word hnode a b hends hpast)
      · rw [if_neg hc, if_neg hc]
        have hstmt := heven _ _ (Tight.word hnode a b hends hpast).like
        generalize hs : r (⟨node, a⟩ :: ps) = o at hstmt
        generalize r (⟨node, b⟩ :: qs) = o' at hstmt
        cases hstmt with
        | error hc => exact .error hc
        | @ok s s' rest rest' hview hrest hrest' hlike =>
          dsimp only
          rw [← hlike.ends]
          by_cases he : endsHere rest = true
          · have hlt := length_lt_of_endsHere hr hp hs he
            have hblock := ih (by omega) hlike.past
            rw [if_pos he, if_pos he]
            exact alike_after hview (hblock.widen (hrest.trans hts) (hrest'.trans hus))
          · rw [if_neg he, if_neg he]
            exact .error rfl

theorem bareAll_eq (ss : List (Stmt Span)) : bareAll ss = ss.map bare := by
  induction ss with
  | nil => rfl
  | cons s ss ih =>
    rw [List.map_cons, ← ih]
    rfl

theorem bare_ifThen (header : Span) (e : Expr Span) (body : List (Stmt Span)) :
    (ifThen header e body).bare = ifThen () e.bare (body.map bare) := by
  rw [← bareAll_eq]
  rfl

theorem bare_ifElse (header : Span) (e : Expr Span) (body otherwise : List (Stmt Span)) :
    (ifElse header e body otherwise).bare =
      ifElse () e.bare (body.map bare) (otherwise.map bare) := by
  rw [← bareAll_eq, ← bareAll_eq]
  rfl

theorem bare_whileLoop (header : Span) (e : Expr Span) (body : List (Stmt Span)) :
    (whileLoop header e body).bare = whileLoop () e.bare (body.map bare) := by
  rw [← bareAll_eq]
  rfl

theorem bare_forLoop (header : Span) (r : Range Span) (body : List (Stmt Span)) :
    (forLoop header r body).bare = forLoop () (r.map fun _ => ()) (body.map bare) := by
  rw [← bareAll_eq]
  rfl

section Forms

variable {b : Reader (List (Stmt Span))} {single : Reader (Stmt Span)}
  (hb : ∀ ts us, Like ts us → Alike Tight (List.map bare) ts us (b ts) (b us))

include hb

/-- Behind a block stands its end. -/
theorem closedBlock_even (opener : Keyword) (header header' : Span)
    (make make' : List (Stmt Span) → Stmt Span)
    (hmake : ∀ ss ss', ss.map bare = ss'.map bare → (make ss).bare = (make' ss').bare) :
    Even bare (b >>= fun ss => blockEnd opener header >>= fun _ => pure (make ss))
      (b >>= fun ss => blockEnd opener header' >>= fun _ => pure (make' ss)) := by
  intro ts us hlike
  refine (hb ts us hlike).bind fun ss ss' rest rest' hss _ _ htight => ?_
  refine (blockEnd_alike opener header header' htight).bind fun _ _ _ _ _ _ _ hlike' => ?_
  exact alike_here hlike' (hmake ss ss' hss)

theorem thenPart_even (header header' : Span) {e e' : Expr Span} (he : e.bare = e'.bare) :
    Even bare (thenPart b header e) (thenPart b header' e') := by
  intro ts us hlike
  refine (hb ts us hlike).bind fun yes yes' rest rest' hyes _ _ htight => ?_
  cases htight with
  | nil => exact .error rfl
  | @word node hnode a c ps qs hends hpast =>
    by_cases helse : node = .keyword .else_
    · subst helse
      refine (closedBlock_even hb .if_ header header' (ifElse header e yes)
        (ifElse header' e' yes') (fun no no' hno => ?_) ps qs ⟨hends, hpast⟩).behind
      rw [bare_ifElse, bare_ifElse, he, hyes, hno]
    · have hnone (span : Span) (rest : List (Spanned Token)) :
          eat? (.keyword .else_) (⟨node, span⟩ :: rest) = .ok (none, ⟨node, span⟩ :: rest) :=
        if_neg helse
      rw [bind_apply, bind_apply, hnone, hnone]
      refine (blockEnd_alike .if_ header header' (.word hnode a c hends hpast)).bind
        fun _ _ _ _ _ _ _ hlike' => alike_here hlike' ?_
      rw [bare_ifThen, bare_ifThen, he, hyes]

variable (hsingle : Even bare single single)

include hsingle

theorem guarded_even (header header' : Span) {e e' : Expr Span} (he : e.bare = e'.bare) :
    Even bare (guarded b single header e) (guarded b single header' e') := by
  intro ts us hlike
  have hts := past_suffix ts
  have hus := past_suffix us
  have htight := hlike.past
  rw [guarded_eq, guarded_eq]
  generalize past ts = ps at htight hts
  generalize past us = qs at htight hus
  cases htight with
  | nil => exact .error rfl
  | @word node hnode a c ps qs hends hpast =>
    refine Alike.widen ?_ hts hus
    dsimp only
    by_cases hthen : node = .keyword .then_
    · rw [if_pos hthen, if_pos hthen]
      exact (thenPart_even hb header header' he ps qs ⟨hends, hpast⟩).behind
    · rw [if_neg hthen, if_neg hthen]
      by_cases hc : closes node = true
      · rw [if_pos hc, if_pos hc]
        exact .error rfl
      · rw [if_neg hc, if_neg hc]
        have hlike' := (Tight.word hnode a c hends hpast).like
        refine (hsingle _ _ hlike').bind fun s s' _ _ hs _ _ hlike'' => alike_here hlike'' ?_
        rw [bare_ifThen, bare_ifThen, he, List.map_singleton, List.map_singleton, hs]

theorem form_even (room : Nat) : Even bare (form room b single) (form room b single) := by
  have hend (z : List (Spanned Token)) (hz : Trails z) :
      form room b single z = valueReader room z := by
    obtain rfl | ⟨span, us, rfl⟩ := hz.eq_nil_or <;> rfl
  intro ts us hlike
  obtain ⟨hts, hus⟩ | ⟨node, a, c, ts, us, hnode, rfl, rfl, hrest⟩ := hlike.cases
  · rw [hend ts hts, hend us hus]
    exact valueReader_even room ts us hlike
  · cases node with
    | keyword k =>
      cases k with
      | disp =>
        refine .behind ((valuesReader_even room ts us hrest).bind
          fun es es' _ _ hes _ _ hlike' => alike_here hlike' ?_)
        exact congrArg (fun es => command () (.display es)) hes
      | prompt =>
        refine .behind ((separated_even nameReader_even ts us hrest).bind
          fun ns ns' _ _ hns _ _ hlike' => alike_here hlike' ?_)
        exact congrArg (fun ns => command () (.prompt ns)) hns
      | input =>
        refine .behind ((textReader_even ts us hrest).bind
          fun text text' rest rest' htext _ _ hlike' => ?_)
        refine (nameReader_even rest rest' hlike').bind
          fun n n' _ _ hn _ _ hlike'' => alike_here hlike'' ?_
        exact congrArg₂ (fun text n => command () (.input text n)) htext hn
      | if_ =>
        refine .behind ((Expr.reader_even room ts us hrest).bind
          fun e e' rest rest' he _ _ hlike' => ?_)
        exact guarded_even hb hsingle _ _ he rest rest' hlike'
      | while_ =>
        refine .behind ((Expr.reader_even room ts us hrest).bind
          fun e e' rest rest' he _ _ hlike' => ?_)
        refine closedBlock_even hb .while_ _ _ (whileLoop (a.merge e.span) e)
          (whileLoop (c.merge e'.span) e') (fun ss ss' hss => ?_) rest rest' hlike'
        rw [bare_whileLoop, bare_whileLoop, he, hss]
      | for_ =>
        refine .behind ((rangeReader_even room ts us hrest).bind
          fun p p' rest rest' hp _ _ hlike' => ?_)
        refine closedBlock_even hb .for_ _ _ (forLoop (a.merge p.2) p.1)
          (forLoop (c.merge p'.2) p'.1) (fun ss ss' hss => ?_) rest rest' hlike'
        rw [bare_forLoop, bare_forLoop, hss]
        exact congrArg (fun r => forLoop () r _) hp
      | stop => exact .behind (alike_here hrest rfl)
      | then_ => exact .error rfl
      | end_ | else_ => exact valueReader_even room _ _ hlike
    | label n => exact .behind (alike_here hrest rfl)
    | goto n => exact .behind (alike_here hrest rfl)
    | _ => exact valueReader_even room _ _ hlike

end Forms

/-- **Statements** do not depend on layout. -/
theorem reader_even (room : Nat) : Even bare (reader room) (reader room) := by
  induction room with
  | zero => exact form_even (b := fail .tooDeep) (fun _ _ _ => .error rfl) (even_fail .tooDeep) 0
  | succ room ih =>
    refine form_even (fun ts us hlike => ?_) ih (room + 1)
    exact block_alike (reader_shrinks room) ih _ (Nat.lt_succ_self _) hlike.past

end Stmt

/-! ## Programs -/

namespace Program

open Reader Stmt

/-- What is made of a source, apart from places and the words of errors: the program, or whether
further lines may complete it. -/
def verdict (o : Except SourceError (Program Span)) : Except Bool (Program Unit) :=
  (o.map bare).mapError SourceError.isIncomplete

/-- **Layout does not matter.** Tokens that have the same layout behind the separators in front of
them are judged alike. -/
theorem verdict_ofBlock (size size' : Nat) {ts us : List (Spanned Token)}
    (h : Tight (past ts) (past us)) :
    verdict (ofBlock size (block (Stmt.reader maxNesting) ts)) =
      verdict (ofBlock size' (block (Stmt.reader maxNesting) us)) := by
  have hblock := block_alike (reader_shrinks maxNesting) (reader_even maxNesting) _
    (Nat.lt_succ_self _) h
  generalize block (Stmt.reader maxNesting) ts = o at hblock
  generalize block (Stmt.reader maxNesting) us = o' at hblock
  cases hblock with
  | error hc => exact congrArg Except.error hc
  | @ok ss ss' rest rest' hss _ _ htight =>
    cases htight with
    | nil =>
      rw [← bareAll_eq, ← bareAll_eq] at hss
      exact congrArg (fun ss => Except.ok (Program.mk ss)) hss
    | word => rfl

end Program

end CalcBasic
