import CalcBasic.Expr.Parser
import CalcBasic.Proofs.LineFeeds
import CalcBasic.Proofs.Readers

/-!
# Reading on

What a reader makes of some tokens is compared with what it makes of the same tokens at other places,
with more tokens behind them. `f` changes the places, and `z` is what follows: nothing, or a separator
and then anything.

1. `Resumed` relates the two outcomes. A result comes again, at its new places, and the tokens left
   over are those left over before and then `z`. A complaint comes again if nothing follows. If
   something follows, a complaint may change, but it does not go away, unless it only says that the
   tokens end too early (`Complaint.awaits`).
2. The relation is closed under sequencing (`Resumes.bind`), and it holds for every reader of
   expressions (`Expr.reader_resumes`): an expression never goes on over a separator.
-/

namespace CalcBasic

/-- Whether the tokens only end too early: inside a block, or between a condition and what it
guards. -/
def Complaint.awaits : Complaint → Bool
  | ⟨.unclosed _, _⟩ => true
  | ⟨.expected .guardedStatement none, none⟩ => true
  | _ => false

/-- Changes the place of a complaint. -/
def Complaint.move (f : Span → Span) (c : Complaint) : Complaint := ⟨c.cause, c.span?.map f⟩

namespace Reader

variable {α β γ δ : Type}

/-- Nothing follows, or a separator does. -/
def Trails (z : List (Spanned Token)) : Prop := ∀ t ∈ z.head?, t.node = .separator

theorem trails_nil : Trails [] := by
  intro t ht
  cases ht

theorem trails_separator (span : Span) (ts : List (Spanned Token)) :
    Trails (⟨.separator, span⟩ :: ts) := by
  intro t ht
  cases ht
  rfl

theorem Trails.eq_nil_or {z : List (Spanned Token)} (hz : Trails z) :
    z = [] ∨ ∃ span us, z = ⟨.separator, span⟩ :: us := by
  rcases z with _ | ⟨⟨node, span⟩, us⟩
  · exact .inl rfl
  · obtain rfl : node = .separator := hz _ rfl
    exact .inr ⟨span, us, rfl⟩

/-- How the outcome on the tokens `ts` is related to the outcome on the same tokens at other places
with `z` behind them. -/
inductive Resumed (f : Span → Span) (z : List (Spanned Token)) (g : α → β)
    (ts : List (Spanned Token)) : Except Complaint (α × List (Spanned Token)) →
      Except Complaint (β × List (Spanned Token)) → Prop
  | ok {x : α} {rest : List (Spanned Token)} (hrest : rest <:+ ts) :
      Resumed f z g ts (.ok (x, rest)) (.ok (g x, rest.map (.move f) ++ z))
  | error {c c' : Complaint} (hc : z = [] → c' = c.move f) : Resumed f z g ts (.error c) (.error c')
  | awaits {c : Complaint} {o : Except Complaint (β × List (Spanned Token))} (hz : z ≠ [])
      (hc : c.awaits = true) : Resumed f z g ts (.error c) o

/-- The two readers have related outcomes on all tokens. -/
def Resumes (f : Span → Span) (z : List (Spanned Token)) (g : α → β) (r : Reader α)
    (r' : Reader β) : Prop :=
  ∀ ts, Resumed f z g ts (r ts) (r' (ts.map (.move f) ++ z))

variable {f : Span → Span} {z : List (Spanned Token)} {g : α → β}

/-! ## Sequencing -/

theorem Resumed.bind {g' : γ → δ} {r : Reader α} {r' : Reader β} {k : α → Reader γ}
    {k' : β → Reader δ} {ts us : List (Spanned Token)} (h : Resumed f z g ts (r ts) (r' us))
    (hk : ∀ x rest, rest <:+ ts →
      Resumed f z g' rest (k x rest) (k' (g x) (rest.map (.move f) ++ z))) :
    Resumed f z g' ts ((r >>= k) ts) ((r' >>= k') us) := by
  rw [bind_apply, bind_apply]
  generalize r ts = o at h
  generalize r' us = o' at h
  cases h with
  | error hc => exact .error hc
  | awaits hz hc => exact .awaits hz hc
  | @ok x rest hrest =>
    dsimp only
    have hnext := hk x rest hrest
    generalize k x rest = o at hnext
    generalize k' (g x) (rest.map (.move f) ++ z) = o' at hnext
    cases hnext with
    | error hc => exact .error hc
    | awaits hz hc => exact .awaits hz hc
    | ok h => exact .ok (h.trans hrest)

theorem Resumes.bind {g' : γ → δ} {r : Reader α} {r' : Reader β} {k : α → Reader γ}
    {k' : β → Reader δ} (h : Resumes f z g r r') (hk : ∀ x, Resumes f z g' (k x) (k' (g x))) :
    Resumes f z g' (r >>= k) (r' >>= k') :=
  fun ts => (h ts).bind fun x rest _ => hk x rest

theorem resumes_pure {x : α} {y : β} (h : y = g x) : Resumes f z g (pure x) (pure y) := by
  subst h
  exact fun ts => .ok List.suffix_rfl

theorem Resumed.widen {ts ts' : List (Spanned Token)}
    {o : Except Complaint (α × List (Spanned Token))}
    {o' : Except Complaint (β × List (Spanned Token))} (h : Resumed f z g ts' o o')
    (hts : ts' <:+ ts) : Resumed f z g ts o o' := by
  cases h with
  | ok hrest => exact .ok (hrest.trans hts)
  | error hc => exact .error hc
  | awaits hz hc => exact .awaits hz hc

/-! ## Single tokens -/

theorem resumes_unexpected (what : Expected) :
    Resumes f z g (unexpected what) (unexpected what) := by
  intro ts
  refine .error fun hz => ?_
  subst hz
  cases ts <;> rfl

theorem resumes_fail (cause : Cause) : Resumes f z g (fail cause) (fail cause) := by
  intro ts
  refine .error fun hz => ?_
  subst hz
  cases ts <;> rfl

theorem atEnd_cons (t : Spanned Token) (rest : List (Spanned Token)) :
    atEnd (t :: rest) = .ok (decide (t.node = .separator), t :: rest) := by
  obtain ⟨node, span⟩ := t
  cases node <;> rfl

theorem commaItems_of_ne {item : Reader α} (items : List α) (fuel : Nat)
    (ts : List (Spanned Token)) (h : ∀ t ∈ ts.head?, t.node ≠ .mark .comma) :
    commaItems item items fuel ts = .ok (items.reverse, ts) := by
  cases fuel with
  | zero => rfl
  | succ fuel =>
    rcases ts with _ | ⟨t, rest⟩
    · rfl
    · have heat : eat? (.mark .comma) (t :: rest) = .ok (none, t :: rest) := if_neg (h t rfl)
      rw [commaItems, bind_apply, heat]
      rfl

variable (hz : Trails z)
include hz

theorem resumes_eat? (t : Token) (ht : t ≠ .separator) :
    Resumes f z (Option.map f) (eat? t) (eat? t) := by
  intro ts
  cases ts with
  | nil =>
    have h : eat? t z = .ok (none, z) := by
      obtain rfl | ⟨span, us, rfl⟩ := hz.eq_nil_or
      · rfl
      · exact if_neg (Ne.symm ht)
    rw [List.map_nil, List.nil_append, h]
    exact .ok List.suffix_rfl
  | cons u rest =>
    by_cases hu : u.node = t
    · have h : ∀ (rest) (span : Span), eat? t (⟨u.node, span⟩ :: rest) = .ok (some span, rest) :=
        fun _ _ => if_pos hu
      rw [h, List.map_cons, List.cons_append, Spanned.move, h]
      exact .ok (List.suffix_cons u rest)
    · have h : ∀ (rest) (span : Span), eat? t (⟨u.node, span⟩ :: rest) =
          .ok (none, ⟨u.node, span⟩ :: rest) := fun _ _ => if_neg hu
      rw [h, List.map_cons, List.cons_append, Spanned.move, h]
      exact .ok List.suffix_rfl

theorem resumes_atEnd : Resumes f z id atEnd atEnd := by
  intro ts
  cases ts with
  | nil =>
    have h : atEnd z = .ok (true, z) := by
      obtain rfl | ⟨span, us, rfl⟩ := hz.eq_nil_or <;> rfl
    rw [List.map_nil, List.nil_append, h]
    exact .ok List.suffix_rfl
  | cons u rest =>
    rw [List.map_cons, List.cons_append, Spanned.move, atEnd_cons, atEnd_cons]
    exact .ok List.suffix_rfl

theorem resumes_expect (m : Mark) : Resumes f z id (expect m) (expect m) := by
  refine (resumes_eat? hz (.mark m) nofun).bind fun span => ?_
  cases span with
  | none => exact resumes_unexpected _
  | some span => exact resumes_pure rfl

theorem resumes_close (m : Mark) : Resumes f z (Option.map f) (close m) (close m) := by
  refine (resumes_eat? hz (.mark m) nofun).bind fun span => ?_
  cases span with
  | some span => exact resumes_pure rfl
  | none =>
    refine (resumes_atEnd hz).bind fun ended => ?_
    cases ended with
    | true => exact resumes_pure rfl
    | false => exact resumes_unexpected _

/-- Without a comma both sides stop. -/
theorem resumed_commaItems_stop {item : Reader α} {item' : Reader β} (fuel fuel' : Nat)
    (items : List α) {ts : List (Spanned Token)}
    (hts : ∀ t ∈ ts.head?, t.node ≠ .mark .comma) :
    Resumed f z (List.map g) ts (commaItems item items fuel ts)
      (commaItems item' (items.map g) fuel' (ts.map (.move f) ++ z)) := by
  have hus : ∀ t ∈ (ts.map (Spanned.move f) ++ z).head?, t.node ≠ .mark .comma := by
    cases ts with
    | nil =>
      intro t ht
      rw [hz t ht]
      exact nofun
    | cons u rest =>
      rintro t ⟨⟩
      exact hts u rfl
  rw [commaItems_of_ne _ _ _ hts, commaItems_of_ne _ _ _ hus, ← List.map_reverse]
  exact .ok List.suffix_rfl

/-- Further items after commas. The two sides count their own tokens, and neither runs out of fuel
before it runs out of commas. -/
theorem resumed_commaItems {item : Reader α} {item' : Reader β} (h : Resumes f z g item item')
    (fuel fuel' : Nat) (items : List α) (ts : List (Spanned Token)) (hfuel : ts.length ≤ fuel)
    (hfuel' : ts.length + z.length ≤ fuel') :
    Resumed f z (List.map g) ts (commaItems item items fuel ts)
      (commaItems item' (items.map g) fuel' (ts.map (.move f) ++ z)) := by
  induction fuel generalizing fuel' items ts with
  | zero =>
    obtain rfl : ts = [] := List.length_eq_zero_iff.mp (Nat.le_zero.mp hfuel)
    exact resumed_commaItems_stop hz _ _ _ nofun
  | succ fuel ih =>
    rcases ts with _ | ⟨⟨node, span⟩, rest⟩
    · exact resumed_commaItems_stop hz _ _ _ nofun
    · rw [List.length_cons] at hfuel hfuel'
      by_cases hnode : node = .mark .comma
      · subst hnode
        obtain ⟨fuel', rfl⟩ : ∃ n, fuel' = n + 1 := ⟨fuel' - 1, by omega⟩
        have hitems : Resumed f z (List.map g) rest
            ((item >>= fun x => commaItems item (x :: items) fuel) rest)
            ((item' >>= fun x => commaItems item' (x :: items.map g) fuel')
              (rest.map (.move f) ++ z)) := by
          refine (h rest).bind fun x rest' hrest' => ?_
          have hlen := hrest'.length_le
          exact ih fuel' (x :: items) rest' (by omega) (by omega)
        exact hitems.widen (List.suffix_cons _ _)
      · refine resumed_commaItems_stop hz _ _ _ ?_
        rintro t ⟨⟩
        exact hnode

theorem resumes_separated {item : Reader α} {item' : Reader β} (h : Resumes f z g item item') :
    Resumes f z (List.map g) (separated item) (separated item') := by
  intro ts
  refine (h ts).bind fun x rest hrest => ?_
  refine resumed_commaItems hz h _ _ [x] rest (Nat.le_refl _) ?_
  simp

end Reader

namespace Expr

open Reader

/-! ## Expressions -/

theorem span_map {σ τ : Type} (f : σ → τ) (e : Expr σ) : (e.map f).span = f e.span := by
  cases e <;> rfl

theorem mapAll_eq {σ τ : Type} (f : σ → τ) : ∀ es : List (Expr σ), mapAll f es = es.map (Expr.map f)
  | [] => rfl
  | e :: es => by rw [mapAll, mapAll_eq f es, List.map_cons]

/-- Changes the places in a goal. -/
def Goal.move (f : Span → Span) : Goal → Goal
  | whole => whole
  | operand level => operand level
  | chain level left => chain level (left.map f)

theorem map_join {f : Span → Span} (hf : ∀ a b : Span, f (a.merge b) = (f a).merge (f b))
    (left : Expr Span) (op : Op) (right : Expr Span) :
    (join left op right).map f = join (left.map f) op (right.map f) := by
  simp [join, Expr.map, hf, span_map]

section Levels

variable {f : Span → Span} {z : List (Spanned Token)} {d d' : Goal → Reader (Expr Span)}

/-- The two readers one level deeper have related outcomes for every goal. -/
def DeeperResumes (f : Span → Span) (z : List (Spanned Token)) (d d' : Goal → Reader (Expr Span)) :
    Prop :=
  ∀ g : Goal, Resumes f z (Expr.map f) (d g) (d' (g.move f))

variable (hz : Trails z)
include hz

theorem index?_resumes (hd : Resumes f z (Expr.map f) (d .whole) (d' .whole)) (name : String) :
    Resumes f z (Option.map fun p => (p.1.map f, p.2.map f)) (index? d name) (index? d' name) := by
  unfold index?
  by_cases hi : (Region.of name).isIndexable
  · rw [if_pos hi, if_pos hi]
    refine (resumes_eat? hz (.mark .leftParen) nofun).bind fun paren => ?_
    cases paren with
    | none => exact resumes_pure rfl
    | some span =>
      refine hd.bind fun e => (resumes_close hz .rightParen).bind fun closed => ?_
      exact resumes_pure rfl
  · rw [if_neg hi, if_neg hi]
    exact resumes_pure rfl

theorem resumes_operator? (level : Level) : Resumes f z id (operator? level) (operator? level) := by
  intro ts
  rcases ts with _ | ⟨⟨node, span⟩, rest⟩
  · have h : operator? level z = .ok (none, z) := by
      obtain rfl | ⟨span, us, rfl⟩ := hz.eq_nil_or <;> rfl
    rw [List.map_nil, List.nil_append, h]
    exact .ok List.suffix_rfl
  · cases node with
    | op o =>
      by_cases ho : o.level = level
      · have h : ∀ span rest, operator? level (⟨.op o, span⟩ :: rest) = .ok (some o, rest) :=
          fun _ _ => if_pos ho
        rw [List.map_cons, List.cons_append, Spanned.move, h, h]
        exact .ok (List.suffix_cons _ _)
      · have h : ∀ span rest, operator? level (⟨.op o, span⟩ :: rest) =
            .ok (none, ⟨.op o, span⟩ :: rest) := fun _ _ => if_neg ho
        rw [List.map_cons, List.cons_append, Spanned.move, h, h]
        exact .ok List.suffix_rfl
    | _ => exact .ok List.suffix_rfl

theorem resumes_sign? :
    Resumes f z (Option.map fun p => (p.1, f p.2)) sign? sign? := by
  intro ts
  rcases ts with _ | ⟨⟨node, span⟩, rest⟩
  · have h : sign? z = .ok (none, z) := by
      obtain rfl | ⟨span, us, rfl⟩ := hz.eq_nil_or <;> rfl
    rw [List.map_nil, List.nil_append, h]
    exact .ok List.suffix_rfl
  · cases node with
    | op o =>
      cases o with
      | add | sub => exact .ok (List.suffix_cons _ _)
      | _ => exact .ok List.suffix_rfl
    | _ => exact .ok List.suffix_rfl

variable (hf : ∀ a b : Span, f (a.merge b) = (f a).merge (f b)) (hd : DeeperResumes f z d d')
include hf hd

theorem primary_resumes : Resumes f z (Expr.map f) (primary d) (primary d') := by
  intro ts
  rcases ts with _ | ⟨⟨node, span⟩, rest⟩
  · have h : primary d' z = unexpected .expression z := by
      obtain rfl | ⟨span, us, rfl⟩ := hz.eq_nil_or <;> rfl
    rw [List.map_nil, List.nil_append, h]
    exact resumes_unexpected .expression []
  · cases node with
    | number x => exact .ok (List.suffix_cons _ _)
    | name n =>
      refine Resumed.widen ?_ (List.suffix_cons _ _)
      refine ((index?_resumes hz (hd .whole) n) rest).bind fun i rest' _ => ?_
      rcases i with _ | ⟨e, closed⟩
      · exact resumes_pure rfl rest'
      · refine resumes_pure ?_ rest'
        simp [Expr.map, hf, span_map]
    | mark m =>
      cases m with
      | leftParen =>
        refine Resumed.widen ?_ (List.suffix_cons _ _)
        refine (hd .whole rest).bind fun e rest' _ => ?_
        refine (resumes_close hz .rightParen rest').bind fun closed rest'' _ => ?_
        refine resumes_pure ?_ rest''
        simp [Expr.map, hf, span_map]
      | leftBrace =>
        refine Resumed.widen ?_ (List.suffix_cons _ _)
        refine (resumes_separated hz (hd .whole) rest).bind fun es rest' _ => ?_
        refine (resumes_close hz .rightBrace rest').bind fun closed rest'' _ => ?_
        refine resumes_pure ?_ rest''
        rw [Expr.map, mapAll_eq, hf, List.getLast?_map]
        cases closed <;> cases es.getLast? <;> simp [span_map]
      | _ => exact resumes_unexpected .expression (⟨_, span⟩ :: rest)
    | _ => exact resumes_unexpected .expression (⟨_, span⟩ :: rest)

theorem chain_resumes (level : Level) (left : Expr Span) :
    Resumes f z (Expr.map f) (chain d level left) (chain d' level (left.map f)) := by
  refine (resumes_operator? hz level).bind fun op => ?_
  cases op with
  | none => exact resumes_pure rfl
  | some op =>
    refine (hd (.operand level)).bind fun right => ?_
    have h := hd (.chain level (join left op right))
    rw [Goal.move, map_join hf] at h
    exact h

theorem chained_resumes (level : Level) {r r' : Reader (Expr Span)}
    (h : Resumes f z (Expr.map f) r r') :
    Resumes f z (Expr.map f) (r >>= chain d level) (r' >>= chain d' level) :=
  h.bind (chain_resumes hz hf hd level)

theorem signs_resumes (level : Level) {r r' : Reader (Expr Span)}
    (h : Resumes f z (Expr.map f) r r') :
    Resumes f z (Expr.map f) (signs d level r) (signs d' level r') := by
  refine (resumes_sign? hz).bind fun sign => ?_
  cases sign with
  | none => exact h
  | some p =>
    refine (hd (.operand level)).bind fun e => resumes_pure ?_
    simp [Expr.map, hf, span_map]

theorem factor_resumes : Resumes f z (Expr.map f) (factor d) (factor d') :=
  signs_resumes hz hf hd .product (chained_resumes hz hf hd .power (primary_resumes hz hf hd))

theorem product_resumes : Resumes f z (Expr.map f) (product d) (product d') :=
  chained_resumes hz hf hd .product (factor_resumes hz hf hd)

theorem sum_resumes : Resumes f z (Expr.map f) (sum d) (sum d') :=
  chained_resumes hz hf hd .sum (product_resumes hz hf hd)

theorem comparison_resumes : Resumes f z (Expr.map f) (comparison d) (comparison d') :=
  chained_resumes hz hf hd .comparison (sum_resumes hz hf hd)

theorem conjunction_resumes : Resumes f z (Expr.map f) (conjunction d) (conjunction d') :=
  chained_resumes hz hf hd .conjunction (comparison_resumes hz hf hd)

theorem reach_resumes (g : Goal) : Resumes f z (Expr.map f) (reach d g) (reach d' (g.move f)) := by
  cases g with
  | whole => exact chained_resumes hz hf hd .disjunction (conjunction_resumes hz hf hd)
  | operand level =>
    cases level with
    | disjunction => exact conjunction_resumes hz hf hd
    | conjunction => exact comparison_resumes hz hf hd
    | comparison => exact sum_resumes hz hf hd
    | sum => exact product_resumes hz hf hd
    | product => exact factor_resumes hz hf hd
    | power => exact signs_resumes hz hf hd .power (primary_resumes hz hf hd)
  | chain level left => exact chain_resumes hz hf hd level left

end Levels

variable {f : Span → Span} {z : List (Spanned Token)}
  (hf : ∀ a b : Span, f (a.merge b) = (f a).merge (f b)) (hz : Trails z)
include hf hz

theorem read_resumes (room : Nat) (g : Goal) :
    Resumes f z (Expr.map f) (read room g) (read room (g.move f)) := by
  induction room generalizing g with
  | zero => exact reach_resumes hz hf (fun _ => resumes_fail .tooDeep) g
  | succ room ih => exact reach_resumes hz hf ih g

/-- An expression does not go on over a separator. -/
theorem reader_resumes (room : Nat) :
    Resumes f z (Expr.map f) (reader room) (reader room) := by
  cases room with
  | zero => exact resumes_fail .tooDeep
  | succ room => exact read_resumes hf hz room .whole

end Expr

end CalcBasic
