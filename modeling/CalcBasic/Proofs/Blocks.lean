import CalcBasic.Program
import CalcBasic.Proofs.Resuming

/-!
# Blocks that go on

How reading statements goes on when more tokens follow after a separator.

1. `block_eq` is the recursion of a block without its fuel: separators are passed over, a statement is
   read, and a block of the rest follows.
2. A block that stops at `End` or `Else` stops there whatever follows; one that stops at the end of
   the tokens goes on with what follows (`block_resumes`).
3. A statement that is read to its end stays as it is, and one that fails because the tokens end
   inside it is the only one that more tokens can save (`reader_resumes`).
-/

namespace CalcBasic.Stmt

open Reader

/-! ## Blocks without fuel -/

/-- The tokens after all separators at the front. -/
def past (ts : List (Spanned Token)) : List (Spanned Token) :=
  ts.dropWhile fun t => t.node = .separator

/-- Whether a statement ends here. -/
def endsHere (ts : List (Spanned Token)) : Bool := ts.head?.all fun t => t.node = .separator

/-- Whether a token closes or divides a block. -/
def closes (t : Token) : Bool := t = .keyword .end_ || t = .keyword .else_

theorem block_nil (r : Reader (Stmt Span)) : block r [] = .ok ([], []) := rfl

/-- Puts statements in front of those of a block. -/
def after (ss : List (Stmt Span)) (o : Except Complaint (List (Stmt Span) × List (Spanned Token))) :
    Except Complaint (List (Stmt Span) × List (Spanned Token)) :=
  o.map fun p => (ss ++ p.1, p.2)

/-- What a reader leaves over stands at the end of what it was given. -/
def Shrinks (r : Reader (Stmt Span)) : Prop := ∀ ts s rest, r ts = .ok (s, rest) → rest <:+ ts

@[simp] theorem after_nil (o : Except Complaint (List (Stmt Span) × List (Spanned Token))) :
    after [] o = o := by
  rcases o with c | ⟨ss, rest⟩ <;> rfl

theorem after_append (ss ss' : List (Stmt Span))
    (o : Except Complaint (List (Stmt Span) × List (Spanned Token))) :
    after (ss ++ ss') o = after ss (after ss' o) := by
  rcases o with c | ⟨xs, rest⟩
  · rfl
  · simp [after, Except.map]

theorem atEnd_eq (ts : List (Spanned Token)) : atEnd ts = .ok (endsHere ts, ts) := by
  rcases ts with _ | ⟨⟨node, span⟩, rest⟩
  · rfl
  · exact atEnd_cons ⟨node, span⟩ rest

/-- One round of a block after the separators. -/
theorem blockFrom_succ (r : Reader (Stmt Span)) (ss : List (Stmt Span)) (fuel : Nat)
    (ts : List (Spanned Token)) :
    blockFrom r ss (fuel + 1) ts =
      match past ts with
      | [] => .ok (ss.reverse, [])
      | t :: us =>
        if closes t.node then .ok (ss.reverse, t :: us)
        else
          match r (t :: us) with
          | .error c => .error c
          | .ok (s, rest) =>
            if endsHere rest then blockFrom r (s :: ss) fuel rest
            else unexpected .endOfStatement rest := by
  rw [blockFrom, bind_apply]
  change (peek >>= _) (past ts) = _
  rw [bind_apply]
  rcases past ts with _ | ⟨⟨node, span⟩, us⟩
  · rfl
  · have hgo : (r >>= fun s => atEnd >>= fun ended =>
          if ended = true then blockFrom r (s :: ss) fuel else unexpected .endOfStatement)
          (⟨node, span⟩ :: us) =
        match r (⟨node, span⟩ :: us) with
        | .error c => .error c
        | .ok (s, rest) =>
          if endsHere rest then blockFrom r (s :: ss) fuel rest
          else unexpected .endOfStatement rest := by
      rw [bind_apply]
      rcases r (⟨node, span⟩ :: us) with c | ⟨s, rest⟩
      · rfl
      · dsimp only
        rw [bind_apply, atEnd_eq]
        cases h : endsHere rest <;> rfl
    dsimp only
    by_cases hc : closes node = true
    · rw [if_pos hc]
      simp only [closes, Bool.or_eq_true, decide_eq_true_eq] at hc
      rcases hc with rfl | rfl <;> rfl
    · rw [if_neg hc, ← hgo]
      simp only [closes, Bool.or_eq_true, decide_eq_true_eq, not_or] at hc
      simp [peek, hc]

theorem past_suffix (ts : List (Spanned Token)) : past ts <:+ ts := List.dropWhile_suffix _

theorem node_past {ts us : List (Spanned Token)} {t : Spanned Token} (h : past ts = t :: us) :
    t.node ≠ .separator := by
  induction ts with
  | nil => cases h
  | cons u ts ih =>
    unfold past at h ih
    by_cases hu : u.node = .separator
    · rw [List.dropWhile_cons_of_pos (by simp [hu])] at h
      exact ih h
    · rw [List.dropWhile_cons_of_neg (by simp [hu])] at h
      cases h
      exact hu

/-- A statement that ends before a separator takes at least one token. -/
theorem length_lt_of_endsHere {r : Reader (Stmt Span)} (hr : Shrinks r)
    {ts us rest : List (Spanned Token)} {t : Spanned Token} {s : Stmt Span}
    (hp : past ts = t :: us) (hs : r (t :: us) = .ok (s, rest)) (he : endsHere rest = true) :
    rest.length < ts.length := by
  have hsuffix := hr _ _ _ hs
  have hle := (past_suffix ts).length_le
  rw [hp] at hle
  rcases Nat.lt_or_ge rest.length (t :: us).length with hlt | hge
  · omega
  · obtain rfl := hsuffix.eq_of_length_le hge
    simp [endsHere, node_past hp] at he

/-- The fuel of a block and the statements before it do not matter. -/
theorem blockFrom_eq {r : Reader (Stmt Span)} (hr : Shrinks r) (n : Nat)
    (ts : List (Spanned Token)) (hn : ts.length < n) (ss : List (Stmt Span)) (fuel : Nat)
    (hfuel : ts.length < fuel) : blockFrom r ss fuel ts = after ss.reverse (block r ts) := by
  induction n generalizing ts ss fuel with
  | zero => exact absurd hn (Nat.not_lt_zero _)
  | succ n ih =>
    obtain ⟨fuel, rfl⟩ : ∃ k, fuel = k + 1 := ⟨fuel - 1, by omega⟩
    change _ = after ss.reverse (blockFrom r [] (ts.length + 1) ts)
    rw [blockFrom_succ, blockFrom_succ]
    rcases hp : past ts with _ | ⟨t, us⟩
    · simp [after, Except.map]
    · dsimp only
      by_cases hc : closes t.node = true
      · rw [if_pos hc, if_pos hc]
        simp [after, Except.map]
      · rw [if_neg hc, if_neg hc]
        rcases hs : r (t :: us) with c | ⟨s, rest⟩
        · rfl
        · dsimp only
          by_cases he : endsHere rest = true
          · -- both sides go on with the shorter rest
            have hlt := length_lt_of_endsHere hr hp hs he
            rw [if_pos he, if_pos he, ih rest (by omega) (s :: ss) fuel (by omega),
              ih rest (by omega) [s] ts.length hlt, List.reverse_cons, after_append,
              List.reverse_singleton]
          · rw [if_neg he, if_neg he]
            rfl

/-- The recursion of a block. -/
theorem block_eq {r : Reader (Stmt Span)} (hr : Shrinks r) (ts : List (Spanned Token)) :
    block r ts =
      match past ts with
      | [] => .ok ([], [])
      | t :: us =>
        if closes t.node then .ok ([], t :: us)
        else
          match r (t :: us) with
          | .error c => .error c
          | .ok (s, rest) =>
            if endsHere rest then after [s] (block r rest)
            else unexpected .endOfStatement rest := by
  change blockFrom r [] (ts.length + 1) ts = _
  rw [blockFrom_succ]
  rcases hp : past ts with _ | ⟨t, us⟩
  · rfl
  · dsimp only
    rcases hs : r (t :: us) with c | ⟨s, rest⟩
    · rfl
    · dsimp only
      by_cases he : endsHere rest = true
      · have hlt := length_lt_of_endsHere hr hp hs he
        rw [if_pos he, if_pos he, blockFrom_eq hr _ rest (Nat.lt_succ_self _) [s] ts.length hlt]
        rfl
      · rw [if_neg he, if_neg he]
        rfl

/-! ## What follows a block -/

section Follow

variable {f : Span → Span} {z : List (Spanned Token)}

theorem past_append (ts : List (Spanned Token)) :
    past (ts.map (.move f) ++ z) =
      if (past ts).isEmpty then past z else (past ts).map (.move f) ++ z := by
  unfold past
  rw [List.dropWhile_append, List.dropWhile_map, List.isEmpty_map]
  rfl

theorem endsHere_append (hz : Trails z) (rest : List (Spanned Token)) :
    endsHere (rest.map (.move f) ++ z) = endsHere rest := by
  cases rest with
  | nil =>
    rcases z with _ | ⟨t, z⟩
    · rfl
    · simp [endsHere, hz t rfl]
  | cons t rest => rfl

/-- How a block of the tokens `ts` is related to the block of the same tokens with `z` behind them,
which is read by `r'`. -/
inductive BlockResumed (f : Span → Span) (z : List (Spanned Token)) (r' : Reader (Stmt Span))
    (ts : List (Spanned Token)) : Except Complaint (List (Stmt Span) × List (Spanned Token)) →
      Except Complaint (List (Stmt Span) × List (Spanned Token)) → Prop
  /-- The block is closed before the end. -/
  | closed {ss : List (Stmt Span)} {rest : List (Spanned Token)} (hrest : rest <:+ ts)
      (hne : rest ≠ []) :
      BlockResumed f z r' ts (.ok (ss, rest)) (.ok (ss.map (Stmt.map f), rest.map (.move f) ++ z))
  /-- The block is still open at the end, and goes on. -/
  | opened (ss : List (Stmt Span)) :
      BlockResumed f z r' ts (.ok (ss, [])) (after (ss.map (Stmt.map f)) (block r' z))
  | error {c c' : Complaint} (hc : z = [] → c' = c.move f) :
      BlockResumed f z r' ts (.error c) (.error c')
  | awaits {c : Complaint} {o : Except Complaint (List (Stmt Span) × List (Spanned Token))}
      (hz : z ≠ []) (hc : c.awaits = true) : BlockResumed f z r' ts (.error c) o

theorem BlockResumed.after {r' : Reader (Stmt Span)} {ts ts' : List (Spanned Token)}
    {o o' : Except Complaint (List (Stmt Span) × List (Spanned Token))} {s : Stmt Span}
    (h : BlockResumed f z r' ts' o o') (hts : ts' <:+ ts) :
    BlockResumed f z r' ts (after [s] o) (after [s.map f] o') := by
  cases h with
  | closed hrest hne => exact .closed (hrest.trans hts) hne
  | opened ss =>
    rw [← after_append]
    exact .opened (s :: ss)
  | error hc => exact .error hc
  | awaits hz hc => exact .awaits hz hc

theorem block_resumes (hz : Trails z) {r r' : Reader (Stmt Span)}
    (h : Resumes f z (Stmt.map f) r r') (hr : Shrinks r) (hr' : Shrinks r') (n : Nat)
    (ts : List (Spanned Token)) (hn : ts.length < n) :
    BlockResumed f z r' ts (block r ts) (block r' (ts.map (.move f) ++ z)) := by
  induction n generalizing ts with
  | zero => exact absurd hn (Nat.not_lt_zero _)
  | succ n ih =>
    rw [block_eq hr ts]
    rcases hp : past ts with _ | ⟨t, us⟩
    · -- only separators are left, so the block goes on with what follows
      have hblock : block r' (ts.map (.move f) ++ z) = block r' z := by
        rw [block_eq hr', block_eq hr' z, past_append, hp]
        rfl
      rw [hblock, ← after_nil (block r' z)]
      exact .opened []
    · have hp' : past (ts.map (.move f) ++ z) = t.move f :: (us.map (.move f) ++ z) := by
        rw [past_append, hp]
        rfl
      have hsuffix : t :: us <:+ ts := hp ▸ past_suffix ts
      rw [block_eq hr', hp']
      dsimp only
      by_cases hc : closes t.node = true
      · rw [if_pos hc, if_pos (show closes (t.move f).node = true from hc)]
        exact .closed hsuffix (List.cons_ne_nil t us)
      · rw [if_neg hc, if_neg (show ¬closes (t.move f).node = true from hc)]
        have hstmt := h (t :: us)
        rw [List.map_cons, List.cons_append] at hstmt
        rcases hs : r (t :: us) with c | ⟨s, rest⟩
        · rw [hs] at hstmt
          generalize r' (t.move f :: (us.map (.move f) ++ z)) = o at hstmt
          cases hstmt with
          | error hc => exact .error hc
          | awaits hz hc => exact .awaits hz hc
        · rw [hs] at hstmt
          generalize r' (t.move f :: (us.map (.move f) ++ z)) = o at hstmt
          cases hstmt with
          | ok hrest =>
            dsimp only
            rw [endsHere_append hz]
            by_cases he : endsHere rest = true
            · have hlt := length_lt_of_endsHere hr hp hs he
              rw [if_pos he, if_pos he]
              exact (ih rest (by omega)).after (hrest.trans hsuffix)
            · rw [if_neg he, if_neg he]
              refine .error fun hz => ?_
              subst hz
              cases rest <;> rfl

/-! ## Statements -/

theorem shrinks_of_resumes {r r' : Reader (Stmt Span)} (h : Resumes f z (Stmt.map f) r r') :
    Shrinks r := by
  intro ts s rest hs
  have hts := h ts
  rw [hs] at hts
  generalize r' (ts.map (.move f) ++ z) = o at hts
  cases hts with
  | ok hrest => exact hrest

/-- A block inside a statement. Where it is still open at the end of the tokens, nothing is asked of
the block with more behind it. -/
def BodyResumes (f : Span → Span) (z : List (Spanned Token)) (b b' : Reader (List (Stmt Span))) :
    Prop :=
  ∀ ts, Resumed f z (List.map (Stmt.map f)) ts (b ts) (b' (ts.map (.move f) ++ z)) ∨
    z ≠ [] ∧ ∃ ss, b ts = .ok (ss, [])

/-- A block has to be followed by something that fails for want of tokens if there are none. -/
theorem BodyResumes.bind {β γ : Type} {g : β → γ} {b b' : Reader (List (Stmt Span))}
    {k : List (Stmt Span) → Reader β} {k' : List (Stmt Span) → Reader γ}
    (hb : BodyResumes f z b b')
    (hk : ∀ ss, Resumes f z g (k ss) (k' (ss.map (Stmt.map f))))
    (hend : ∀ ss, ∃ c, k ss [] = .error c ∧ c.awaits = true) :
    Resumes f z g (b >>= k) (b' >>= k') := by
  intro ts
  rcases hb ts with h | ⟨hne, ss, hss⟩
  · exact h.bind fun ss rest _ => hk ss rest
  · obtain ⟨c, hc, hawaits⟩ := hend ss
    have hbind : (b >>= k) ts = .error c := by
      rw [bind_apply, hss]
      exact hc
    rw [hbind]
    exact .awaits hne hawaits

theorem bodyResumes_of_resumes {b b' : Reader (List (Stmt Span))}
    (h : Resumes f z (List.map (Stmt.map f)) b b') : BodyResumes f z b b' := fun ts => .inl (h ts)

theorem bodyResumes_block (hz : Trails z) {r r' : Reader (Stmt Span)}
    (h : Resumes f z (Stmt.map f) r r') (hr : Shrinks r) (hr' : Shrinks r') :
    BodyResumes f z (block r) (block r') := by
  intro ts
  have hblock := block_resumes hz h hr hr' _ ts (Nat.lt_succ_self _)
  generalize block r ts = o at hblock
  generalize block r' (ts.map (.move f) ++ z) = o' at hblock
  cases hblock with
  | closed hrest hne => exact .inl (.ok hrest)
  | opened ss =>
    by_cases hne : z = []
    · subst hne
      refine .inl ?_
      rw [block_nil]
      have heq : Stmt.after (ss.map (Stmt.map f)) (.ok ([], [])) =
          .ok (ss.map (Stmt.map f), [].map (.move f) ++ []) := by simp [Stmt.after, Except.map]
      rw [heq]
      exact .ok (List.nil_suffix)
    · exact .inr ⟨hne, ss, rfl⟩
  | error hc => exact .inl (.error hc)
  | awaits hne hc => exact .inl (.awaits hne hc)

theorem mapAll_eq (ss : List (Stmt Span)) : mapAll f ss = ss.map (Stmt.map f) := by
  induction ss with
  | nil => rfl
  | cons s ss ih => rw [mapAll, ih, List.map_cons]

theorem map_spanThrough (hf : ∀ a b : Span, f (a.merge b) = (f a).merge (f b)) (first : Span)
    (spans : List Span) : f (spanThrough first spans) = spanThrough (f first) (spans.map f) := by
  rw [spanThrough, spanThrough, hf, List.getLast?_map, Option.getD_map]

/-- The blocks of a conditional after `Then`. -/
def thenPart (body : Reader (List (Stmt Span))) (header : Span) (condition : Expr Span) :
    Reader (Stmt Span) := do
  let yes ← body
  match ← eat? (.keyword .else_) with
  | none =>
    blockEnd .if_ header
    return .ifThen header condition yes
  | some _ =>
    let no ← body
    blockEnd .if_ header
    return .ifElse header condition yes no

theorem guarded_eq (body : Reader (List (Stmt Span))) (single : Reader (Stmt Span)) (header : Span)
    (condition : Expr Span) (ts : List (Spanned Token)) :
    guarded body single header condition ts =
      match past ts with
      | [] => unexpected .guardedStatement []
      | t :: us =>
        if t.node = .keyword .then_ then thenPart body header condition us
        else if closes t.node then unexpected .guardedStatement (t :: us)
        else (single >>= fun s => pure (.ifThen header condition [s])) (t :: us) := by
  rw [guarded, bind_apply]
  change (peek >>= _) (past ts) = _
  rw [bind_apply]
  rcases past ts with _ | ⟨⟨node, span⟩, us⟩
  · rfl
  · dsimp only
    by_cases hthen : node = .keyword .then_
    · subst hthen
      rfl
    · rw [if_neg hthen]
      by_cases hc : closes node = true
      · rw [if_pos hc]
        simp only [closes, Bool.or_eq_true, decide_eq_true_eq] at hc
        rcases hc with rfl | rfl <;> rfl
      · rw [if_neg hc]
        simp only [closes, Bool.or_eq_true, decide_eq_true_eq, not_or] at hc
        simp [peek, hc]

theorem blockEnd_resumes (opener : Keyword) (header : Span) :
    Resumes f z id (blockEnd opener header) (blockEnd opener (f header)) := by
  intro ts
  rcases ts with _ | ⟨⟨node, span⟩, rest⟩
  · by_cases hne : z = []
    · subst hne
      exact .error fun _ => rfl
    · exact .awaits hne rfl
  · by_cases hnode : node = .keyword .end_
    · subst hnode
      exact .ok (List.suffix_cons _ _)
    · have h : ∀ (header span : Span) rest, blockEnd opener header (⟨node, span⟩ :: rest) =
          unexpected .blockEnd (⟨node, span⟩ :: rest) := by
        intro header span rest
        simp [blockEnd, hnode]
      rw [h, List.map_cons, List.cons_append, Spanned.move, h]
      exact resumes_unexpected .blockEnd (⟨node, span⟩ :: rest)

theorem nameReader_resumes (hz : Trails z) : Resumes f z (Name.map f) nameReader nameReader := by
  intro ts
  rcases ts with _ | ⟨⟨node, span⟩, rest⟩
  · have h : nameReader z = unexpected .variableName z := by
      obtain rfl | ⟨span, us, rfl⟩ := hz.eq_nil_or <;> rfl
    rw [List.map_nil, List.nil_append, h]
    exact resumes_unexpected .variableName []
  · cases node with
    | name n => exact .ok (List.suffix_cons _ _)
    | _ => exact resumes_unexpected .variableName (⟨_, span⟩ :: rest)

theorem textReader_resumes (hz : Trails z) : Resumes f z id textReader textReader := by
  intro ts
  rcases ts with _ | ⟨⟨node, span⟩, rest⟩
  · have h : textReader z = .ok (none, z) := by
      obtain rfl | ⟨span, us, rfl⟩ := hz.eq_nil_or <;> rfl
    rw [List.map_nil, List.nil_append, h]
    exact .ok List.suffix_rfl
  · cases node with
    | text s =>
      refine Resumed.widen ?_ (List.suffix_cons _ _)
      exact (resumes_expect hz .comma rest).bind fun _ rest' _ => resumes_pure rfl rest'
    | _ => exact .ok List.suffix_rfl

variable (hf : ∀ a b : Span, f (a.merge b) = (f a).merge (f b)) (hz : Trails z)
include hf hz

theorem targetReader_resumes (room : Nat) :
    Resumes f z (fun p => (p.1.map f, f p.2)) (targetReader room) (targetReader room) := by
  refine (nameReader_resumes hz).bind fun name => ?_
  refine (Expr.index?_resumes hz (Expr.reader_resumes hf hz room) name.text).bind fun i => ?_
  rcases i with _ | ⟨e, closed⟩
  · exact resumes_pure rfl
  · refine resumes_pure ?_
    cases closed <;> simp [Target.map, Name.map, hf, Expr.span_map]

theorem valuesReader_resumes (room : Nat) :
    Resumes f z (List.map (Expr.map f)) (valuesReader room) (valuesReader room) := by
  refine (resumes_atEnd hz).bind fun ended => ?_
  cases ended with
  | true => exact resumes_pure rfl
  | false => exact resumes_separated hz (Expr.reader_resumes hf hz room)

theorem valueReader_resumes (room : Nat) :
    Resumes f z (Stmt.map f) (valueReader room) (valueReader room) := by
  refine (Expr.reader_resumes hf hz room).bind fun e => ?_
  refine (resumes_eat? hz (.mark .store) nofun).bind fun store => ?_
  cases store with
  | none => exact resumes_pure (by simp [Stmt.map, Command.map, Expr.span_map])
  | some span =>
    refine (targetReader_resumes hf hz room).bind fun p => resumes_pure ?_
    simp [Stmt.map, Command.map, hf, Expr.span_map]

theorem rangeReader_resumes (room : Nat) :
    Resumes f z (fun p => (p.1.map f, f p.2)) (rangeReader room) (rangeReader room) := by
  refine (nameReader_resumes hz).bind fun counter => (resumes_expect hz .comma).bind fun _ => ?_
  refine (Expr.reader_resumes hf hz room).bind fun start => ?_
  refine (resumes_expect hz .comma).bind fun _ => ?_
  refine (Expr.reader_resumes hf hz room).bind fun last => ?_
  refine (resumes_eat? hz (.mark .comma) nofun).bind fun comma => ?_
  cases comma with
  | none =>
    simp only [Option.map_none, pure_bind]
    refine (resumes_close hz .rightParen).bind fun closed => resumes_pure ?_
    cases closed <;> simp [Range.map, Expr.span_map]
  | some span =>
    simp only [Option.map_some, map_eq_pure_bind, bind_assoc, pure_bind]
    refine (Expr.reader_resumes hf hz room).bind fun step => ?_
    refine (resumes_close hz .rightParen).bind fun closed => resumes_pure ?_
    cases closed <;> simp [Range.map, Expr.span_map]

variable {b b' : Reader (List (Stmt Span))} {s s' : Reader (Stmt Span)}
  (hb : BodyResumes f z b b') (hs : Resumes f z (Stmt.map f) s s')
include hb

omit hf in
theorem thenPart_resumes (header : Span) (e : Expr Span) :
    Resumes f z (Stmt.map f) (thenPart b header e) (thenPart b' (f header) (e.map f)) := by
  refine hb.bind (fun yes => ?_) fun yes => ⟨_, rfl, rfl⟩
  refine (resumes_eat? hz (.keyword .else_) nofun).bind fun otherwise => ?_
  cases otherwise with
  | none =>
    refine (blockEnd_resumes .if_ header).bind fun _ => resumes_pure ?_
    simp [Stmt.map, mapAll_eq]
  | some span =>
    refine hb.bind (fun no => ?_) fun no => ⟨_, rfl, rfl⟩
    refine (blockEnd_resumes .if_ header).bind fun _ => resumes_pure ?_
    simp [Stmt.map, mapAll_eq]

include hs

omit hf in
theorem guarded_resumes (header : Span) (e : Expr Span) :
    Resumes f z (Stmt.map f) (guarded b s header e) (guarded b' s' (f header) (e.map f)) := by
  intro ts
  rw [guarded_eq, guarded_eq, past_append]
  rcases hp : past ts with _ | ⟨t, us⟩
  · by_cases hne : z = []
    · subst hne
      exact .error fun _ => rfl
    · exact .awaits hne rfl
  · have hsuffix : t :: us <:+ ts := hp ▸ past_suffix ts
    refine Resumed.widen ?_ hsuffix
    simp only [List.isEmpty_cons, Bool.false_eq_true, if_false, List.map_cons, List.cons_append]
    by_cases hthen : t.node = .keyword .then_
    · rw [if_pos hthen, if_pos (show (t.move f).node = _ from hthen)]
      exact (thenPart_resumes hz hb header e us).widen (List.suffix_cons t us)
    · rw [if_neg hthen, if_neg (show (t.move f).node ≠ _ from hthen)]
      by_cases hc : closes t.node = true
      · rw [if_pos hc, if_pos (show closes (t.move f).node = true from hc)]
        exact resumes_unexpected .guardedStatement (t :: us)
      · rw [if_neg hc, if_neg (show ¬closes (t.move f).node = true from hc)]
        refine (hs (t :: us)).bind fun x rest _ => resumes_pure ?_ rest
        simp [Stmt.map, mapAll_eq]

theorem form_resumes (room : Nat) :
    Resumes f z (Stmt.map f) (form room b s) (form room b' s') := by
  intro ts
  rcases ts with _ | ⟨⟨node, span⟩, rest⟩
  · have h : form room b' s' z = valueReader room z := by
      obtain rfl | ⟨span, us, rfl⟩ := hz.eq_nil_or <;> rfl
    rw [List.map_nil, List.nil_append, h]
    exact valueReader_resumes hf hz room []
  · cases node with
    | keyword k =>
      cases k with
      | disp =>
        refine Resumed.widen ?_ (List.suffix_cons _ _)
        refine (valuesReader_resumes hf hz room rest).bind fun es rest' _ => resumes_pure ?_ rest'
        simp [Stmt.map, Command.map, map_spanThrough hf, Function.comp_def, Expr.span_map]
      | prompt =>
        refine Resumed.widen ?_ (List.suffix_cons _ _)
        refine (resumes_separated hz (nameReader_resumes hz) rest).bind fun names rest' _ =>
          resumes_pure ?_ rest'
        simp [Stmt.map, Command.map, map_spanThrough hf, Function.comp_def, Name.map]
      | input =>
        refine Resumed.widen ?_ (List.suffix_cons _ _)
        refine (textReader_resumes hz rest).bind fun text rest' _ => ?_
        refine (nameReader_resumes hz rest').bind fun name rest'' _ => resumes_pure ?_ rest''
        simp [Stmt.map, Command.map, Name.map, hf]
      | if_ =>
        refine Resumed.widen ?_ (List.suffix_cons _ _)
        refine (Expr.reader_resumes hf hz room rest).bind fun e rest' _ => ?_
        have h := guarded_resumes hz hb hs (span.merge e.span) e rest'
        rw [hf, ← Expr.span_map f e] at h
        exact h
      | while_ =>
        refine Resumed.widen ?_ (List.suffix_cons _ _)
        refine (Expr.reader_resumes hf hz room rest).bind fun e rest' _ => ?_
        refine (hb.bind (fun body => ?_) fun body => ⟨_, rfl, rfl⟩) rest'
        have h := blockEnd_resumes (f := f) (z := z) .while_ (span.merge e.span)
        rw [hf, ← Expr.span_map f e] at h
        refine h.bind fun _ => resumes_pure ?_
        simp [Stmt.map, mapAll_eq, hf, Expr.span_map]
      | for_ =>
        refine Resumed.widen ?_ (List.suffix_cons _ _)
        refine (rangeReader_resumes hf hz room rest).bind fun p rest' _ => ?_
        refine (hb.bind (fun body => ?_) fun body => ⟨_, rfl, rfl⟩) rest'
        have h := blockEnd_resumes (f := f) (z := z) .for_ (span.merge p.2)
        rw [hf] at h
        refine h.bind fun _ => resumes_pure ?_
        simp [Stmt.map, mapAll_eq, hf]
      | stop => exact .ok (List.suffix_cons _ _)
      | then_ => exact .error fun _ => rfl
      | end_ | else_ => exact valueReader_resumes hf hz room (⟨_, span⟩ :: rest)
    | label n => exact .ok (List.suffix_cons _ _)
    | goto n => exact .ok (List.suffix_cons _ _)
    | _ => exact valueReader_resumes hf hz room (⟨_, span⟩ :: rest)

omit hb hs

/-- A statement that is read to its end stays as it is, whatever follows after a separator; one that
fails does not get better by what follows, unless the tokens end too early. -/
theorem reader_resumes (room : Nat) : Resumes f z (Stmt.map f) (reader room) (reader room) := by
  induction room with
  | zero =>
    exact form_resumes hf hz (bodyResumes_of_resumes (resumes_fail .tooDeep))
      (resumes_fail .tooDeep) 0
  | succ room ih =>
    have hshrinks := shrinks_of_resumes ih
    exact form_resumes hf hz (bodyResumes_block hz ih hshrinks hshrinks) ih (room + 1)

end Follow

end CalcBasic.Stmt
