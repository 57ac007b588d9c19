import CalcBasic.Proofs.FaultPlaces
import CalcBasic.Proofs.OpenBlocks
import CalcBasic.Proofs.ProgramLines
import CalcBasic.Proofs.ReadBack

/-!
# Sources that only lack `End`

If a source is turned down because a block is open at its end, all that it lacks is an `End` for
each open block.

1. A block that is open takes further lines, and an `End` closes it (`StillOpen`). So a statement
   with a block that lacks some `End`s lacks one more (`WantsInside.close`).
2. The tokens of a complete statement leave the open blocks as they are, and those of a statement
   that lacks `End`s leave as many blocks open as it lacks `End`s. Both are followed through the
   readers at once (`Tracked`), by induction on the room for nesting (`tracks_reader`).
3. For a source, this gives the lines `End` that complete it (`Program.incomplete_lacks_ends`).
-/

namespace CalcBasic

open Reader

variable {α β : Type}

/-! ## Further lines -/

/-- Lines with an `End` each, at some places. -/
def closing (es : List (Span × Span)) : List (Spanned Token) :=
  es.flatMap fun e => [⟨.separator, e.1⟩, ⟨.keyword .end_, e.2⟩]

theorem closing_cons (e : Span × Span) (es : List (Span × Span)) :
    closing (e :: es) = ⟨.separator, e.1⟩ :: ⟨.keyword .end_, e.2⟩ :: closing es := rfl

theorem closing_append (es fs : List (Span × Span)) :
    closing (es ++ fs) = closing es ++ closing fs := List.flatMap_append

theorem trails_closing (es : List (Span × Span)) : Trails (closing es) := by
  cases es with
  | nil => exact trails_nil
  | cons e es => exact trails_separator e.1 _

theorem Reader.Trails.append {w z : List (Spanned Token)} (hw : Trails w) (hz : Trails z) :
    Trails (w ++ z) := by
  cases w with
  | nil => exact hz
  | cons t w => exact hw

theorem trails_closing_append {es : List (Span × Span)} (h : 0 < es.length)
    (z : List (Spanned Token)) : Trails (closing es ++ z) := by
  cases es with
  | nil => cases h
  | cons e es => exact trails_separator e.1 _

/-- What is read stays as it is if nothing or a separator follows. -/
def Kept (r : Reader α) (ts : List (Spanned Token)) (x : α) (rest : List (Spanned Token)) : Prop :=
  ∀ z, Trails z → r (ts ++ z) = .ok (x, rest ++ z)

theorem kept_of_resumes {r : Reader α} {g : α → α} (hg : ∀ x, g x = x)
    (h : ∀ z, Trails z → Resumes id z g r r) {ts rest : List (Spanned Token)} {x : α}
    (hx : r ts = .ok (x, rest)) : Kept r ts x rest := by
  intro z hz
  have hresumed := h z hz ts
  rw [hx, Spanned.move_id_eq, List.map_id] at hresumed
  generalize r (ts ++ z) = o at hresumed
  cases hresumed with
  | ok hrest => rw [hg, Spanned.move_id_eq, List.map_id]

/-- Exactly `k` lines with an `End` are missing. With fewer of them a block is open, and with so
many a result with the property `P` is read up to the last one. -/
structure Wants (k : Nat) (r : Reader α) (ts : List (Spanned Token)) (P : α → Prop) : Prop where
  fewer : ∀ es, es.length < k →
    ∃ c, r (ts ++ closing es) = .error c ∧ c.cause.isIncomplete = true
  enough : ∀ es, es.length = k → ∃ x, P x ∧ ∀ z, r (ts ++ closing es ++ z) = .ok (x, z)

namespace Wants

variable {k : Nat} {r : Reader α} {ts : List (Spanned Token)} {P : α → Prop}

theorem behind {r' : Reader α} {pre : List (Spanned Token)} (h : Wants k r ts P)
    (hr : ∀ z, r' (pre ++ ts ++ z) = r (ts ++ z)) : Wants k r' (pre ++ ts) P := by
  constructor
  · intro es hes
    rw [hr]
    exact h.fewer es hes
  · intro es hes
    obtain ⟨x, hP, hx⟩ := h.enough es hes
    refine ⟨x, hP, fun z => ?_⟩
    rw [List.append_assoc _ _ z, hr, ← List.append_assoc, hx]

theorem bind_kept {f : α → Reader β} {x : α} {rest : List (Spanned Token)} {Q : β → Prop}
    (hr : Kept r ts x rest) (hk : 0 < k) (h : Wants k (f x) rest Q) : Wants k (r >>= f) ts Q := by
  constructor
  · intro es hes
    rw [bind_apply, hr _ (trails_closing es)]
    exact h.fewer es hes
  · intro es hes
    obtain ⟨y, hQ, hy⟩ := h.enough es hes
    refine ⟨y, hQ, fun z => ?_⟩
    rw [List.append_assoc, bind_apply, hr _ (trails_closing_append (hes ▸ hk) z)]
    dsimp only
    rw [← List.append_assoc, hy]

theorem map {f : α → β} {Q : β → Prop} (h : Wants k r ts P) (hf : ∀ x, P x → Q (f x)) :
    Wants k (r >>= fun x => pure (f x)) ts Q := by
  constructor
  · intro es hes
    obtain ⟨c, hc, hincomplete⟩ := h.fewer es hes
    refine ⟨c, ?_, hincomplete⟩
    rw [bind_apply, hc]
  · intro es hes
    obtain ⟨x, hP, hx⟩ := h.enough es hes
    refine ⟨f x, hf x hP, fun z => ?_⟩
    rw [bind_apply, hx]
    rfl

end Wants

/-! ## Blocks that lack an end -/

namespace Stmt

/-- The block that is read from the tokens is open at their end: nothing is missing in it, and it is
closed or divided by a word on the next line. -/
structure StillOpen (b : Reader (List (Stmt Span))) (ts : List (Spanned Token))
    (ss : List (Stmt Span)) : Prop where
  here : b ts = .ok (ss, [])
  closed : ∀ (a : Span) (t : Spanned Token) (z : List (Spanned Token)), closes t.node = true →
    b (ts ++ ⟨.separator, a⟩ :: t :: z) = .ok (ss, t :: z)

/-- Exactly `k` lines with an `End` are missing for the statements in the block. -/
structure WantsInside (k : Nat) (b : Reader (List (Stmt Span))) (ts : List (Spanned Token))
    (P : List (Stmt Span) → Prop) : Prop where
  fewer : ∀ es, es.length < k →
    ∃ c, b (ts ++ closing es) = .error c ∧ c.cause.isIncomplete = true
  enough : ∀ es, es.length = k → ∃ ss, StillOpen b (ts ++ closing es) ss ∧ P ss

theorem StillOpen.wantsInside {b : Reader (List (Stmt Span))} {ts : List (Spanned Token)}
    {ss : List (Stmt Span)} (h : StillOpen b ts ss) : WantsInside 0 b ts fun _ => True := by
  refine ⟨fun es hes => absurd hes (Nat.not_lt_zero _), fun es hes => ⟨ss, ?_, trivial⟩⟩
  rw [List.length_eq_zero_iff.mp hes]
  rwa [show closing [] = [] from rfl, List.append_nil]

/-! ## The statement that is left open -/

/-- The word that opens the block of a statement. -/
def opener? {σ : Type} : Stmt σ → Option Keyword
  | command _ _ => none
  | ifThen _ _ _ | ifElse _ _ _ _ => some .if_
  | whileLoop _ _ _ => some .while_
  | forLoop _ _ _ => some .for_

/-- The complaint is about the block of the statement or of one inside it. -/
def Has (c : Complaint) (s : Stmt Span) : Prop :=
  ∃ t keyword, (t = s ∨ ∃ b ∈ s.chains, t ∈ b) ∧ t.opener? = some keyword ∧
    c = ⟨.unclosed keyword, some t.span⟩

theorem Has.within {c : Complaint} {s t : Stmt Span} {body : List (Stmt Span)} (h : t.Has c)
    (ht : t ∈ body) (hbody : body ∈ s.blocks) : s.Has c := by
  have hchains : body ∈ s.chains := blocks_subset_chains s hbody
  have hinner : chainsOf body ⊆ s.chains := by
    cases s with
    | command span e => cases hbody
    | ifThen span e ss | whileLoop span e ss | forLoop span e ss =>
      obtain rfl := List.mem_singleton.mp hbody
      exact List.subset_cons_self _ _
    | ifElse span e yes no =>
      obtain rfl | hbody := List.mem_cons.mp hbody
      · exact fun x hx => List.mem_append_left _ (List.mem_cons_of_mem _ hx)
      · obtain rfl := List.mem_singleton.mp hbody
        exact fun x hx => List.mem_append_right _ (List.mem_cons_of_mem _ hx)
  obtain ⟨u, keyword, rfl | ⟨b, hb, hu⟩, hopener, hc⟩ := h
  · exact ⟨u, keyword, .inr ⟨body, hchains, ht⟩, hopener, hc⟩
  · exact ⟨u, keyword, .inr ⟨b, hinner (mem_chainsOf.mpr ⟨t, ht, hb⟩), hu⟩, hopener, hc⟩

/-! ## Following the readers -/

/-- `before` are the tokens of a statement that were taken already. If it is read, it leaves the
open blocks as they are. If a block is open at its end, it lacks an `End` for each block that it
leaves open. -/
structure Tracked (before : List (Spanned Token)) (r : Reader (Stmt Span))
    (ts : List (Spanned Token)) : Prop where
  balanced : ∀ s rest, r ts = .ok (s, rest) → ∃ used, ts = used ++ rest ∧ Balanced (before ++ used)
  lacking : ∀ c, r ts = .error c → c.cause.isIncomplete = true →
    ∃ opens, OpenAt (before ++ ts) c opens ∧ Wants opens.length r ts (Has c)

/-- This holds for all tokens, if none were taken before. -/
def Tracks (r : Reader (Stmt Span)) : Prop := ∀ ts, Tracked [] r ts

/-- The same for the statements of a block. -/
structure TracksBlock (b : Reader (List (Stmt Span))) : Prop where
  balanced : ∀ ts ss rest, b ts = .ok (ss, rest) → ∃ used, ts = used ++ rest ∧ Balanced used
  opened : ∀ ts ss, b ts = .ok (ss, []) → StillOpen b ts ss
  kept : ∀ ts ss t rest, b ts = .ok (ss, t :: rest) → Kept b ts ss (t :: rest)
  lacking : ∀ ts c, b ts = .error c → c.cause.isIncomplete = true →
    ∃ opens, OpenAt ts c opens ∧ WantsInside opens.length b ts fun ss => ∃ s ∈ ss, s.Has c

theorem tracks_tooDeep : Tracks (fail .tooDeep) := by
  refine fun ts => ⟨nofun, fun c h hc => ?_⟩
  cases h
  cases hc

theorem tracksBlock_tooDeep : TracksBlock (fail .tooDeep) := by
  refine ⟨nofun, nofun, nofun, fun ts c h hc => ?_⟩
  cases h
  cases hc

/-- Separators before a statement. -/
theorem exists_past (ts : List (Spanned Token)) :
    ∃ seps, ts = seps ++ past ts ∧ Wordless seps := by
  refine ⟨_, (List.takeWhile_append_dropWhile).symm, fun t ht => ?_⟩
  have hnode : t.node = .separator := by
    simpa using (List.all_eq_true.mp List.all_takeWhile) t ht
  rw [hnode]
  rfl

theorem past_append_of_cons {ts us : List (Spanned Token)} {t : Spanned Token}
    (h : past ts = t :: us) (z : List (Spanned Token)) : past (ts ++ z) = t :: us ++ z := by
  have hpast := past_append (f := id) (z := z) ts
  rw [Spanned.move_id_eq, List.map_id, List.map_id, h] at hpast
  exact hpast

theorem endsHere_of_trails {z : List (Spanned Token)} (hz : Trails z) : endsHere z = true := by
  obtain rfl | ⟨span, us, rfl⟩ := hz.eq_nil_or <;> rfl

/-! ## Blocks -/

section Blocks

variable {r : Reader (Stmt Span)} (hr : Shrinks r) {ts us : List (Spanned Token)}
  {t : Spanned Token} {c : Complaint}

include hr

theorem block_of_error (hp : past ts = t :: us) (ht : closes t.node = false)
    (hs : r (t :: us) = .error c) : block r ts = .error c := by
  rw [block_eq hr, hp]
  dsimp only
  rw [if_neg (Bool.eq_false_iff.mp ht), hs]

theorem block_of_ok (hp : past ts = t :: us) (ht : closes t.node = false) {s : Stmt Span}
    {rest : List (Spanned Token)} (hs : r (t :: us) = .ok (s, rest)) (he : endsHere rest = true) :
    block r ts = after [s] (block r rest) := by
  rw [block_eq hr, hp]
  dsimp only
  rw [if_neg (Bool.eq_false_iff.mp ht), hs]
  exact if_pos he

/-- A block is open in a statement of it: in the first one, or in one behind it. -/
theorem block_error_cases (h : block r ts = .error c) (hc : c.cause.isIncomplete = true) :
    ∃ t us, past ts = t :: us ∧ closes t.node = false ∧
      (r (t :: us) = .error c ∨ ∃ s rest, r (t :: us) = .ok (s, rest) ∧ endsHere rest = true ∧
        rest.length < ts.length ∧ block r rest = .error c) := by
  rw [block_eq hr] at h
  cases hp : past ts with
  | nil =>
    rw [hp] at h
    cases h
  | cons t us =>
    rw [hp] at h
    dsimp only at h
    by_cases ht : closes t.node = true
    · rw [if_pos ht] at h
      cases h
    · rw [if_neg ht] at h
      refine ⟨t, us, rfl, Bool.eq_false_iff.mpr ht, ?_⟩
      rcases hs : r (t :: us) with c' | ⟨s, rest⟩
      · rw [hs] at h
        obtain rfl : c' = c := Except.error.inj h
        exact .inl rfl
      · rw [hs] at h
        dsimp only at h
        by_cases he : endsHere rest = true
        · rw [if_pos he] at h
          have hrest : block r rest = .error c := by
            rcases hb : block r rest with c' | ⟨ss, rest'⟩ <;> rw [hb] at h
            · exact h
            · cases h
          exact .inr ⟨s, rest, rfl, he, length_lt_of_endsHere hr hp hs he, hrest⟩
        · rw [if_neg he] at h
          cases h
          cases hc

/-- A block that goes on with whatever follows is open. -/
theorem stillOpen_of_after {ss : List (Stmt Span)}
    (h : ∀ z, Trails z → block r (ts ++ z) = after ss (block r z)) : StillOpen (block r) ts ss := by
  constructor
  · have hnil := h [] trails_nil
    rwa [List.append_nil, block_nil, after, Except.map, List.append_nil] at hnil
  · intro a t z ht
    have hcloses : block r (t :: z) = .ok ([], t :: z) := by
      refine block_of_closes hr ?_
      rintro _ ⟨⟩
      exact ht
    rw [h _ (trails_separator a _), block_separator hr, hcloses, after, Except.map, List.append_nil]

end Blocks

section Reading

variable {room : Nat}

/-- A block with nothing or a separator behind it. -/
theorem block_resumed (room : Nat) (ts : List (Spanned Token)) {z : List (Spanned Token)}
    (hz : Trails z) :
    BlockResumed id z (reader room) ts (block (reader room) ts)
      (block (reader room) (ts ++ z)) := by
  have h := block_resumes (f := id) hz (reader_resumes (fun _ _ => rfl) hz room)
    (reader_shrinks room) (reader_shrinks room) _ ts (Nat.lt_succ_self _)
  rwa [Spanned.move_id_eq, List.map_id] at h

theorem block_opened {ts : List (Spanned Token)} {ss : List (Stmt Span)}
    (h : block (reader room) ts = .ok (ss, [])) : StillOpen (block (reader room)) ts ss := by
  refine stillOpen_of_after (reader_shrinks room) fun z hz => ?_
  have hresumed := block_resumed room ts hz
  rw [h] at hresumed
  generalize block (reader room) (ts ++ z) = o at hresumed
  cases hresumed with
  | closed _ hne => exact absurd rfl hne
  | opened ss => rw [Stmt.map_id_eq, List.map_id]

theorem block_kept {ts : List (Spanned Token)} {ss : List (Stmt Span)} {t : Spanned Token}
    {rest : List (Spanned Token)} (h : block (reader room) ts = .ok (ss, t :: rest)) :
    Kept (block (reader room)) ts ss (t :: rest) := by
  intro z hz
  have hresumed := block_resumed room ts hz
  rw [h] at hresumed
  generalize block (reader room) (ts ++ z) = o at hresumed
  cases hresumed with
  | closed hrest hne => rw [Stmt.map_id_eq, List.map_id, Spanned.move_id_eq, List.map_id]

theorem reader_kept {ts rest : List (Spanned Token)} {s : Stmt Span}
    (h : reader room ts = .ok (s, rest)) : Kept (reader room) ts s rest :=
  kept_of_resumes Stmt.map_id (fun _ hz => reader_resumes (fun _ _ => rfl) hz room) h

/-- The first statement of a block lacks an `End`. -/
theorem wantsInside_of_first {ts us : List (Spanned Token)} {t : Spanned Token}
    (hp : past ts = t :: us) (ht : closes t.node = false) {k : Nat} {P : Stmt Span → Prop}
    (h : Wants k (reader room) (t :: us) P) :
    WantsInside k (block (reader room)) ts fun ss => ∃ s ∈ ss, P s := by
  constructor
  · intro es hes
    obtain ⟨c, hc, hincomplete⟩ := h.fewer es hes
    exact ⟨c, block_of_error (reader_shrinks room) (past_append_of_cons hp _) ht hc, hincomplete⟩
  · intro es hes
    obtain ⟨s, hP, hs⟩ := h.enough es hes
    refine ⟨[s], stillOpen_of_after (reader_shrinks room) fun z hz => ?_, s, List.mem_cons_self, hP⟩
    rw [List.append_assoc]
    have hread : reader room (t :: us ++ (closing es ++ z)) = .ok (s, z) := by
      rw [← hs z, List.append_assoc]
    exact block_of_ok (reader_shrinks room) (past_append_of_cons hp _) ht hread
      (endsHere_of_trails hz)

/-- A statement of a block lacks an `End`, behind one that is complete. -/
theorem WantsInside.behind {ts us rest : List (Spanned Token)} {t : Spanned Token} {s : Stmt Span}
    {k : Nat} {P : Stmt Span → Prop}
    (h : WantsInside k (block (reader room)) rest fun ss => ∃ s ∈ ss, P s)
    (hp : past ts = t :: us) (ht : closes t.node = false)
    (hs : reader room (t :: us) = .ok (s, rest)) (he : endsHere rest = true) :
    WantsInside k (block (reader room)) ts fun ss => ∃ s ∈ ss, P s := by
  have hblock {z : List (Spanned Token)} (hz : Trails z) :
      block (reader room) (ts ++ z) = after [s] (block (reader room) (rest ++ z)) := by
    have hends := endsHere_append (f := id) hz rest
    rw [Spanned.move_id_eq, List.map_id] at hends
    exact block_of_ok (reader_shrinks room) (past_append_of_cons hp z) ht (reader_kept hs z hz)
      (hends.trans he)
  constructor
  · intro es hes
    obtain ⟨c, hc, hincomplete⟩ := h.fewer es hes
    refine ⟨c, ?_, hincomplete⟩
    rw [hblock (trails_closing es), hc]
    rfl
  · intro es hes
    obtain ⟨ss, hopen, s', hs', hP⟩ := h.enough es hes
    refine ⟨s :: ss, ⟨?_, fun a t z ht => ?_⟩, s', List.mem_cons_of_mem s hs', hP⟩
    · rw [hblock (trails_closing es), hopen.here]
      rfl
    · rw [List.append_assoc, hblock ((trails_closing es).append (trails_separator a _)),
        ← List.append_assoc, hopen.closed a t z ht]
      rfl

variable (htracks : Tracks (reader room))

include htracks

theorem block_balanced (ts : List (Spanned Token)) (ss : List (Stmt Span))
    (rest : List (Spanned Token)) (h : block (reader room) ts = .ok (ss, rest)) :
    ∃ used, ts = used ++ rest ∧ Balanced used := by
  -- a statement takes at least one token, so the rest of the block is a block of fewer tokens
  induction hn : ts.length using Nat.strong_induction_on generalizing ts ss with
  | _ n ih =>
    obtain ⟨seps, hseps, hwordless⟩ := exists_past ts
    obtain ⟨rfl, rfl⟩ | ⟨s, mid, tail, hs, -, hlt, htail, rfl⟩ :=
      block_cases (reader_shrinks room) h
    · exact ⟨seps, hseps, balanced_of_wordless hwordless⟩
    · obtain ⟨used, hused, hbalanced⟩ := (htracks _).balanced _ _ hs
      obtain ⟨used', rfl, hbalanced'⟩ := ih _ (hn ▸ hlt) mid tail htail rfl
      refine ⟨seps ++ used ++ used', ?_, ?_⟩
      · rw [hseps, hused, List.append_assoc, List.append_assoc]
      · exact ((balanced_of_wordless hwordless).append hbalanced).append hbalanced'

/-- A block in which a statement is left open lacks the `End`s of that statement. -/
theorem block_lacking (ts : List (Spanned Token)) (c : Complaint)
    (h : block (reader room) ts = .error c) (hc : c.cause.isIncomplete = true) :
    ∃ opens, OpenAt ts c opens ∧
      WantsInside opens.length (block (reader room)) ts fun ss => ∃ s ∈ ss, s.Has c := by
  induction hn : ts.length using Nat.strong_induction_on generalizing ts with
  | _ n ih =>
    obtain ⟨seps, hseps, hwordless⟩ := exists_past ts
    have hbefore := balanced_of_wordless hwordless
    obtain ⟨t, us, hp, ht, hfirst | ⟨s, rest, hs, he, hlt, hrest⟩⟩ :=
      block_error_cases (reader_shrinks room) h hc <;> rw [hp] at hseps
    · obtain ⟨opens, hopen, hwants⟩ := (htracks _).lacking c hfirst hc
      refine ⟨opens, ?_, wantsInside_of_first hp ht hwants⟩
      rw [hseps]
      exact hopen.behind hbefore
    · obtain ⟨opens, hopen, hwants⟩ := ih _ (hn ▸ hlt) rest hrest rfl
      obtain ⟨used, hused, hbalanced⟩ := (htracks _).balanced _ _ hs
      refine ⟨opens, ?_, hwants.behind hp ht hs he⟩
      rw [hseps, hused, ← List.append_assoc]
      exact hopen.behind (hbefore.append hbalanced)

theorem tracksBlock_block : TracksBlock (block (reader room)) where
  balanced := block_balanced htracks
  opened _ _ := block_opened
  kept _ _ _ _ := block_kept
  lacking := block_lacking htracks

end Reading

/-! ## Statements -/

namespace Tracked

variable {before mid ts us used rest : List (Spanned Token)} {r r' : Reader (Stmt Span)}

theorem behind (h : Tracked (before ++ mid) r us) (hr : ∀ z, r' (mid ++ us ++ z) = r (us ++ z)) :
    Tracked before r' (mid ++ us) := by
  have hus : r' (mid ++ us) = r us := by simpa using hr []
  constructor
  · intro s rest hs
    rw [hus] at hs
    obtain ⟨used, rfl, hbalanced⟩ := h.balanced s rest hs
    exact ⟨mid ++ used, (List.append_assoc _ _ _).symm, by rwa [← List.append_assoc]⟩
  · intro c hc hincomplete
    rw [hus] at hc
    obtain ⟨opens, hopen, hwants⟩ := h.lacking c hc hincomplete
    exact ⟨opens, by rwa [← List.append_assoc], hwants.behind hr⟩

theorem bind_kept {r : Reader α} {f : α → Reader (Stmt Span)} {x : α}
    (h : Tracked (before ++ used) (f x) rest) (hr : Kept r ts x rest) (hts : ts = used ++ rest) :
    Tracked before (r >>= f) ts := by
  have hbind : (r >>= f) ts = f x rest := by
    have hx := hr [] trails_nil
    rw [List.append_nil, List.append_nil] at hx
    rw [bind_apply, hx]
  subst hts
  constructor
  · intro s rest' hs
    rw [hbind] at hs
    obtain ⟨used', rfl, hbalanced⟩ := h.balanced s rest' hs
    exact ⟨used ++ used', (List.append_assoc _ _ _).symm, by rwa [← List.append_assoc]⟩
  · intro c hc hincomplete
    rw [hbind] at hc
    obtain ⟨opens, hopen, hwants⟩ := h.lacking c hc hincomplete
    exact ⟨opens, by rwa [← List.append_assoc], .bind_kept hr hopen.length_pos hwants⟩

theorem congr (h : Tracked before r ts) (hr : ∀ z, r' (ts ++ z) = r (ts ++ z)) :
    Tracked before r' ts := by
  have hnone : Tracked (before ++ []) r ts := by rwa [List.append_nil]
  exact hnone.behind hr

/-- What is read behind the first word of a statement. -/
theorem of_word {t : Spanned Token} (h : Tracked [t] r us)
    (hr : ∀ z, r' (t :: (us ++ z)) = r (us ++ z)) : Tracked [] r' (t :: us) := by
  have hword : Tracked ([] ++ [t]) r us := h
  exact hword.behind hr

/-- What is read without a word that opens or closes a block. -/
theorem of_quiet (h : Quiet ts (r ts)) : Tracked [] r ts := by
  constructor
  · intro s rest hs
    rw [hs] at h
    obtain ⟨used, hused, hwordless⟩ := h
    exact ⟨used, hused, balanced_of_wordless hwordless⟩
  · intro c hc hincomplete
    rw [hc] at h
    exact absurd hincomplete (Bool.eq_false_iff.mp h)

theorem of_error {c : Complaint} (h : r ts = .error c) (hc : c.cause.isIncomplete = false) :
    Tracked before r ts := by
  constructor
  · intro s rest hs
    rw [h] at hs
    cases hs
  · intro c' hc' hincomplete
    rw [h] at hc'
    cases hc'
    exact absurd hincomplete (Bool.eq_false_iff.mp hc)

/-- The one statement behind a condition. -/
theorem single (h : Tracks r) (hbefore : Balanced before) {f : Stmt Span → Stmt Span}
    (hf : ∀ s, [s] ∈ (f s).blocks) : Tracked before (r >>= fun s => pure (f s)) ts := by
  constructor
  · intro s rest hs
    obtain ⟨body, mid, hbody, hmore⟩ := bind_eq_ok.mp hs
    cases hmore
    obtain ⟨used, hused, hbalanced⟩ := (h ts).balanced _ _ hbody
    exact ⟨used, hused, hbefore.append hbalanced⟩
  · intro c hc hincomplete
    rw [bind_apply] at hc
    rcases hr : r ts with c' | ⟨body, mid⟩ <;> rw [hr] at hc
    · cases hc
      obtain ⟨opens, hopen, hwants⟩ := (h ts).lacking c hr hincomplete
      refine ⟨opens, hopen.behind hbefore, hwants.map fun s hs => ?_⟩
      exact hs.within (List.mem_singleton_self s) (hf s)
    · cases hc

end Tracked

/-- The statement that is made from a block has this header, and holds the block. -/
structure Makes (opener : Keyword) (header : Span) (make : List (Stmt Span) → Stmt Span) :
    Prop where
  opener_eq : ∀ ss, (make ss).opener? = some opener
  span_eq : ∀ ss, (make ss).span = header
  mem_blocks : ∀ ss, ss ∈ (make ss).blocks

theorem makes_ifThen (header : Span) (e : Expr Span) : Makes .if_ header (ifThen header e) :=
  ⟨fun _ => rfl, fun _ => rfl, List.mem_singleton_self⟩

theorem makes_ifElse (header : Span) (e : Expr Span) (yes : List (Stmt Span)) :
    Makes .if_ header (ifElse header e yes) :=
  ⟨fun _ => rfl, fun _ => rfl, fun no => List.mem_cons_of_mem yes (List.mem_singleton_self no)⟩

theorem makes_whileLoop (header : Span) (e : Expr Span) :
    Makes .while_ header (whileLoop header e) :=
  ⟨fun _ => rfl, fun _ => rfl, List.mem_singleton_self⟩

theorem makes_forLoop (header : Span) (r : Range Span) : Makes .for_ header (forLoop header r) :=
  ⟨fun _ => rfl, fun _ => rfl, List.mem_singleton_self⟩

/-- What follows a block. If nothing is there, the block lacks its end, and an `End` makes the
statement from it. -/
structure Ends (opener : Keyword) (header : Span) (tail : List (Stmt Span) → Reader (Stmt Span))
    (make : List (Stmt Span) → Stmt Span) : Prop where
  missing : ∀ ss, tail ss [] = .error ⟨.unclosed opener, some header⟩
  found : ∀ ss span z, tail ss (⟨.keyword .end_, span⟩ :: z) = .ok (make ss, z)
  makes : Makes opener header make

section Bodies

variable {b : Reader (List (Stmt Span))} {opener : Keyword} {header : Span}
  {tail : List (Stmt Span) → Reader (Stmt Span)} {make : List (Stmt Span) → Stmt Span}

/-- A statement with an open block lacks an `End` for it besides those that the block lacks. -/
theorem WantsInside.close {k : Nat} {ts : List (Spanned Token)} {P : List (Stmt Span) → Prop}
    {Q : Stmt Span → Prop} (h : WantsInside k b ts P) (hends : Ends opener header tail make)
    (hQ : ∀ ss, P ss → Q (make ss)) : Wants (k + 1) (b >>= tail) ts Q := by
  constructor
  · intro es hes
    rw [bind_apply]
    rcases Nat.lt_or_ge es.length k with hlt | hge
    · obtain ⟨c, hc, hincomplete⟩ := h.fewer es hlt
      rw [hc]
      exact ⟨c, rfl, hincomplete⟩
    · obtain ⟨ss, hopen, -⟩ := h.enough es (by omega)
      rw [hopen.here]
      exact ⟨_, hends.missing ss, rfl⟩
  · intro es hes
    -- the last of the lines closes the block, the others what is open in it
    obtain ⟨es, e, rfl⟩ := (List.eq_nil_or_concat' es).resolve_left fun h => by simp [h] at hes
    rw [List.length_append, List.length_singleton] at hes
    obtain ⟨ss, hopen, hP⟩ := h.enough es (by omega)
    refine ⟨make ss, hQ ss hP, fun z => ?_⟩
    have hlines : ts ++ closing (es ++ [e]) ++ z =
        ts ++ closing es ++ ⟨.separator, e.1⟩ :: ⟨.keyword .end_, e.2⟩ :: z := by
      simp [closing]
    rw [hlines, bind_apply, hopen.closed e.1 ⟨.keyword .end_, e.2⟩ z rfl]
    exact hends.found ss e.2 z

variable {before us : List (Spanned Token)} {t : Spanned Token}

/-- A block and what follows it, behind a header that opens the block. -/
theorem TracksBlock.tracked (hb : TracksBlock b) (hends : Ends opener header tail make)
    (hnode : t.node = .keyword opener) (hpush : Pushes before t)
    (hstart : ∀ a b, InTurn Token.Between a b before → header.start = t.span.start)
    (hclosed : ∀ ss used u rest, Pushes (before ++ used) t →
      Tracked (before ++ used) (tail ss) (u :: rest)) : Tracked before (b >>= tail) us := by
  rcases hus : b us with c | ⟨ss, _ | ⟨u, rest⟩⟩
  · have hbind : (b >>= tail) us = .error c := by rw [bind_apply, hus]
    refine ⟨fun s rest h => ?_, fun c' h hincomplete => ?_⟩ <;> rw [hbind] at h <;> cases h
    obtain ⟨opens, hopen, hwants⟩ := hb.lacking us c hus hincomplete
    refine ⟨opens ++ [t], hopen.inside hpush, ?_⟩
    rw [List.length_append]
    refine hwants.close hends fun ss hss => ?_
    obtain ⟨s, hs, hhas⟩ := hss
    exact hhas.within hs (hends.makes.mem_blocks ss)
  · have hbind : (b >>= tail) us = .error ⟨.unclosed opener, some header⟩ := by
      rw [bind_apply, hus]
      exact hends.missing ss
    obtain ⟨used, hused, hbalanced⟩ := hb.balanced us ss [] hus
    rw [List.append_nil] at hused
    subst hused
    refine ⟨fun s rest h => ?_, fun c h _ => ?_⟩ <;> rw [hbind] at h <;> cases h
    refine ⟨[t], .start hpush hbalanced fun a b hab => ?_, ?_⟩
    · obtain ⟨m, hbefore, -⟩ := hab.split
      exact ⟨opener, header, hnode, rfl, hstart a m hbefore⟩
    · refine (hb.opened us ss hus).wantsInside.close hends fun ss _ => ?_
      exact ⟨make ss, opener, .inl rfl, hends.makes.opener_eq ss, by rw [hends.makes.span_eq]⟩
  · obtain ⟨used, hused, hbalanced⟩ := hb.balanced us ss (u :: rest) hus
    exact (hclosed ss used u rest (hpush.append hbalanced)).bind_kept (hb.kept _ _ _ _ hus) hused

theorem tracked_blockEnd (hpush : Pushes before t) (s : Stmt Span) (u : Spanned Token)
    (rest : List (Spanned Token)) :
    Tracked before (blockEnd opener header >>= fun _ => pure s) (u :: rest) := by
  obtain ⟨node, span⟩ := u
  by_cases hnode : node = .keyword .end_
  · subst hnode
    have hend : (blockEnd opener header >>= fun _ => pure s) (⟨.keyword .end_, span⟩ :: rest) =
        .ok (s, rest) := rfl
    constructor
    · intro s' rest' h
      rw [hend] at h
      cases h
      exact ⟨[_], rfl, hpush.closed span⟩
    · intro c h
      rw [hend] at h
      cases h
  · refine .of_error (c := ⟨.expected .blockEnd (some node), some span⟩) ?_ rfl
    rw [bind_apply]
    simp [blockEnd, hnode, unexpected]

end Bodies

/-! ## Headers -/

/-- The reader of a header behind its first word. `place` is where the header ends. -/
structure IsHeader (r : Reader α) (place : α → Span) : Prop where
  quiet : r.IsQuiet
  kept : ∀ ts x rest, r ts = .ok (x, rest) → Kept r ts x rest
  spans : r.Spans fun a b x => (place x).Between a b

theorem isHeader_condition (room : Nat) : IsHeader (Expr.reader room) Expr.span where
  quiet := Expr.isQuiet_reader room
  kept _ _ _ := kept_of_resumes Expr.map_id fun _ hz => Expr.reader_resumes (fun _ _ => rfl) hz room
  spans := (Expr.reader_spans room).imp fun _ _ _ _ h => h.1

theorem isHeader_range (room : Nat) : IsHeader (rangeReader room) Prod.snd where
  quiet := isQuiet_rangeReader room
  kept _ _ _ := kept_of_resumes (fun p => by rw [Range.map_id, id])
    fun _ hz => rangeReader_resumes (fun _ _ => rfl) hz room
  spans := (rangeReader_spans room).imp fun _ _ _ _ h => h.1

/-- A header begins where its first word does. -/
theorem IsHeader.tracked {r : Reader α} {place : α → Span} (hr : IsHeader r place)
    {f : α → Reader (Stmt Span)} {t : Spanned Token} {ts : List (Spanned Token)}
    (hf : ∀ x used rest, Wordless used →
      (∀ a b, InTurn Token.Between a b (t :: used) →
        (t.span.merge (place x)).start = t.span.start) →
      Tracked (t :: used) (f x) rest) : Tracked [t] (r >>= f) ts := by
  have hquiet := hr.quiet ts
  rcases hts : r ts with c | ⟨x, rest⟩ <;> rw [hts] at hquiet
  · refine .of_error ?_ hquiet
    rw [bind_apply, hts]
  · obtain ⟨used, hused, hwordless⟩ := hquiet
    obtain ⟨used', hused', hspan⟩ := hr.spans ts x rest hts
    obtain rfl : used = used' := List.append_cancel_right (hused.symm.trans hused')
    refine (hf x used rest hwordless fun a b hab => ?_).bind_kept (hr.kept ts x rest hts) hused
    obtain ⟨m, -, ht, hafter⟩ := hab
    have hle : t.span.start ≤ (place x).start :=
      ht.2.1.trans (ht.2.2.trans (hspan m b hafter).1)
    exact Nat.min_eq_left hle

/-! ## Statements by their forms -/

section Forms

variable {b : Reader (List (Stmt Span))} {before : List (Spanned Token)} {t : Spanned Token}
  {header : Span} (hb : TracksBlock b)

include hb

/-- A block that an `End` has to follow. -/
theorem tracked_body {opener : Keyword} {make : List (Stmt Span) → Stmt Span}
    (hmake : Makes opener header make) (hnode : t.node = .keyword opener) (hpush : Pushes before t)
    (hstart : ∀ a b, InTurn Token.Between a b before → header.start = t.span.start)
    (ts : List (Spanned Token)) :
    Tracked before (b >>= fun ss => blockEnd opener header >>= fun _ => pure (make ss)) ts :=
  hb.tracked ⟨fun _ => rfl, fun _ _ _ => rfl, hmake⟩ hnode hpush hstart
    fun ss _ u rest hpush => tracked_blockEnd hpush (make ss) u rest

/-- What follows the first block of a conditional. -/
def elsePart (body : Reader (List (Stmt Span))) (header : Span) (condition : Expr Span)
    (yes : List (Stmt Span)) : Reader (Stmt Span) := do
  match ← eat? (.keyword .else_) with
  | none =>
    blockEnd .if_ header
    return .ifThen header condition yes
  | some _ =>
    let no ← body
    blockEnd .if_ header
    return .ifElse header condition yes no

theorem tracked_thenPart (hnode : t.node = .keyword .if_) (hpush : Pushes before t)
    (hstart : ∀ a b, InTurn Token.Between a b before → header.start = t.span.start) (e : Expr Span)
    (ts : List (Spanned Token)) : Tracked before (thenPart b header e) ts := by
  have hends : Ends .if_ header (elsePart b header e) (ifThen header e) :=
    ⟨fun _ => rfl, fun _ _ _ => rfl, makes_ifThen header e⟩
  refine hb.tracked hends hnode hpush hstart fun yes used u rest hused => ?_
  obtain ⟨node, span⟩ := u
  by_cases helse : node = .keyword .else_
  · subst helse
    have hpush : Pushes (before ++ used ++ [⟨.keyword .else_, span⟩]) t :=
      hused.append (balanced_of_wordless (List.forall_mem_singleton.mpr rfl))
    refine (tracked_body hb (makes_ifElse header e yes) hnode hpush (fun a b hab => ?_) rest).behind
      fun z => rfl
    obtain ⟨m, hab, -⟩ := hab.split
    obtain ⟨m, hab, -⟩ := hab.split
    exact hstart a m hab
  · have hend : Tracked (before ++ used)
        (blockEnd .if_ header >>= fun _ => pure (ifThen header e yes)) (⟨node, span⟩ :: rest) :=
      tracked_blockEnd hused _ _ _
    refine hend.congr fun z => ?_
    have heat : eat? (.keyword .else_) (⟨node, span⟩ :: (rest ++ z)) =
        .ok (none, ⟨node, span⟩ :: (rest ++ z)) := if_neg helse
    rw [List.cons_append, bind_apply, heat]

variable {single : Reader (Stmt Span)} (hs : Tracks single)

include hs

theorem tracked_guarded {used : List (Spanned Token)} (hnode : t.node = .keyword .if_)
    (hused : Wordless used)
    (hstart : ∀ a b, InTurn Token.Between a b (t :: used) → header.start = t.span.start)
    (e : Expr Span) (ts : List (Spanned Token)) :
    Tracked (t :: used) (guarded b single header e) ts := by
  obtain ⟨seps, hseps, hwordless⟩ := exists_past ts
  have hscan (s : Scan) : s.through (t :: used ++ seps) = { s with condition? := some t } := by
    rw [List.cons_append, Scan.through_cons, Scan.through_wordless _ (hused.append hwordless)]
    simp [Scan.step, hnode]
  have hguarded := guarded_eq b single header e ts
  cases hp : past ts with
  | nil =>
    rw [hp] at hguarded
    exact .of_error hguarded rfl
  | cons u us =>
    have hpast (z : List (Spanned Token)) := guarded_eq b single header e (ts ++ z)
    simp only [past_append_of_cons hp, List.cons_append] at hpast
    rw [hp] at hguarded hseps
    by_cases hthen : u.node = .keyword .then_
    · simp only [if_pos hthen] at hpast
      have hpush : Pushes (t :: used ++ (seps ++ [u])) t := by
        intro s
        rw [← List.append_assoc, Scan.through_append, hscan]
        simp [Scan.through, Scan.step, hthen]
      have htracked : Tracked (t :: used ++ (seps ++ [u])) (thenPart b header e) us := by
        refine tracked_thenPart hb hnode hpush (fun a b hab => ?_) e us
        obtain ⟨m, hab, -⟩ := hab.split
        exact hstart a m hab
      rw [hseps, List.append_cons] at hpast ⊢
      exact htracked.behind hpast
    · by_cases hc : closes u.node = true
      · simp only [if_neg hthen, if_pos hc] at hguarded
        exact .of_error hguarded rfl
      · simp only [if_neg hthen, if_neg hc] at hpast
        have hbefore : Balanced (t :: used ++ seps) := fun s => by rw [hscan]
        have htracked : Tracked (t :: used ++ seps)
            (single >>= fun s => pure (ifThen header e [s])) (u :: us) :=
          .single hs hbefore fun s => List.mem_singleton_self _
        rw [hseps] at hpast ⊢
        exact htracked.behind hpast

theorem tracks_form (room : Nat) : Tracks (form room b single) := by
  intro ts
  rcases ts with _ | ⟨⟨node, span⟩, rest⟩
  · exact .of_quiet (isQuiet_valueReader room _)
  cases node with
  | keyword k =>
    cases k with
    | disp =>
      refine .of_quiet (Quiet.behind ?_ rfl)
      exact (isQuiet_valuesReader room).bind (fun _ => isQuiet_pure _) rest
    | prompt =>
      refine .of_quiet (Quiet.behind ?_ rfl)
      exact (isQuiet_separated isQuiet_nameReader).bind (fun _ => isQuiet_pure _) rest
    | input =>
      refine .of_quiet (Quiet.behind ?_ rfl)
      exact isQuiet_textReader.bind
        (fun _ => isQuiet_nameReader.bind fun _ => isQuiet_pure _) rest
    | if_ =>
      have h : Tracked [⟨.keyword .if_, span⟩] (Expr.reader room >>= fun e =>
          guarded b single (span.merge e.span) e) rest := by
        refine (isHeader_condition room).tracked fun e used rest hused hstart => ?_
        exact tracked_guarded hb hs rfl hused hstart e rest
      exact h.of_word fun z => rfl
    | while_ =>
      have h : Tracked [⟨.keyword .while_, span⟩] (Expr.reader room >>= fun e =>
          b >>= fun ss => blockEnd .while_ (span.merge e.span) >>= fun _ =>
            pure (.whileLoop (span.merge e.span) e ss)) rest := by
        refine (isHeader_condition room).tracked fun e used rest hused hstart => ?_
        exact tracked_body hb (makes_whileLoop _ e) rfl (pushes_header (fun _ => rfl) hused) hstart
          rest
      exact h.of_word fun z => rfl
    | for_ =>
      have h : Tracked [⟨.keyword .for_, span⟩] (rangeReader room >>= fun p =>
          b >>= fun ss => blockEnd .for_ (span.merge p.2) >>= fun _ =>
            pure (.forLoop (span.merge p.2) p.1 ss)) rest := by
        refine (isHeader_range room).tracked fun p used rest hused hstart => ?_
        exact tracked_body hb (makes_forLoop _ p.1) rfl (pushes_header (fun _ => rfl) hused) hstart
          rest
      exact h.of_word fun z => rfl
    | stop => exact .of_quiet ((quiet_here _ rest).behind rfl)
    | then_ => exact .of_error rfl rfl
    | _ => exact .of_quiet (isQuiet_valueReader room _)
  | label n | goto n => exact .of_quiet ((quiet_here _ rest).behind rfl)
  | _ => exact .of_quiet (isQuiet_valueReader room _)

end Forms

/-- **Following statements.** With any room for nesting, a statement that is read leaves the open
blocks as they are, and one that ends inside a block lacks an `End` for each block that it leaves
open. -/
theorem tracks_reader (room : Nat) : Tracks (reader room) := by
  induction room with
  | zero => exact tracks_form tracksBlock_tooDeep tracks_tooDeep 0
  | succ room ih => exact tracks_form (tracksBlock_block ih) ih (room + 1)

end Stmt

/-! ## Sources -/

/-- The source with so many further lines `End`. -/
def withEnds (s : String) : Nat → String
  | 0 => s
  | k + 1 => withEnds s k ++ "\n" ++ "End"

theorem read_withEnds {s : String} {ts : List (Spanned Token)} (h : Token.read s = .ok ts)
    (k : Nat) : ∃ es, es.length = k ∧ Token.read (withEnds s k) = .ok (ts ++ closing es) := by
  induction k with
  | zero => exact ⟨[], rfl, by rwa [show closing [] = [] from rfl, List.append_nil]⟩
  | succ k ih =>
    obtain ⟨es, hes, hread⟩ := ih
    have hend : Token.read "End" = .ok [⟨.keyword .end_, ⟨0, 3⟩⟩] := by decide +kernel
    let n := (withEnds s k).utf8ByteSize
    refine ⟨es ++ [(⟨n, n + 1⟩, Span.shift (n + 1) ⟨0, 3⟩)], ?_, ?_⟩
    · rw [List.length_append, hes, List.length_singleton]
    · rw [withEnds, Token.read_newline, hread, hend, closing_append, ← List.append_assoc]
      rfl

namespace Program

open Stmt

/-- The tokens of a source whose blocks are not all closed. -/
theorem exists_lacking {s : String} {e : SourceError} (h : parse s = .error e)
    (he : e.isIncomplete = true) :
    ∃ ts c opens, Token.read s = .ok ts ∧
      e = .malformed c.cause (c.span?.getD ⟨s.utf8ByteSize, s.utf8ByteSize⟩) ∧
      OpenAt ts c opens ∧ WantsInside opens.length (block (Stmt.reader maxNesting)) ts fun ss =>
        ∃ st ∈ ss, st.Has c := by
  rw [parse_eq] at h
  rcases hts : Token.read s with u | ts <;> rw [hts] at h
  · cases h
    cases he
  · dsimp only at h
    rcases hblock : block (Stmt.reader maxNesting) ts with c | ⟨ss, _ | ⟨t, rest⟩⟩ <;>
      rw [hblock] at h <;> cases h
    · obtain ⟨opens, hopen, hwants⟩ := block_lacking (tracks_reader maxNesting) ts c hblock he
      exact ⟨ts, c, opens, rfl, rfl, hopen, hwants⟩
    · cases he

section WithEnds

variable {s : String} {ts : List (Spanned Token)} {k : Nat} {P : List (Stmt Span) → Prop}
  (hread : Token.read s = .ok ts) (h : WantsInside k (block (Stmt.reader maxNesting)) ts P)

include hread h

theorem parse_withEnds_of_lt {j : Nat} (hj : j < k) :
    ∃ e, parse (withEnds s j) = .error e ∧ e.isIncomplete = true := by
  obtain ⟨es, hes, hread⟩ := read_withEnds hread j
  obtain ⟨c, hc, hincomplete⟩ := h.fewer es (hes ▸ hj)
  rw [parse_eq, hread]
  dsimp only
  rw [hc]
  exact ⟨_, rfl, hincomplete⟩

theorem parse_withEnds_self : ∃ p, parse (withEnds s k) = .ok p ∧ P p.statements := by
  obtain ⟨es, hes, hread⟩ := read_withEnds hread k
  obtain ⟨ss, hopen, hP⟩ := h.enough es hes
  rw [parse_eq, hread]
  dsimp only
  rw [hopen.here]
  exact ⟨⟨ss⟩, rfl, hP⟩

theorem parse_withEnds_of_gt {j : Nat} (hj : k < j) :
    ∃ cause span, parse (withEnds s j) = .error (.malformed cause span) ∧
      cause.isIncomplete = false := by
  obtain ⟨es, hes, hread⟩ := read_withEnds hread j
  -- the first `End` that is one too many closes nothing
  obtain ⟨e, others, hothers⟩ : ∃ e others, es.drop k = e :: others :=
    List.exists_cons_of_length_pos (by rw [List.length_drop]; omega)
  have hlength : (es.take k).length = k := List.length_take_of_le (by omega)
  obtain ⟨ss, hopen, -⟩ := h.enough (es.take k) hlength
  have hlines : ts ++ closing es = ts ++ closing (es.take k) ++
      ⟨.separator, e.1⟩ :: ⟨.keyword .end_, e.2⟩ :: closing others := by
    rw [List.append_assoc, ← closing_cons, ← closing_append, ← hothers, List.take_append_drop]
  rw [parse_eq, hread]
  dsimp only
  rw [hlines, hopen.closed e.1 ⟨.keyword .end_, e.2⟩ _ rfl]
  exact ⟨_, _, rfl, rfl⟩

end WithEnds

theorem contains_of_has {p : Program Span} {st : Stmt Span} {c : Complaint}
    (hst : st ∈ p.statements) (h : st.Has c) : ∃ t keyword, p.Contains t ∧
      t.opener? = some keyword ∧ c = ⟨.unclosed keyword, some t.span⟩ := by
  obtain ⟨t, keyword, rfl | ⟨b, hb, ht⟩, hopener, hc⟩ := h
  · exact ⟨t, keyword, ⟨p.statements, List.mem_cons_self, hst⟩, hopener, hc⟩
  · have hchain : b ∈ p.chains := List.mem_cons_of_mem _ (mem_chainsOf.mpr ⟨st, hst, hb⟩)
    exact ⟨t, keyword, ⟨b, hchain, ht⟩, hopener, hc⟩

/-- **Only `End`s are missing.** If a source is turned down because a block is open at its end, then
as many further lines `End` as there are open blocks complete it. With fewer lines a block is open
still, and with more the source is malformed in another way. The error names the innermost open
block: its header is that of the statement which begins there in the completed program. -/
theorem incomplete_lacks_ends {s : String} {e : SourceError} (h : parse s = .error e)
    (he : e.isIncomplete = true) :
    ∃ k, 1 ≤ k ∧ (∀ j, (∃ p, parse (withEnds s j) = .ok p) ↔ j = k) ∧
      (∀ j < k, ∃ e', parse (withEnds s j) = .error e' ∧ e'.isIncomplete = true) ∧
      (∀ j > k, ∃ cause span, parse (withEnds s j) = .error (.malformed cause span) ∧
        cause.isIncomplete = false) ∧
      ∃ keyword header, e = .malformed (.unclosed keyword) header ∧
        (∃ ts t outer, Token.read s = .ok ts ∧ openBlocks ts = t :: outer ∧
          (openBlocks ts).length = k ∧ t.node = .keyword keyword ∧
          t.span.start = header.start) ∧
        ∃ p st, parse (withEnds s k) = .ok p ∧ p.Contains st ∧ st.opener? = some keyword ∧
          st.span = header := by
  obtain ⟨ts, c, opens, hread, rfl, hopen, hwants⟩ := exists_lacking h he
  have hlt (j : Nat) (hj : j < opens.length) := parse_withEnds_of_lt hread hwants hj
  have hgt (j : Nat) (hj : opens.length < j) := parse_withEnds_of_gt hread hwants hj
  obtain ⟨p, hp, st, hst, hhas⟩ := parse_withEnds_self hread hwants
  have hscan : openBlocks ts = opens := (hopen.scan ⟨none, []⟩).trans (List.append_nil opens)
  obtain ⟨t, outer, hopens, hinnermost⟩ := hopen.innermost
  obtain ⟨keyword, header, hnode, rfl, hstart⟩ := hinnermost _ _ (Token.read_inTurn hread)
  obtain ⟨st', keyword', hcontains, hopener, hc⟩ := contains_of_has hst hhas
  obtain ⟨rfl, rfl⟩ : keyword = keyword' ∧ header = st'.span := by simpa using hc
  refine ⟨opens.length, hopen.length_pos, fun j => ⟨?_, ?_⟩, hlt, hgt, keyword, _, rfl,
    ⟨ts, t, outer, hread, hscan.trans hopens, by rw [hscan], hnode, hstart.symm⟩,
    p, st', hp, hcontains, hopener, rfl⟩
  · rintro ⟨q, hq⟩
    rcases Nat.lt_trichotomy j opens.length with hj | hj | hj
    · obtain ⟨e', he', -⟩ := hlt j hj
      rw [hq] at he'
      cases he'
    · exact hj
    · obtain ⟨cause, span, he', -⟩ := hgt j hj
      rw [hq] at he'
      cases he'
  · rintro rfl
    exact ⟨p, hp⟩

/-- Of a conditional with an empty first block and a loop behind another condition, two blocks are
open: the `Else` block and the loop. -/
theorem incomplete_lacks_ends_nested :
    parse "If A\nThen\nElse\nIf B:For(I,1,2" = .error (.malformed (.unclosed .for_) ⟨20, 29⟩) ∧
    (∀ j, (∃ p, parse (withEnds "If A\nThen\nElse\nIf B:For(I,1,2" j) = .ok p) ↔ j = 2) ∧
    (∀ j > 2, ∃ cause span, parse (withEnds "If A\nThen\nElse\nIf B:For(I,1,2" j) =
      .error (.malformed cause span) ∧ cause.isIncomplete = false) := by
  have herror : (match parse "If A\nThen\nElse\nIf B:For(I,1,2" with
      | .error e => decide (e = .malformed (.unclosed .for_) ⟨20, 29⟩)
      | .ok _ => false) = true := by decide +kernel
  have hends : (parse (withEnds "If A\nThen\nElse\nIf B:For(I,1,2" 2)).toOption.isSome = true := by
    decide +kernel
  cases h : parse "If A\nThen\nElse\nIf B:For(I,1,2" with
  | ok p =>
    rw [h] at herror
    cases herror
  | error e =>
    rw [h] at herror
    obtain rfl := of_decide_eq_true herror
    obtain ⟨k, -, hiff, -, hgt, -⟩ := incomplete_lacks_ends h rfl
    obtain rfl : 2 = k := by
      refine (hiff 2).mp ?_
      cases hp : parse (withEnds "If A\nThen\nElse\nIf B:For(I,1,2" 2) with
      | error e =>
        rw [hp] at hends
        cases hends
      | ok p => exact ⟨p, rfl⟩
    exact ⟨rfl, hiff, hgt⟩

end Program

end CalcBasic
