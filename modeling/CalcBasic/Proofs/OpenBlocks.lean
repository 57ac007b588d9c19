import CalcBasic.Proofs.Spans

/-!
# Open blocks

Which blocks are open at the end of some tokens can be told from a few words alone, without reading
statements (`openBlocks`): `While` and `For(` open a block, `Then` opens one for the `If` before it,
and `End` closes the innermost one. A condition without `Then` opens none. Some tokens may leave the
open blocks as they are (`Balanced`), or open one (`Pushes`), or leave some open at their end
(`OpenAt`), and these facts go along with putting tokens together.

What stands between these words does not matter. The readers of expressions and of commands take
none of the words, and they never complain that a block is open (`Expr.isQuiet_reader`,
`Stmt.isQuiet_valueReader` and so on). One property of outcomes says both (`Reader.Quiet`), and it
goes along with sequencing.
-/

namespace CalcBasic

/-! ## Scanning for blocks -/

/-- Whether a token has a part in opening or closing blocks. -/
def Token.isBlockWord : Token → Bool
  | keyword .if_ | keyword .then_ | keyword .while_ | keyword .for_ | keyword .end_ => true
  | _ => false

/-- What is known of blocks after some tokens. -/
structure Scan where
  /-- The last `If`. -/
  condition? : Option (Spanned Token)
  /-- The words that opened the blocks which are open, that of the innermost block first. -/
  opened : List (Spanned Token)

namespace Scan

/-- Takes notice of a token. -/
def step (s : Scan) (t : Spanned Token) : Scan :=
  match t.node with
  | .keyword .if_ => { s with condition? := some t }
  | .keyword .then_ => { s with opened := s.condition?.toList ++ s.opened }
  | .keyword .while_ | .keyword .for_ => { s with opened := t :: s.opened }
  | .keyword .end_ => { s with opened := s.opened.tail }
  | _ => s

/-- Takes notice of some tokens. -/
def through (s : Scan) (ts : List (Spanned Token)) : Scan := ts.foldl step s

theorem through_cons (s : Scan) (t : Spanned Token) (ts : List (Spanned Token)) :
    s.through (t :: ts) = (s.step t).through ts := rfl

theorem through_append (s : Scan) (ts us : List (Spanned Token)) :
    s.through (ts ++ us) = (s.through ts).through us := List.foldl_append

end Scan

/-- The words that opened the blocks which are open at the end of some tokens, that of the innermost
block first. -/
def openBlocks (ts : List (Spanned Token)) : List (Spanned Token) :=
  (Scan.through ⟨none, []⟩ ts).opened

/-- None of the tokens has a part in opening or closing blocks. -/
def Wordless (ts : List (Spanned Token)) : Prop := ∀ t ∈ ts, t.node.isBlockWord = false

theorem Wordless.append {ts us : List (Spanned Token)} (ht : Wordless ts) (hu : Wordless us) :
    Wordless (ts ++ us) := List.forall_mem_append.mpr ⟨ht, hu⟩

theorem wordless_nil : Wordless [] := nofun

theorem Scan.step_of_not_isBlockWord (s : Scan) {t : Spanned Token}
    (h : t.node.isBlockWord = false) : s.step t = s := by
  unfold step
  split <;> rename_i ht <;> first | rfl | (rw [ht] at h; cases h)

theorem Scan.through_wordless (s : Scan) {ts : List (Spanned Token)} (h : Wordless ts) :
    s.through ts = s := by
  induction ts with
  | nil => rfl
  | cons t ts ih =>
    obtain ⟨ht, hts⟩ := List.forall_mem_cons.mp h
    rw [through_cons, step_of_not_isBlockWord s ht, ih hts]

/-! ## What the tokens leave open -/

/-- The tokens leave the open blocks as they are. -/
def Balanced (ts : List (Spanned Token)) : Prop := ∀ s : Scan, (s.through ts).opened = s.opened

/-- The tokens open a block with the word `t`. -/
def Pushes (ts : List (Spanned Token)) (t : Spanned Token) : Prop :=
  ∀ s : Scan, (s.through ts).opened = t :: s.opened

theorem balanced_of_wordless {ts : List (Spanned Token)} (h : Wordless ts) : Balanced ts := by
  intro s
  rw [s.through_wordless h]

theorem Balanced.append {ts us : List (Spanned Token)} (ht : Balanced ts) (hu : Balanced us) :
    Balanced (ts ++ us) := by
  intro s
  rw [Scan.through_append, hu, ht]

theorem Pushes.append {ts us : List (Spanned Token)} {t : Spanned Token} (ht : Pushes ts t)
    (hu : Balanced us) : Pushes (ts ++ us) t := by
  intro s
  rw [Scan.through_append, hu, ht]

/-- The header of a loop. -/
theorem pushes_header {t : Spanned Token} {used : List (Spanned Token)}
    (ht : ∀ s : Scan, s.step t = { s with opened := t :: s.opened }) (hused : Wordless used) :
    Pushes (t :: used) t := by
  intro s
  rw [Scan.through_cons, ht, Scan.through_wordless _ hused]

/-- A block that is opened and closed. -/
theorem Pushes.closed {ts : List (Spanned Token)} {t : Spanned Token} (h : Pushes ts t)
    (span : Span) : Balanced (ts ++ [⟨.keyword .end_, span⟩]) := by
  intro s
  rw [Scan.through_append]
  show (s.through ts).opened.tail = s.opened
  rw [h]
  rfl

/-- The word opens the block that the complaint is about. -/
def Opens (t : Spanned Token) (c : Complaint) : Prop :=
  ∃ keyword header, t.node = .keyword keyword ∧ c = ⟨.unclosed keyword, some header⟩ ∧
    header.start = t.span.start

/-- At the end of the tokens these blocks are open, and the complaint is about the innermost one. -/
structure OpenAt (ts : List (Spanned Token)) (c : Complaint) (opens : List (Spanned Token)) :
    Prop where
  scan : ∀ s : Scan, (s.through ts).opened = opens ++ s.opened
  innermost : ∃ t below, opens = t :: below ∧ ∀ a b, InTurn Token.Between a b ts → Opens t c

namespace OpenAt

variable {ts us : List (Spanned Token)} {c : Complaint} {opens : List (Spanned Token)}
  {t : Spanned Token}

theorem length_pos (h : OpenAt ts c opens) : 0 < opens.length := by
  obtain ⟨t, below, rfl, -⟩ := h.innermost
  exact Nat.succ_pos _

theorem behind (h : OpenAt ts c opens) (hu : Balanced us) : OpenAt (us ++ ts) c opens := by
  obtain ⟨hscan, t, below, rfl, ht⟩ := h
  refine ⟨fun s => ?_, t, below, rfl, fun a b hab => ?_⟩
  · rw [Scan.through_append, hscan, hu]
  · obtain ⟨m, -, hts⟩ := hab.split
    exact ht m b hts

theorem inside (h : OpenAt ts c opens) (hu : Pushes us t) :
    OpenAt (us ++ ts) c (opens ++ [t]) := by
  obtain ⟨hscan, t', below, rfl, ht⟩ := h
  refine ⟨fun s => ?_, t', below ++ [t], rfl, fun a b hab => ?_⟩
  · rw [Scan.through_append, hscan, hu, List.append_assoc]
    rfl
  · obtain ⟨m, -, hts⟩ := hab.split
    exact ht m b hts

theorem start (hu : Pushes us t) (hts : Balanced ts)
    (ht : ∀ a b, InTurn Token.Between a b (us ++ ts) → Opens t c) : OpenAt (us ++ ts) c [t] :=
  ⟨hu.append hts, t, [], rfl, ht⟩

end OpenAt

/-! ## Quiet readers -/

namespace Reader

variable {α β : Type}

/-- The tokens that were taken have no part in opening or closing blocks, and a complaint is not
about an open block. -/
def Quiet (ts : List (Spanned Token)) : Except Complaint (α × List (Spanned Token)) → Prop
  | .ok (_, rest) => ∃ used, ts = used ++ rest ∧ Wordless used
  | .error c => c.cause.isIncomplete = false

/-- The reader is quiet on all tokens. -/
def IsQuiet (r : Reader α) : Prop := ∀ ts, Quiet ts (r ts)

theorem Quiet.bind {r : Reader α} {k : α → Reader β} {ts : List (Spanned Token)}
    (h : Quiet ts (r ts)) (hk : ∀ x, (k x).IsQuiet) : Quiet ts ((r >>= k) ts) := by
  rw [bind_apply]
  rcases hr : r ts with c | ⟨x, mid⟩ <;> rw [hr] at h
  · exact h
  · obtain ⟨used, rfl, hused⟩ := h
    have hmore := hk x mid
    dsimp only
    rcases hkx : k x mid with c | ⟨y, rest⟩ <;> rw [hkx] at hmore
    · exact hmore
    · obtain ⟨used', rfl, hused'⟩ := hmore
      exact ⟨used ++ used', (List.append_assoc _ _ _).symm, hused.append hused'⟩

theorem IsQuiet.bind {r : Reader α} {k : α → Reader β} (h : r.IsQuiet)
    (hk : ∀ x, (k x).IsQuiet) : (r >>= k).IsQuiet := fun ts => (h ts).bind hk

/-- The token before those that a quiet reader takes. -/
theorem Quiet.behind {o : Except Complaint (α × List (Spanned Token))} {us : List (Spanned Token)}
    (h : Quiet us o) {t : Spanned Token} (ht : t.node.isBlockWord = false) : Quiet (t :: us) o := by
  rcases o with c | ⟨x, rest⟩
  · exact h
  · obtain ⟨used, rfl, hused⟩ := h
    exact ⟨t :: used, rfl, List.forall_mem_cons.mpr ⟨ht, hused⟩⟩

theorem quiet_here (x : α) (ts : List (Spanned Token)) : Quiet ts (.ok (x, ts)) :=
  ⟨[], rfl, wordless_nil⟩

theorem isQuiet_pure (x : α) : (pure x : Reader α).IsQuiet := quiet_here x

theorem isQuiet_get : (get : Reader (List (Spanned Token))).IsQuiet := fun ts => quiet_here ts ts

theorem isQuiet_unexpected (what : Expected) : (unexpected what : Reader α).IsQuiet := fun _ => rfl

theorem isQuiet_tooDeep : (fail .tooDeep : Reader α).IsQuiet := fun _ => rfl

theorem isQuiet_eat? {t : Token} (ht : t.isBlockWord = false) : (eat? t).IsQuiet := by
  intro ts
  cases ts with
  | nil => exact quiet_here none []
  | cons u rest =>
    rw [eat?]
    by_cases hu : u.node = t
    · rw [if_pos hu]
      exact (quiet_here _ rest).behind (hu ▸ ht)
    · rw [if_neg hu]
      exact quiet_here _ _

theorem isQuiet_atEnd : atEnd.IsQuiet := by
  intro ts
  rw [Stmt.atEnd_eq]
  exact quiet_here _ ts

theorem isQuiet_expect (m : Mark) : (expect m).IsQuiet := by
  refine (isQuiet_eat? rfl).bind fun found => ?_
  cases found with
  | none => exact isQuiet_unexpected _
  | some span => exact isQuiet_pure _

theorem isQuiet_close (m : Mark) : (close m).IsQuiet := by
  refine (isQuiet_eat? rfl).bind fun found => ?_
  cases found with
  | some span => exact isQuiet_pure _
  | none =>
    refine isQuiet_atEnd.bind fun ended => ?_
    cases ended with
    | true => exact isQuiet_pure _
    | false => exact isQuiet_unexpected _

theorem isQuiet_commaItems {item : Reader α} (h : item.IsQuiet) (items : List α) (fuel : Nat) :
    (commaItems item items fuel).IsQuiet := by
  induction fuel generalizing items with
  | zero => exact isQuiet_pure _
  | succ fuel ih =>
    refine (isQuiet_eat? rfl).bind fun comma => ?_
    cases comma with
    | none => exact isQuiet_pure _
    | some span => exact h.bind fun x => ih (x :: items)

theorem isQuiet_separated {item : Reader α} (h : item.IsQuiet) : (separated item).IsQuiet :=
  h.bind fun x => isQuiet_get.bind fun ts => isQuiet_commaItems h [x] ts.length

end Reader

/-! ## Expressions -/

namespace Expr

open Reader

theorem isQuiet_operator? (level : Level) : (operator? level).IsQuiet := by
  intro ts
  unfold operator?
  split
  · split
    · exact (quiet_here _ _).behind rfl
    · exact quiet_here _ _
  · exact quiet_here _ _

theorem isQuiet_sign? : sign?.IsQuiet := by
  intro ts
  unfold sign?
  split
  · exact (quiet_here _ _).behind rfl
  · exact (quiet_here _ _).behind rfl
  · exact quiet_here _ _

section Levels

variable {d : Goal → Reader (Expr Span)}

theorem isQuiet_index? (hd : (d .whole).IsQuiet) (name : String) : (index? d name).IsQuiet := by
  unfold index?
  by_cases hi : (Region.of name).isIndexable
  · rw [if_pos hi]
    refine (isQuiet_eat? rfl).bind fun paren => ?_
    cases paren with
    | none => exact isQuiet_pure _
    | some span => exact hd.bind fun e => (isQuiet_close _).bind fun closed => isQuiet_pure _
  · rw [if_neg hi]
    exact isQuiet_pure _

variable (hd : ∀ g, (d g).IsQuiet)

include hd

theorem isQuiet_primary : (primary d).IsQuiet := by
  intro ts
  unfold primary
  split
  · exact (quiet_here _ _).behind rfl
  · refine Quiet.behind (Quiet.bind (isQuiet_index? (hd .whole) _ _) fun i => ?_) rfl
    cases i with
    | none => exact isQuiet_pure _
    | some p => exact isQuiet_pure _
  · refine Quiet.behind (Quiet.bind (hd .whole _) fun e => ?_) rfl
    exact (isQuiet_close _).bind fun closed => isQuiet_pure _
  · refine Quiet.behind (Quiet.bind (isQuiet_separated (hd .whole) _) fun es => ?_) rfl
    exact (isQuiet_close _).bind fun closed => isQuiet_pure _
  · exact isQuiet_unexpected _ _

theorem isQuiet_chain (level : Level) (left : Expr Span) : (chain d level left).IsQuiet := by
  refine (isQuiet_operator? level).bind fun op => ?_
  cases op with
  | none => exact isQuiet_pure _
  | some op => exact (hd _).bind fun right => hd _

theorem isQuiet_signs (level : Level) {unsigned : Reader (Expr Span)} (h : unsigned.IsQuiet) :
    (signs d level unsigned).IsQuiet := by
  refine isQuiet_sign?.bind fun sign => ?_
  cases sign with
  | none => exact h
  | some p => exact (hd _).bind fun e => isQuiet_pure _

theorem isQuiet_factor : (factor d).IsQuiet :=
  isQuiet_signs hd .product ((isQuiet_primary hd).bind (isQuiet_chain hd .power))

theorem isQuiet_product : (product d).IsQuiet := (isQuiet_factor hd).bind (isQuiet_chain hd _)

theorem isQuiet_sum : (sum d).IsQuiet := (isQuiet_product hd).bind (isQuiet_chain hd _)

theorem isQuiet_comparison : (comparison d).IsQuiet := (isQuiet_sum hd).bind (isQuiet_chain hd _)

theorem isQuiet_conjunction : (conjunction d).IsQuiet :=
  (isQuiet_comparison hd).bind (isQuiet_chain hd _)

theorem isQuiet_reach (g : Goal) : (reach d g).IsQuiet := by
  cases g with
  | whole => exact (isQuiet_conjunction hd).bind (isQuiet_chain hd _)
  | operand level =>
    cases level with
    | disjunction => exact isQuiet_conjunction hd
    | conjunction => exact isQuiet_comparison hd
    | comparison => exact isQuiet_sum hd
    | sum => exact isQuiet_product hd
    | product => exact isQuiet_factor hd
    | power => exact isQuiet_signs hd .power (isQuiet_primary hd)
  | chain level left => exact isQuiet_chain hd level left

end Levels

theorem isQuiet_read (room : Nat) (g : Goal) : (read room g).IsQuiet := by
  induction room generalizing g with
  | zero => exact isQuiet_reach (fun _ => isQuiet_tooDeep) g
  | succ room ih => exact isQuiet_reach ih g

theorem isQuiet_reader (room : Nat) : (reader room).IsQuiet := by
  cases room with
  | zero => exact isQuiet_tooDeep
  | succ room => exact isQuiet_read room .whole

end Expr

/-! ## Commands -/

namespace Stmt

open Reader

theorem isQuiet_nameReader : nameReader.IsQuiet := by
  intro ts
  unfold nameReader
  split
  · exact (quiet_here _ _).behind rfl
  · exact isQuiet_unexpected _ _

theorem isQuiet_textReader : textReader.IsQuiet := by
  intro ts
  unfold textReader
  split
  · exact Quiet.behind (Quiet.bind (isQuiet_expect _ _) fun _ => isQuiet_pure _) rfl
  · exact quiet_here _ _

variable (room : Nat)

theorem isQuiet_targetReader : (targetReader room).IsQuiet := by
  refine isQuiet_nameReader.bind fun name => ?_
  refine (Expr.isQuiet_index? (Expr.isQuiet_reader room) name.text).bind fun index => ?_
  cases index with
  | none => exact isQuiet_pure _
  | some p => exact isQuiet_pure _

theorem isQuiet_valuesReader : (valuesReader room).IsQuiet := by
  refine isQuiet_atEnd.bind fun ended => ?_
  cases ended with
  | true => exact isQuiet_pure _
  | false => exact isQuiet_separated (Expr.isQuiet_reader room)

theorem isQuiet_valueReader : (valueReader room).IsQuiet := by
  refine (Expr.isQuiet_reader room).bind fun value => (isQuiet_eat? rfl).bind fun store => ?_
  cases store with
  | none => exact isQuiet_pure _
  | some span => exact (isQuiet_targetReader room).bind fun target => isQuiet_pure _

theorem isQuiet_rangeReader : (rangeReader room).IsQuiet := by
  refine isQuiet_nameReader.bind fun counter => (isQuiet_expect _).bind fun _ => ?_
  refine (Expr.isQuiet_reader room).bind fun start => (isQuiet_expect _).bind fun _ => ?_
  refine (Expr.isQuiet_reader room).bind fun last => (isQuiet_eat? rfl).bind fun comma => ?_
  cases comma with
  | none =>
    simp only [pure_bind]
    exact (isQuiet_close _).bind fun closed => isQuiet_pure _
  | some span =>
    simp only [map_eq_pure_bind, bind_assoc, pure_bind]
    refine (Expr.isQuiet_reader room).bind fun step => ?_
    exact (isQuiet_close _).bind fun closed => isQuiet_pure _

end Stmt

end CalcBasic
