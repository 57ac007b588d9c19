import CalcBasic.Proofs.Arena
import CalcBasic.Proofs.Blocks
import CalcBasic.Tool

/-!
# Arenas that are built

A program is read in two ways: as a tree of statements, and into an arena that grows meanwhile. Both
give the same program.

1. An arena grows by whole blocks (`Arena.grow`), and a chain of it fills up with statements whose
   blocks stand behind the other chains (`Arena.fill`). Beginning a chain and pushing a statement keep
   it so, although the blocks of the statement have begun before it is pushed (`Arena.push_fill`).
2. A builder of statements goes with a reader of statements (`Builder.Builds`), and a builder of
   chains with a reader of blocks (`Builder.Fills`): from every arena, however far it is built, the
   builder fails where the reader does, and otherwise the arena grows by what the reader has read.
3. So a source is read into the arena of its program (`Arena.parse_eq`), which is numbered in
   pre-order (`Arena.parse_numbered`).
-/

namespace CalcBasic

open Reader

variable {σ α β : Type}

/-! ## Arenas that grow -/

namespace Stmt

theorem length_chainsFrom (next : Nat) (blocks : List (List (Stmt σ))) :
    (chainsFrom next blocks).length = blocks.length := by
  rw [chainsFrom, List.length_map, List.length_zipIdx]

end Stmt

/-- A change at a place in the first of two lists. -/
theorem modify_append {xs : List α} {i : Nat} (h : i < xs.length) (f : α → α) (ys : List α) :
    (xs ++ ys).modify i f = xs.modify i f ++ ys := by
  induction xs generalizing i with
  | nil => cases h
  | cons x xs ih =>
    cases i with
    | zero => rfl
    | succ i =>
      rw [List.cons_append, List.modify_succ_cons, List.modify_succ_cons, List.cons_append,
        ih (Nat.lt_of_succ_lt_succ h)]

namespace Arena

open Stmt

/-- The arena with some more blocks behind its chains. -/
def grow (a : Arena σ) (blocks : List (List (Stmt σ))) : Arena σ :=
  ⟨a.chains ++ chainsFrom a.chains.length blocks⟩

/-- The arena when a chain has taken some statements, and the blocks inside them stand behind the
other chains. -/
def fill (a : Arena σ) (c : Nat) (ss : List (Stmt σ)) : Arena σ :=
  ⟨a.chains.modify c (· ++ entriesOf a.chains.length ss) ++
    chainsFrom a.chains.length (chainsOf ss)⟩

variable (a : Arena σ)

theorem length_grow (blocks : List (List (Stmt σ))) :
    (a.grow blocks).chains.length = a.chains.length + blocks.length := by
  rw [grow, List.length_append, length_chainsFrom]

theorem length_fill (c : Nat) (ss : List (Stmt σ)) :
    (a.fill c ss).chains.length = a.chains.length + chainCountOf ss := by
  rw [fill, List.length_append, List.length_modify, length_chainsFrom, length_chainsOf]

theorem length_begin : a.begin.chains.length = a.chains.length + 1 := by
  rw [begin, List.length_append]
  rfl

theorem lt_length_begin : a.chains.length < a.begin.chains.length := by
  rw [length_begin]
  exact Nat.lt_succ_self _

theorem grow_nil : a.grow ([] : List (List (Stmt σ))) = a :=
  congrArg Arena.mk (List.append_nil a.chains)

theorem grow_grow (xs ys : List (List (Stmt σ))) : (a.grow xs).grow ys = a.grow (xs ++ ys) := by
  have hlength := a.length_grow xs
  rw [grow, hlength, grow, grow, chainsFrom_append, List.append_assoc]

theorem fill_nil (c : Nat) : a.fill c [] = a := by
  obtain ⟨chains⟩ := a
  have h : (fun entries : List (Entry σ) => entries ++ entriesOf chains.length []) = id := by
    funext entries
    exact List.append_nil entries
  rw [fill, h, List.modify_id]
  exact congrArg Arena.mk (List.append_nil chains)

/-- A chain that has just begun is filled like a block. -/
theorem fill_begin (ss : List (Stmt σ)) :
    a.begin.fill a.chains.length ss = a.grow (ss :: chainsOf ss) := by
  have hchain : a.begin.chains.modify a.chains.length (· ++ entriesOf (a.chains.length + 1) ss) =
      a.chains ++ [entriesOf (a.chains.length + 1) ss] := by
    rw [begin, List.modify_eq_take_cons_drop (by simp)]
    simp
  rw [fill, length_begin, hchain, grow, chainsFrom_cons, List.append_assoc]
  rfl

/-- A statement goes to the end of its chain when the blocks inside it have grown. -/
theorem push_fill {c : Nat} (hc : c < a.chains.length) (ss : List (Stmt σ)) (s : Stmt σ) :
    ((a.fill c ss).grow s.chains).push c (s.entry (a.fill c ss).chains.length) =
      a.fill c (ss ++ [s]) := by
  have hlength := a.length_fill c ss
  have hc' : c < (a.chains.modify c (· ++ entriesOf a.chains.length ss)).length := by
    rwa [List.length_modify]
  rw [push, grow, hlength, fill, fill, List.append_assoc, modify_append hc',
    List.modify_modify_eq, chainsOf_append, chainsFrom_append, entriesOf_append,
    length_chainsOf]
  simp [Function.comp_def, chainsOf, entriesOf, numbered]

/-- A single statement in a chain that has just begun. -/
theorem push_begin (s : Stmt σ) :
    (a.begin.grow s.chains).push a.chains.length (s.entry a.begin.chains.length) =
      a.grow ([s] :: chainsOf [s]) := by
  have h := a.begin.push_fill a.lt_length_begin [] s
  rwa [fill_nil, List.nil_append, fill_begin] at h

theorem fill_start (p : Program σ) : start.fill 0 p.statements = p.arena := rfl

end Arena

/-! ## Commands -/

namespace Stmt

/-- The reader gives commands only. -/
def GivesCommands (r : Reader (Stmt Span)) : Prop :=
  ∀ ts s rest, r ts = .ok (s, rest) → ∃ span c, s = .command span c

theorem givesCommands_pure (span : Span) (c : Command Span) :
    GivesCommands (pure (.command span c)) := by
  intro ts s rest h
  cases h
  exact ⟨span, c, rfl⟩

theorem givesCommands_bind {x : Reader α} {f : α → Reader (Stmt Span)}
    (hf : ∀ v, GivesCommands (f v)) : GivesCommands (x >>= f) := by
  intro ts s rest h
  obtain ⟨v, mid, -, h⟩ := Reader.bind_eq_ok.mp h
  exact hf v mid s rest h

theorem givesCommands_valueReader (room : Nat) : GivesCommands (valueReader room) := by
  refine givesCommands_bind fun value => givesCommands_bind fun store => ?_
  cases store with
  | none => exact givesCommands_pure _ _
  | some span => exact givesCommands_bind fun target => givesCommands_pure _ _

/-- A statement that begins with none of the keywords of blocks is a command, and reads no block. -/
theorem form_command {ts : List (Spanned Token)}
    (hif : ∀ span rest, ts = ⟨.keyword .if_, span⟩ :: rest → False)
    (hwhile : ∀ span rest, ts = ⟨.keyword .while_, span⟩ :: rest → False)
    (hfor : ∀ span rest, ts = ⟨.keyword .for_, span⟩ :: rest → False) (room : Nat)
    {b b' : Reader (List (Stmt Span))} {r r' : Reader (Stmt Span)} :
    form room b' r' ts = form room b r ts ∧
      ∀ s rest, form room b r ts = .ok (s, rest) → ∃ span c, s = .command span c := by
  unfold form
  split
  case h_1 span rest =>
    exact ⟨rfl, givesCommands_bind (fun _ => givesCommands_pure _ _) rest⟩
  case h_2 span rest =>
    exact ⟨rfl, givesCommands_bind (fun _ => givesCommands_pure _ _) rest⟩
  case h_3 span rest =>
    exact ⟨rfl, givesCommands_bind (fun _ => givesCommands_bind fun _ => givesCommands_pure _ _)
      rest⟩
  case h_4 => exact (hif _ _ rfl).elim
  case h_5 => exact (hwhile _ _ rfl).elim
  case h_6 => exact (hfor _ _ rfl).elim
  case h_7 | h_8 | h_9 => exact ⟨rfl, givesCommands_pure _ _ _⟩
  case h_10 => exact ⟨rfl, nofun⟩
  case h_11 => exact ⟨rfl, givesCommands_valueReader room ts⟩

end Stmt

/-! ## Builders and readers -/

namespace Builder

theorem bind_apply (x : Builder α) (f : α → Builder β) (a : Arena Span) :
    (x >>= f) a = x a >>= fun r => f r.1 r.2 := rfl

theorem lift_apply (r : Reader α) (a : Arena Span) :
    (liftM r : Builder α) a = r >>= fun v => pure (v, a) := rfl

theorem pure_apply (v : α) (a : Arena Span) :
    (pure v : Builder α) a = (pure (v, a) : Reader (α × Arena Span)) := rfl

/-- The one builds the statement that the other reads: it gives the statement with the numbers of the
chains to come, and the arena has grown by the blocks inside. -/
def Builds (x : Builder (Entry Span)) (r : Reader (Stmt Span)) : Prop :=
  ∀ a : Arena Span, x a = r >>= fun s => pure (s.entry a.chains.length, a.grow s.chains)

/-- The one fills a chain with the statements that the other reads. -/
def Fills (x : Nat → Builder Unit) (r : Reader (List (Stmt Span))) : Prop :=
  ∀ (a : Arena Span) (c : Nat), c < a.chains.length →
    x c a = r >>= fun ss => pure ((), a.fill c ss)

open Stmt

theorem fails_builds (cause : Cause) :
    Builds (liftM (Reader.fail cause : Reader (Entry Span))) (Reader.fail cause) := fun _ => rfl

theorem fails_fills (cause : Cause) :
    Fills (fun _ => liftM (Reader.fail cause : Reader Unit)) (Reader.fail cause) :=
  fun _ _ _ => rfl

/-- What is built behind a header. -/
theorem Builds.behind (header : Reader α) {x : α → Builder (Entry Span)}
    {r : α → Reader (Stmt Span)} (h : ∀ v, Builds (x v) (r v)) :
    Builds (liftM header >>= x) (header >>= r) := by
  intro a
  simp only [bind_apply, lift_apply, h _ a, bind_assoc, pure_bind]

theorem chainFrom_eq {x : Builder (Entry Span)} {r : Reader (Stmt Span)} (h : Builds x r)
    {a : Arena Span} {c : Nat} (hc : c < a.chains.length) (fuel : Nat) (ss : List (Stmt Span)) :
    chainFrom x c fuel (a.fill c ss.reverse) =
      blockFrom r ss fuel >>= fun ss => pure ((), a.fill c ss) := by
  induction fuel generalizing ss with
  | zero => rfl
  | succ fuel ih =>
    rw [chainFrom, blockFrom]
    simp only [bind_apply, lift_apply, bind_assoc, pure_bind]
    refine bind_congr fun _ => bind_congr fun t => ?_
    split
    · rw [pure_apply, pure_bind]
    · rw [pure_apply, pure_bind]
    · rw [pure_apply, pure_bind]
    · simp only [bind_apply, lift_apply, h _, bind_assoc, pure_bind]
      refine bind_congr fun s => bind_congr fun ended => ?_
      cases ended with
      | false => rfl
      | true =>
        have hpush : push c (s.entry (a.fill c ss.reverse).chains.length)
            ((a.fill c ss.reverse).grow s.chains) = pure ((), a.fill c (s :: ss).reverse) := by
          rw [push, Arena.push_fill a hc, List.reverse_cons]
        rw [if_pos rfl, if_pos rfl, bind_apply, hpush, pure_bind]
        exact ih (s :: ss)

theorem chain_fills {x : Builder (Entry Span)} {r : Reader (Stmt Span)} (h : Builds x r) :
    Fills (chain x) (block r) := by
  intro a c hc
  have hchain (fuel : Nat) := chainFrom_eq h hc fuel []
  rw [List.reverse_nil, Arena.fill_nil] at hchain
  rw [chain, block]
  simp only [bind_apply, lift_apply, hchain, bind_assoc, pure_bind]

section Forms

variable {body : Nat → Builder Unit} {single : Builder (Entry Span)}
  {b : Reader (List (Stmt Span))} {r : Reader (Stmt Span)} (hb : Fills body b) (hr : Builds single r)

include hb

/-- A block in a chain that has just begun. -/
theorem body_begin (a : Arena Span) :
    body a.chains.length a.begin = b >>= fun ss => pure ((), a.grow (ss :: chainsOf ss)) := by
  simp only [hb a.begin _ a.lt_length_begin, Arena.fill_begin]

/-- A loop, whose entry does not depend on the statements of its body. -/
theorem looped_builds (opener : Keyword) (header : Span) {entry : Nat → Entry Span}
    {f : List (Stmt Span) → Stmt Span} (hentry : ∀ ss n, (f ss).entry n = entry n)
    (hchains : ∀ ss, (f ss).chains = ss :: chainsOf ss) :
    Builds (looped body opener header entry)
      (b >>= fun ss => blockEnd opener header >>= fun _ => pure (f ss)) := by
  intro a
  rw [looped]
  simp only [bind_apply, lift_apply, pure_apply, begin, body_begin hb, hentry, hchains, bind_assoc,
    pure_bind]

theorem parts_eq (header : Span) (condition : Expr Span) (a : Arena Span) :
    parts body header condition a.chains.length a.begin =
      thenPart b header condition >>= fun s =>
        pure (s.entry a.chains.length, a.grow s.chains) := by
  rw [parts, thenPart]
  simp only [bind_apply, lift_apply, body_begin hb, bind_assoc, pure_bind]
  refine bind_congr fun yes => bind_congr fun otherwise => ?_
  cases otherwise with
  | none => simp only [bind_apply, lift_apply, pure_apply, bind_assoc, pure_bind, entry, chains]
  | some _ =>
    -- the second chain is numbered behind the blocks of the first
    have hlength : (a.grow (yes :: chainsOf yes)).chains.length =
        a.chains.length + 1 + chainCountOf yes := by
      rw [Arena.length_grow, List.length_cons, length_chainsOf, Nat.add_comm (chainCountOf yes),
        Nat.add_assoc]
    have hsecond := body_begin hb (a.grow (yes :: chainsOf yes))
    simp only [hlength, Arena.grow_grow] at hsecond
    simp only [bind_apply, lift_apply, pure_apply, begin, hlength, hsecond, bind_assoc, pure_bind,
      entry, chains]

include hr

omit hb in
theorem single_eq (header : Span) (condition : Expr Span) (a : Arena Span) :
    (do
      let e ← single
      push a.chains.length e
      return .ifThen header condition a.chains.length : Builder (Entry Span)) a.begin =
      (do return .ifThen header condition [← r] : Reader (Stmt Span)) >>= fun s =>
        pure (s.entry a.chains.length, a.grow s.chains) := by
  simp only [bind_apply, pure_apply, push, hr a.begin, Arena.push_begin, bind_assoc, pure_bind]
  rfl

theorem guarded_builds (header : Span) (condition : Expr Span) :
    Builds (guarded body single header condition) (Stmt.guarded b r header condition) := by
  intro a
  funext ts
  rw [Reader.bind_apply, Stmt.guarded_eq, guarded]
  simp only [bind_apply, lift_apply, begin, bind_assoc, pure_bind]
  rw [Reader.bind_apply]
  show (eat? (.keyword .then_) >>= _) (past ts) = _
  rw [Reader.bind_apply]
  rcases past ts with _ | ⟨⟨node, span⟩, us⟩
  · rfl
  by_cases hthen : node = .keyword .then_
  · subst hthen
    have h := congrFun (parts_eq hb header condition a) us
    rw [Reader.bind_apply] at h
    exact h
  · dsimp only [eat?]
    rw [if_neg hthen, if_neg hthen]
    dsimp only
    rw [bind_apply, lift_apply]
    simp only [bind_assoc, pure_bind]
    rw [Reader.bind_apply]
    dsimp only [peek]
    by_cases hc : closes node = true
    · rw [if_pos hc]
      simp only [closes, Bool.or_eq_true, decide_eq_true_eq] at hc
      rcases hc with rfl | rfl <;> rfl
    · rw [if_neg hc]
      simp only [closes, Bool.or_eq_true, decide_eq_true_eq, not_or] at hc
      rw [← Reader.bind_apply, ← single_eq hr]
      simp [hc]

theorem form_builds (room : Nat) : Builds (form room body single) (Stmt.form room b r) := by
  intro a
  funext ts
  unfold form
  split
  case h_1 span rest =>
    have hbuilds := Builds.behind (Expr.reader room) fun condition =>
      guarded_builds hb hr (span.merge condition.span) condition
    exact congrFun (hbuilds a) rest
  case h_2 span rest =>
    have hbuilds := Builds.behind (Expr.reader room) fun condition =>
      looped_builds hb .while_ (span.merge condition.span)
        (f := .whileLoop (span.merge condition.span) condition) (fun _ _ => rfl) fun _ => rfl
    exact congrFun (hbuilds a) rest
  case h_3 span rest =>
    have hbuilds := Builds.behind (rangeReader room) fun range =>
      looped_builds hb .for_ (span.merge range.2)
        (f := .forLoop (span.merge range.2) range.1) (fun _ _ => rfl) fun _ => rfl
    exact congrFun (hbuilds a) rest
  case h_4 hif hwhile hfor =>
    obtain ⟨hsame, hcommand⟩ := form_command hif hwhile hfor room (b := b) (r := r)
    rw [lift_apply, Reader.bind_apply, Reader.bind_apply, command, Reader.bind_apply, hsame]
    rcases hform : Stmt.form room b r ts with c | ⟨s, rest⟩
    · rfl
    · obtain ⟨span, c, rfl⟩ := hcommand s rest hform
      have hgrow : a.grow (Stmt.command span c).chains = a := a.grow_nil
      dsimp only
      rw [hgrow]
      rfl

end Forms

theorem reader_builds (room : Nat) : Builds (reader room) (Stmt.reader room) := by
  induction room with
  | zero => exact form_builds (fails_fills .tooDeep) (fails_builds .tooDeep) 0
  | succ room ih => exact form_builds (chain_fills ih) ih (room + 1)

end Builder

namespace Arena

theorem reader_eq : (reader : Reader (Arena Span)) = Program.arena <$> Program.reader := by
  have hfills := Builder.chain_fills (Builder.reader_builds maxNesting) start 0 Nat.one_pos
  rw [reader, hfills, Program.reader]
  simp only [map_eq_pure_bind, bind_assoc, pure_bind]
  exact bind_congr fun ss => congrArg pure (fill_start ⟨ss⟩)

/-- Reading a source into an arena gives the arena of the program that it is, and it fails with the
same error where the source is no program. -/
theorem parse_eq (source : String) : parse source = (Program.parse source).map Program.arena := by
  rw [parse, Program.parse, reader_eq, ofSource, ofSource]
  cases Token.read source with
  | error u => rfl
  | ok ts =>
    dsimp only
    rw [ofTokens, ofTokens, map_eq_pure_bind, Reader.bind_apply]
    rcases Program.reader ts with c | ⟨p, _ | ⟨t, rest⟩⟩ <;> rfl

theorem parse_eq_ok {source : String} {a : Arena Span} :
    parse source = .ok a ↔ ∃ p, Program.parse source = .ok p ∧ p.arena = a := by
  rw [parse_eq]
  cases Program.parse source with
  | error e => exact ⟨nofun, nofun⟩
  | ok p =>
    constructor
    · rintro ⟨⟩
      exact ⟨p, rfl, rfl⟩
    · rintro ⟨_, ⟨⟩, rfl⟩
      rfl

/-- **The numbering of blocks.** Reading a source into an arena gives one exactly if the source is a
program. Then the arena is what the program is shown as. Every number that a statement holds is that
of a chain, and the chain is the block it stands for. Number 0 is held nowhere, and every other one by
exactly one statement, which holds it once and stands in a chain with a smaller number. The walk from
chain 0 enters every chain once, in the order of the numbers, and meets the labels of the program in
their order; there is no other walk. -/
theorem parse_numbered (source : String) :
    ((∃ a, parse source = .ok a) ↔ ∃ p, Program.parse source = .ok p) ∧
    ∀ a p, parse source = .ok a → Program.parse source = .ok p →
      p.viewChains = a.chains.map viewChain ∧
      a.chains.length = p.chains.length ∧
      (∀ pos s, p.statement? pos = some s → ∃ e, a.entryAt? pos = some e ∧
        e.ids.map p.chain = s.blocks) ∧
      (∀ pos e, a.entryAt? pos = some e → e.ids.Nodup ∧
        ∀ k ∈ e.ids, pos.chain < k ∧ k < a.chains.length) ∧
      (∀ k, 0 < k → k < a.chains.length → ∃! pos, ∃ e, a.entryAt? pos = some e ∧ k ∈ e.ids) ∧
      (∀ pos e, a.entryAt? pos = some e → 0 ∉ e.ids) ∧
      ∀ entered labels, a.Walk [.chain 0] entered labels ↔
        entered = List.range a.chains.length ∧ labels = p.labels := by
  refine ⟨?_, fun a p ha hp => ?_⟩
  · constructor
    · rintro ⟨a, ha⟩
      obtain ⟨p, hp, -⟩ := parse_eq_ok.mp ha
      exact ⟨p, hp⟩
    · rintro ⟨p, hp⟩
      exact ⟨p.arena, parse_eq_ok.mpr ⟨p, hp, rfl⟩⟩
  · obtain ⟨q, hq, rfl⟩ := parse_eq_ok.mp ha
    obtain rfl : q = p := Except.ok.inj (hq.symm.trans hp)
    have h := q.preordered_arena
    refine ⟨q.viewChains_eq, q.length_arena, fun pos s hs => ?_, fun pos e he => ?_,
      fun k => h.owner, fun pos e he hzero => ?_, fun entered labels => ?_⟩
    · refine ⟨s.entry (q.inner pos), ?_, Program.map_chain_ids hs⟩
      rw [Program.entryAt?_arena, hs]
      rfl
    · exact ⟨h.nodup_ids he, fun k hk => ⟨h.chain_lt he hk, (h.id_lt he hk).2⟩⟩
    · exact Nat.lt_irrefl 0 (h.id_lt he hzero).1
    · constructor
      · exact fun hwalk => q.walk_arena.unique hwalk
      · rintro ⟨rfl, rfl⟩
        exact q.walk_arena

/-- Five chains, of which the second part of a conditional has the number behind the loop in the
first. -/
theorem parse_numbered_parts :
    ∃ a p, parse "If 1:Then:While 0:End:Else:For(A,1,2):Disp A:End:End" = .ok a ∧
      Program.parse "If 1:Then:While 0:End:Else:For(A,1,2):Disp A:End:End" = .ok p ∧
      a.chains.map (·.flatMap Entry.ids) = [[1, 3], [2], [], [4], []] ∧
      a.Walk [.chain 0] [0, 1, 2, 3, 4] p.labels := by
  have hcheck : (parse "If 1:Then:While 0:End:Else:For(A,1,2):Disp A:End:End").toOption.any
      (fun a => a.chains.map (·.flatMap Entry.ids) = [[1, 3], [2], [], [4], []]) = true := by
    decide +kernel
  obtain ⟨hiff, hnumbered⟩ :=
    parse_numbered "If 1:Then:While 0:End:Else:For(A,1,2):Disp A:End:End"
  cases ha : parse "If 1:Then:While 0:End:Else:For(A,1,2):Disp A:End:End" with
  | error e =>
    rw [ha] at hcheck
    cases hcheck
  | ok a =>
    rw [ha] at hcheck
    have hids := of_decide_eq_true hcheck
    obtain ⟨p, hp⟩ := hiff.mp ⟨a, ha⟩
    obtain ⟨-, -, -, -, -, -, hwalk⟩ := hnumbered a p ha hp
    have hlength : a.chains.length = 5 := by
      have h := congrArg List.length hids
      rwa [List.length_map] at h
    refine ⟨a, p, rfl, hp, hids, (hwalk _ _).mpr ⟨?_, rfl⟩⟩
    rw [hlength]
    rfl

end Arena

/-- The listing of the arena that a source is read into shows the program that the source is. -/
theorem Tool.withSource_parse (fuel : Nat) (source stdin : String) :
    withSource .parse fuel source stdin = (Program.parse source).map fun p =>
      ⟨({} : Transcript).writeLine p.view.pretty, .success⟩ := by
  rw [withSource, Arena.parse_eq]
  cases Program.parse source with
  | error e => rfl
  | ok p =>
    rw [Except.map, Except.map, ← p.view_arena]
    rfl

end CalcBasic
