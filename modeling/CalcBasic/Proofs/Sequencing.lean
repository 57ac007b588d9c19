import CalcBasic.Proofs.Arena
import CalcBasic.Proofs.ProgramLines
import CalcBasic.Proofs.Relocation
import CalcBasic.Session

/-!
# Programs one after the other

A program and behind it another one, on lines of its own, form a program. If the first has no
labels, jumps or stops, this program does what the two do one after the other.

1. In the arena of two programs together the chains of the second are numbered behind those of the
   first (`Program.arena_append`), and its statements are moved to the right (`Program.arena_map`).
2. Where a jump lands can be told without positions: at the statements from the label on
   (`Program.landing_eq`). So jumps in the second program land where they do without the first
   (`Program.landing_append`), at statements that are moved (`Program.landing_map`).
3. A program without jumps and stops proceeds to its end (`Stmt.proceeds_execAll`), and then the
   second goes on from there (`runChain_append`). It does what it does by itself, moved
   (`runChain_moves`).
-/

namespace CalcBasic

variable {σ τ α : Type}

/-! ## The arena of two programs -/

namespace Entry

/-- Changes every annotation. -/
def map (f : σ → τ) : Entry σ → Entry τ
  | command s c => command (f s) (c.map f)
  | ifThen s e body => ifThen (f s) (e.map f) body
  | ifElse s e body otherwise => ifElse (f s) (e.map f) body otherwise
  | whileLoop s e body => whileLoop (f s) (e.map f) body
  | forLoop s r body => forLoop (f s) (r.map f) body

/-- Adds to the numbers of the blocks. -/
def renumber (k : Nat) : Entry σ → Entry σ
  | command s c => command s c
  | ifThen s e body => ifThen s e (body + k)
  | ifElse s e body otherwise => ifElse s e (body + k) (otherwise + k)
  | whileLoop s e body => whileLoop s e (body + k)
  | forLoop s r body => forLoop s r (body + k)

end Entry

namespace Arena

/-- Changes every annotation. -/
def map (f : σ → τ) (a : Arena σ) : Arena τ := ⟨a.chains.map (·.map (·.map f))⟩

/-- The statements of the second arena's chain 0 stand behind those of the first one's, and its
other chains behind all chains of the first. Its numbers grow by the number of chains before
them. -/
def append (a b : Arena σ) : Arena σ :=
  let renumbered (entries : List (Entry σ)) : List (Entry σ) :=
    entries.map (·.renumber (a.chains.length - 1))
  ⟨(a.chain 0 ++ renumbered (b.chain 0)) :: (a.chains.tail ++ b.chains.tail.map renumbered)⟩

end Arena

namespace Stmt

theorem entry_add (next k : Nat) (s : Stmt σ) : s.entry (next + k) = (s.entry next).renumber k := by
  cases s with
  | command => rfl
  | ifThen | whileLoop | forLoop => rfl
  | ifElse span e body otherwise =>
    simp only [entry, Entry.renumber, Entry.ifElse.injEq, true_and]
    omega

theorem entriesOf_add (next k : Nat) (ss : List (Stmt σ)) :
    entriesOf (next + k) ss = (entriesOf next ss).map (·.renumber k) := by
  induction ss generalizing next with
  | nil => rfl
  | cons s ss ih =>
    rw [entriesOf_cons, entriesOf_cons, List.map_cons, entry_add, Nat.add_right_comm, ih]

mutual

theorem chainCount_map (f : σ → τ) (s : Stmt σ) : (s.map f).chainCount = s.chainCount := by
  cases s with
  | command => rfl
  | ifThen _ _ body | whileLoop _ _ body | forLoop _ _ body =>
    rw [Stmt.map, chainCount, chainCount, chainCountOf_mapAll f body]
  | ifElse _ _ body otherwise =>
    rw [Stmt.map, chainCount, chainCount, chainCountOf_mapAll f body,
      chainCountOf_mapAll f otherwise]

theorem chainCountOf_mapAll (f : σ → τ) (ss : List (Stmt σ)) :
    chainCountOf (mapAll f ss) = chainCountOf ss := by
  cases ss with
  | nil => rfl
  | cons s ss =>
    rw [mapAll, chainCountOf, chainCountOf, chainCount_map f s, chainCountOf_mapAll f ss]

end

mutual

theorem chains_map (f : σ → τ) (s : Stmt σ) : (s.map f).chains = s.chains.map (mapAll f) := by
  cases s with
  | command => rfl
  | ifThen _ _ body | whileLoop _ _ body | forLoop _ _ body =>
    rw [Stmt.map, chains, chains, List.map_cons, chainsOf_mapAll f body]
  | ifElse _ _ body otherwise =>
    rw [Stmt.map, chains, chains, List.map_append, List.map_cons, List.map_cons,
      chainsOf_mapAll f body, chainsOf_mapAll f otherwise]

theorem chainsOf_mapAll (f : σ → τ) (ss : List (Stmt σ)) :
    chainsOf (mapAll f ss) = (chainsOf ss).map (mapAll f) := by
  cases ss with
  | nil => rfl
  | cons s ss =>
    rw [mapAll, chainsOf, chainsOf, List.map_append, chains_map f s, chainsOf_mapAll f ss]

end

theorem entry_map (f : σ → τ) (next : Nat) (s : Stmt σ) :
    (s.map f).entry next = (s.entry next).map f := by
  cases s with
  | command => rfl
  | ifThen | whileLoop | forLoop => rfl
  | ifElse span e body otherwise =>
    rw [Stmt.map, entry, entry, chainCountOf_mapAll]
    rfl

theorem entriesOf_mapAll (f : σ → τ) (next : Nat) (ss : List (Stmt σ)) :
    entriesOf next (mapAll f ss) = (entriesOf next ss).map (·.map f) := by
  induction ss generalizing next with
  | nil => rfl
  | cons s ss ih =>
    rw [mapAll, entriesOf_cons, entriesOf_cons, List.map_cons, entry_map, chainCount_map, ih]

theorem chainsFrom_add (first k : Nat) (bs : List (List (Stmt σ))) :
    chainsFrom (first + k) bs = (chainsFrom first bs).map (·.map (·.renumber k)) := by
  induction bs generalizing first with
  | nil => rfl
  | cons b bs ih =>
    rw [chainsFrom_cons, chainsFrom_cons, List.map_cons, Nat.add_right_comm, entriesOf_add, ih]

theorem chainsFrom_mapAll (f : σ → τ) (first : Nat) (bs : List (List (Stmt σ))) :
    chainsFrom first (bs.map (mapAll f)) = (chainsFrom first bs).map (·.map (·.map f)) := by
  induction bs generalizing first with
  | nil => rfl
  | cons b bs ih => rw [List.map_cons, chainsFrom_cons, chainsFrom_cons, List.map_cons,
      entriesOf_mapAll, ih]

end Stmt

namespace Program

open Stmt

/-- The second program stands behind the first. -/
instance : Append (Program σ) := ⟨fun p q => ⟨p.statements ++ q.statements⟩⟩

theorem chains_arena (p : Program σ) : p.arena.chains =
    entriesOf 1 p.statements :: chainsFrom 1 (chainsOf p.statements) := rfl

/-- The arena of two programs together. -/
theorem arena_append (p q : Program σ) : (p ++ q).arena = p.arena.append q.arena := by
  have hlength : p.arena.chains.length - 1 = chainCountOf p.statements := by
    rw [length_arena, length_chains, Nat.add_sub_cancel]
  have hchains : (p ++ q).arena.chains = (p.arena.append q.arena).chains := by
    rw [chains_arena, Arena.append, hlength]
    show entriesOf 1 (p.statements ++ q.statements) ::
      chainsFrom 1 (chainsOf (p.statements ++ q.statements)) = _
    rw [entriesOf_append, entriesOf_add, chainsOf_append, chainsFrom_append, chainsFrom_add,
      length_chainsOf]
    rfl
  exact congrArg Arena.mk hchains

theorem arena_map (f : σ → τ) (p : Program σ) : (p.map f).arena = p.arena.map f := by
  have hchains : (p.map f).arena.chains = (p.arena.map f).chains := by
    rw [chains_arena, Arena.map, chains_arena, List.map_cons]
    show entriesOf 1 (mapAll f p.statements) :: chainsFrom 1 (chainsOf (mapAll f p.statements)) = _
    rw [entriesOf_mapAll, chainsOf_mapAll, chainsFrom_mapAll]
  exact congrArg Arena.mk hchains

end Program

/-! ## Where jumps land -/

namespace Stmt

mutual

/-- The labels in a statement, each with the statements from there on; `here` are the statements
from this one on. -/
def spots (here : List (Stmt σ)) : Stmt σ → List (String × List (Stmt σ))
  | command _ (.label name) => [(name, here)]
  | command _ _ => []
  | ifThen _ _ body | whileLoop _ _ body | forLoop _ _ body => spotsOf body
  | ifElse _ _ body otherwise => spotsOf body ++ spotsOf otherwise

/-- The labels in some statements, each with the statements from there on. -/
def spotsOf : List (Stmt σ) → List (String × List (Stmt σ))
  | [] => []
  | s :: rest => s.spots (s :: rest) ++ spotsOf rest

end

theorem chainCountOf_append (as bs : List (Stmt σ)) :
    chainCountOf (as ++ bs) = chainCountOf as + chainCountOf bs := by
  rw [← length_chainsOf, chainsOf_append, List.length_append, length_chainsOf, length_chainsOf]

end Stmt

namespace Program

open Stmt

variable {p : Program σ}

theorem suffix_next {pos : Position} {s : Stmt σ} {rest : List (Stmt σ)}
    (h : p.suffix pos = s :: rest) : p.suffix ⟨pos.chain, pos.index + 1⟩ = rest := by
  rw [suffix, ← List.drop_drop, show (p.chain pos.chain).drop pos.index = s :: rest from h]
  rfl

theorem inner_next {pos : Position} {s : Stmt σ} {rest : List (Stmt σ)}
    (h : p.suffix pos = s :: rest) :
    p.inner ⟨pos.chain, pos.index + 1⟩ = p.inner pos + s.chainCount := by
  have htake : (p.chain pos.chain).take (pos.index + 1) =
      (p.chain pos.chain).take pos.index ++ [s] := by
    rw [List.take_add, show (p.chain pos.chain).drop pos.index = s :: rest from h]
    rfl
  rw [inner, inner, htake, chainCountOf_append, ← Nat.add_assoc]
  rfl

mutual

theorem map_labels (s : Stmt σ) {pos : Position} {rest : List (Stmt σ)}
    (h : p.suffix pos = s :: rest) :
    (s.labels pos (p.inner pos)).map (fun l => (l.1, p.suffix l.2)) = s.spots (s :: rest) := by
  cases s with
  | command span c =>
    cases c with
    | label name =>
      rw [Stmt.labels, spots, ← h]
      rfl
    | _ => rfl
  | ifThen _ _ body | whileLoop _ _ body | forLoop _ _ body =>
    rw [Stmt.labels, spots]
    exact map_labelsOf body ⟨p.inner pos, 0⟩ (chain_inner_zero h rfl)
  | ifElse _ _ body otherwise =>
    rw [Stmt.labels, spots, List.map_append]
    exact congrArg₂ _ (map_labelsOf body ⟨p.inner pos, 0⟩ (chain_inner_zero h rfl))
      (map_labelsOf otherwise ⟨_, 0⟩ (chain_inner_otherwise h))

theorem map_labelsOf (ss : List (Stmt σ)) (pos : Position) (h : p.suffix pos = ss) :
    (labelsOf pos (p.inner pos) ss).map (fun l => (l.1, p.suffix l.2)) = spotsOf ss := by
  cases ss with
  | nil => rfl
  | cons s rest =>
    rw [labelsOf, spotsOf, List.map_append, map_labels s h, ← inner_next h,
      map_labelsOf rest _ (suffix_next h)]

end

end Program

/-- The places with these labels. -/
def Landing.of (targets : List (String × List (Stmt σ))) : Landing σ :=
  ⟨targets, ((targets.map (·.1)).mergeSort fun a b => decide (a ≤ b)).eraseReps⟩

/-- A jump lands at the statements from its label on. -/
theorem Program.landing_eq (p : Program σ) : p.landing = .of (Stmt.spotsOf p.statements) := by
  have htargets : p.targets = Stmt.spotsOf p.statements := map_labelsOf p.statements ⟨0, 0⟩ rfl
  have hnames : p.labels.map (·.1) = (Stmt.spotsOf p.statements).map (·.1) := by
    rw [← htargets, targets, List.map_map]
    rfl
  rw [landing, labelNames, htargets, hnames]
  rfl

namespace Stmt

mutual

theorem spots_map (f : σ → τ) (here : List (Stmt σ)) (s : Stmt σ) :
    (s.map f).spots (mapAll f here) = (s.spots here).map fun t => (t.1, mapAll f t.2) := by
  cases s with
  | command span c => cases c <;> rfl
  | ifThen _ _ body | whileLoop _ _ body | forLoop _ _ body =>
    rw [Stmt.map, spots, spots, spotsOf_mapAll f body]
  | ifElse _ _ body otherwise =>
    rw [Stmt.map, spots, spots, List.map_append, spotsOf_mapAll f body, spotsOf_mapAll f otherwise]

theorem spotsOf_mapAll (f : σ → τ) (ss : List (Stmt σ)) :
    spotsOf (mapAll f ss) = (spotsOf ss).map fun t => (t.1, mapAll f t.2) := by
  cases ss with
  | nil => rfl
  | cons s rest =>
    rw [mapAll, spotsOf, spotsOf, List.map_append, spotsOf_mapAll f rest,
      ← spots_map f (s :: rest) s]
    rfl

end

end Stmt

theorem Program.landing_map (f : σ → τ) (p : Program σ) : (p.map f).landing = p.landing.map f := by
  rw [landing_eq, landing_eq, Program.map, Stmt.spotsOf_mapAll, Landing.of, List.map_map]
  rfl

/-! ## Programs without labels, jumps and stops -/

namespace Stmt

mutual

/-- Whether a statement holds no label, no jump and no stop. -/
def isStraight : Stmt σ → Bool
  | command _ (.label _) | command _ (.goto _) | command _ .stop => false
  | command _ _ => true
  | ifThen _ _ body | whileLoop _ _ body | forLoop _ _ body => areStraight body
  | ifElse _ _ body otherwise => areStraight body && areStraight otherwise

/-- Whether some statements hold no label, no jump and no stop. -/
def areStraight : List (Stmt σ) → Bool
  | [] => true
  | s :: rest => s.isStraight && areStraight rest

end

mutual

theorem spots_of_isStraight (s : Stmt σ) (hs : s.isStraight = true) (here : List (Stmt σ)) :
    s.spots here = [] := by
  cases s with
  | command span c =>
    cases c with
    | label name => cases hs
    | _ => rfl
  | ifThen _ _ body | whileLoop _ _ body | forLoop _ _ body => exact spotsOf_of_areStraight body hs
  | ifElse _ _ body otherwise =>
    obtain ⟨hbody, hotherwise⟩ := (Bool.and_eq_true _ _).mp hs
    rw [spots, spotsOf_of_areStraight body hbody, spotsOf_of_areStraight otherwise hotherwise]
    rfl

theorem spotsOf_of_areStraight (ss : List (Stmt σ)) (hss : areStraight ss = true) :
    spotsOf ss = [] := by
  cases ss with
  | nil => rfl
  | cons s rest =>
    obtain ⟨hs, hrest⟩ := (Bool.and_eq_true _ _).mp hss
    rw [spotsOf, spots_of_isStraight s hs, spotsOf_of_areStraight rest hrest]
    rfl

end

theorem spotsOf_append (as bs : List (Stmt σ)) (has : areStraight as = true) :
    spotsOf (as ++ bs) = spotsOf bs := by
  induction as with
  | nil => rfl
  | cons s as ih =>
    obtain ⟨hs, has⟩ := (Bool.and_eq_true _ _).mp has
    rw [List.cons_append, spotsOf, spots_of_isStraight s hs, ih has]
    rfl

end Stmt

namespace Program

/-- Whether the program holds no label, no jump and no stop. -/
def isStraight (p : Program σ) : Bool := Stmt.areStraight p.statements

/-- Behind a program without labels jumps land where they do without it. -/
theorem landing_append {p : Program σ} (hp : p.isStraight = true) (q : Program σ) :
    (p ++ q).landing = q.landing := by
  rw [landing_eq, landing_eq]
  exact congrArg Landing.of (Stmt.spotsOf_append p.statements q.statements hp)

end Program

namespace Action

/-- If the action is done, it proceeds. -/
def Proceeds (x : Action σ (Flow σ)) : Prop := ∀ st flow, (x st).1 = .done flow → flow = .proceed

theorem proceeds_pure : Proceeds (pure .proceed : Action σ (Flow σ)) := by
  rintro st _ ⟨⟩
  rfl

theorem proceeds_bind {x : Action σ α} {k : α → Action σ (Flow σ)} (hk : ∀ a, (k a).Proceeds) :
    (x >>= k).Proceeds := by
  intro st flow h
  rw [bind_apply] at h
  rcases hr : x st with ⟨(a | l | _), st'⟩ <;> rw [hr] at h
  · exact hk a st' flow h
  · cases h
  · cases h

theorem proceeds_ite {x y : Action σ (Flow σ)} (hx : x.Proceeds) (hy : y.Proceeds) (b : Bool) :
    Proceeds (if b then x else y) := by
  cases b with
  | true => exact hx
  | false => exact hy

theorem Proceeds.andThen {x y : Action σ (Flow σ)} (hx : x.Proceeds) (hy : y.Proceeds) :
    (Action.andThen x y).Proceeds := by
  intro st flow h
  rw [andThen_apply] at h
  rcases hr : x st with ⟨(flow' | l | _), st'⟩ <;> rw [hr] at h
  · obtain rfl := hx st flow' (congrArg Prod.fst hr)
    exact hy st' flow h
  · cases h
  · cases h

theorem proceeds_unfinished : Proceeds (fun st => (.unfinished, st) : Action σ (Flow σ)) :=
  fun _ _ => nofun

end Action

section Straight

open CalcBasic.Action

theorem whileTrue_proceeds (condition : Expr σ) {body : Action σ (Flow σ)} (hbody : body.Proceeds)
    (fuel : Nat) : (whileTrue condition body fuel).Proceeds := by
  induction fuel with
  | zero => exact proceeds_unfinished
  | succ fuel ih =>
    rw [whileTrue_eq]
    exact proceeds_bind fun x => proceeds_ite (hbody.andThen ih) proceeds_pure (isTrue x)

theorem countThrough_proceeds (name : Name σ) (r : Stride) {body : Action σ (Flow σ)}
    (hbody : body.Proceeds) (fuel : Nat) (counter : Float) :
    (countThrough name r body fuel counter).Proceeds := by
  induction fuel generalizing counter with
  | zero => exact proceeds_unfinished
  | succ fuel ih =>
    rw [countThrough_eq]
    refine proceeds_ite ?_ proceeds_pure (r.holds counter)
    exact proceeds_bind fun _ => hbody.andThen (ih _)

variable (config : Config) (fuel : Nat)

namespace Stmt

mutual

theorem proceeds_exec (s : Stmt σ) (hs : s.isStraight = true) :
    (s.exec config fuel).Proceeds := by
  cases s with
  | command span c =>
    rw [exec]
    refine proceeds_bind fun _ => ?_
    cases c with
    | label name | goto name | stop => cases hs
    | store e target => exact proceeds_bind fun _ => proceeds_bind fun _ => proceeds_pure
    | evaluate | display | prompt | input => exact proceeds_bind fun _ => proceeds_pure
  | ifThen span condition body =>
    have hbody := proceeds_execAll body hs
    rw [exec]
    exact proceeds_bind fun _ => proceeds_bind fun x => proceeds_ite hbody proceeds_pure (isTrue x)
  | ifElse span condition body otherwise =>
    obtain ⟨hbody, hotherwise⟩ := (Bool.and_eq_true _ _).mp hs
    have hbody := proceeds_execAll body hbody
    have hotherwise := proceeds_execAll otherwise hotherwise
    rw [exec]
    exact proceeds_bind fun _ => proceeds_bind fun x => proceeds_ite hbody hotherwise (isTrue x)
  | whileLoop span condition body =>
    have hbody := proceeds_execAll body hs
    rw [exec]
    exact proceeds_bind fun _ => whileTrue_proceeds condition hbody fuel
  | forLoop span range body =>
    have hbody := proceeds_execAll body hs
    rw [exec]
    exact proceeds_bind fun _ => proceeds_bind fun entry =>
      countThrough_proceeds range.counter entry.1 hbody fuel entry.2

/-- Statements without jumps and stops proceed to their end, if they come to one. -/
theorem proceeds_execAll (ss : List (Stmt σ)) (hss : areStraight ss = true) :
    (execAll config fuel ss).Proceeds := by
  cases ss with
  | nil =>
    rw [execAll_nil]
    exact proceeds_pure
  | cons s rest =>
    obtain ⟨hs, hrest⟩ := (Bool.and_eq_true _ _).mp hss
    rw [execAll_eq]
    exact (proceeds_exec s hs).andThen (proceeds_execAll rest hrest)

end

end Stmt

end Straight

/-! ## Runs -/

theorem Action.andThen_assoc (x y z : Action σ (Flow σ)) :
    andThen (andThen x y) z = andThen x (andThen y z) := by
  funext st
  rw [andThen_apply, andThen_apply, andThen_apply]
  rcases x st with ⟨((_ | _ | _) | l | _), st'⟩
  · exact (andThen_apply y z st').symm
  · rfl
  · rfl
  · rfl
  · rfl

theorem Stmt.execAll_append (config : Config) (fuel : Nat) (as bs : List (Stmt σ)) :
    execAll config fuel (as ++ bs) =
      Action.andThen (execAll config fuel as) (execAll config fuel bs) := by
  induction as with
  | nil =>
    rw [execAll_nil]
    rfl
  | cons s as ih => rw [List.cons_append, execAll_eq, execAll_eq, ih, Action.andThen_assoc]

/-- Behind statements without jumps and stops the run goes on with the other statements. -/
theorem runChain_append (config : Config) (fuel : Nat) (landing : Landing σ) (jumps : Nat)
    {as : List (Stmt σ)} (has : Stmt.areStraight as = true) (bs : List (Stmt σ)) :
    runChain config fuel landing (jumps + 1) (as ++ bs) =
      Stmt.execAll config fuel as >>= fun _ => runChain config fuel landing (jumps + 1) bs := by
  funext st
  rw [runChain_eq, runChain_eq, Stmt.execAll_append, Action.bind_apply, Action.bind_apply,
    Action.andThen_apply]
  rcases hr : Stmt.execAll config fuel as st with ⟨(flow | l | _), st'⟩
  · obtain rfl := Stmt.proceeds_execAll config fuel as has st flow (congrArg Prod.fst hr)
    rfl
  · rfl
  · rfl

namespace Program

variable {config : Config} {fuel : Nat}

theorem run_eq (config : Config) (fuel : Nat) (p : Program σ) (st : State) :
    p.run config fuel st =
      runChain config fuel p.landing (fuel + 1) p.statements { st with steps := 0 } := by
  rw [run, runFrom_eq, head?, rest_first?]
  rfl

/-- Runs a program without labels, jumps and stops. -/
theorem run_straight {p : Program σ} (hp : p.isStraight = true) (st : State) :
    p.run config fuel st =
      (Stmt.execAll config fuel p.statements >>= fun _ => pure ()) { st with steps := 0 } := by
  rw [run_eq, ← List.append_nil p.statements, runChain_append config fuel _ _ hp, runChain_eq,
    Stmt.execAll_nil, List.append_nil]
  rfl

/-- **Runs.** A program behind one without labels, jumps and stops goes on where that one comes to
its end, and does what it does by itself, moved. -/
theorem run_append (hlimit : config.stepLimit = none) (fuel : Nat) (f : σ → σ) {p : Program σ}
    (hp : p.isStraight = true) (q : Program σ) (st : State) :
    (p ++ q.map f).run config fuel st =
      match p.run config fuel st with
      | (.done (), st') =>
        ((q.run config fuel st').1.map f id, (q.run config fuel st').2.later st'.steps)
      | stopped => stopped := by
  have hsplit : (p ++ q.map f).run config fuel st =
      (Stmt.execAll config fuel p.statements >>= fun _ =>
        runChain config fuel (q.map f).landing (fuel + 1) (q.map f).statements)
        { st with steps := 0 } := by
    rw [run_eq, landing_append hp]
    exact congrFun (runChain_append config fuel _ fuel hp (q.map f).statements) _
  rw [hsplit, run_straight hp, Action.bind_apply, Action.bind_apply]
  rcases Stmt.execAll config fuel p.statements { st with steps := 0 } with ⟨(flow | l | _), st'⟩
  · have hlater : st' = State.later st'.steps { st' with steps := 0 } := by
      rw [State.later, Nat.zero_add]
    have hmoves := runChain_moves (f := f) (n := st'.steps) hlimit fuel q.landing (fuel + 1)
      q.statements { st' with steps := 0 }
    rw [← hlater, ← landing_map, ← run_eq] at hmoves
    exact hmoves
  · rfl
  · rfl

theorem session_run (session : Session) (p : Program Span) :
    session.run p = ((p.run session.config session.fuel session.state).1,
      { session with state := (p.run session.config session.fuel session.state).2 }) := rfl

/-- **Concatenation is sequencing.** A program, a line feed and another program are a program. It
has the statements of both, those of the second moved behind the line feed and its chains numbered
behind those of the first. If the first has no labels, jumps and stops, then without a limit the
program ends as the first one does if that is a fault, and otherwise does what the two do one after
the other on one machine. -/
theorem parse_sequences {s t : String} {p q : Program Span} (hp : parse s = .ok p)
    (hq : parse t = .ok q) :
    ∃ r, parse (s ++ "\n" ++ t) = .ok r ∧
      r.arena = p.arena.append (q.arena.map (.shift (s.utf8ByteSize + 1))) ∧
      (p.isStraight = true → ∀ session : Session, session.config.stepLimit = none →
        session.run r =
          match session.run p with
          | (.done (), after) =>
            let (outcome, final) := after.run q
            (outcome.map (.shift (s.utf8ByteSize + 1)) id,
              { final with state := final.state.later after.state.steps })
          | stopped => stopped) := by
  have hparse := parse_newline hp t
  rw [hq] at hparse
  refine ⟨p ++ q.map (.shift (s.utf8ByteSize + 1)), hparse, ?_, ?_⟩
  · rw [arena_append, arena_map]
  · intro hstraight session hlimit
    have hrun := run_append hlimit session.fuel (.shift (s.utf8ByteSize + 1)) hstraight q
      session.state
    rw [session_run, session_run, hrun]
    rcases p.run session.config session.fuel session.state with ⟨(_ | l | _), st⟩ <;> rfl

/-- A loop, and behind it a jump to a label that is not there. -/
theorem parse_sequences_jump : ∃ p q r, parse "For(I,1,2)\nDisp I\nEnd" = .ok p ∧
    parse "If I>2\nGoto 9" = .ok q ∧ p.isStraight = true ∧
    parse ("For(I,1,2)\nDisp I\nEnd" ++ "\n" ++ "If I>2\nGoto 9") = .ok r ∧
    r.arena = p.arena.append (q.arena.map (.shift 22)) ∧
    ∀ (prompt : String) (fuel : Nat) (state : State), Session.run ⟨⟨none, prompt⟩, fuel, state⟩ r =
      match Session.run ⟨⟨none, prompt⟩, fuel, state⟩ p with
      | (.done (), after) =>
        let (outcome, final) := after.run q
        (outcome.map (.shift 22) id, { final with state := final.state.later after.state.steps })
      | stopped => stopped := by
  have hstraight : (parse "For(I,1,2)\nDisp I\nEnd").toOption.any isStraight = true := by
    decide +kernel
  have hreads : (parse "If I>2\nGoto 9").toOption.isSome = true := by decide +kernel
  have hsize : "For(I,1,2)\nDisp I\nEnd".utf8ByteSize + 1 = 22 := by decide +kernel
  cases hp : parse "For(I,1,2)\nDisp I\nEnd" with
  | error e =>
    rw [hp] at hstraight
    cases hstraight
  | ok p =>
    cases hq : parse "If I>2\nGoto 9" with
    | error e =>
      rw [hq] at hreads
      cases hreads
    | ok q =>
      rw [hp] at hstraight
      obtain ⟨r, hr, harena, hruns⟩ := parse_sequences hp hq
      rw [hsize] at harena hruns
      exact ⟨p, q, r, rfl, rfl, hstraight, hr, harena, fun prompt fuel state =>
        hruns hstraight ⟨⟨none, prompt⟩, fuel, state⟩ rfl⟩

end Program

end CalcBasic
