import CalcBasic.Proofs.LineByLine
import CalcBasic.Proofs.MissingEnds
import CalcBasic.Proofs.NestingLimit
import CalcBasic.Proofs.Sequencing

/-!
# A program in a block

A program does the same at the top level and in the block of a condition that holds. In the block
its statements are the rest of one statement, and a jump leaves that statement before it lands in
the block again.

1. The enclosed text has the tokens of the text with the words of the conditional around them
   (`Token.read_enclosed`), and if it is a program, that is the one conditional with the statements
   of the text, moved, in its block (`Program.parse_enclosed`).
2. The conditional has the labels of its block, so jumps land at the same statements
   (`Program.landing_conditional`). Its execution comes down to that of the block
   (`Stmt.execAll_conditional`), so its run is the run of the statements, moved by one step
   (`Program.run_conditional`).
-/

namespace CalcBasic

/-- The first lines of a conditional that holds. -/
def opening : String := "If 1\nThen\n"

/-- A text in the block of a conditional that holds. -/
def enclosed (source : String) : String := opening ++ source ++ "\nEnd"

/-! ## The enclosed text -/

open Reader Stmt

theorem Token.read_enclosed {source : String} {ts : List (Spanned Token)}
    (h : Token.read source = .ok ts) : ∃ a b c d e i j : Span,
      Token.read (enclosed source) =
        .ok (⟨.keyword .if_, a⟩ :: ⟨.number 1, b⟩ :: ⟨.separator, c⟩ :: ⟨.keyword .then_, d⟩ ::
          ⟨.separator, e⟩ :: (ts.map (.move (.shift opening.utf8ByteSize)) ++
            [⟨.separator, i⟩, ⟨.keyword .end_, j⟩])) := by
  have hwords : (Token.read "If 1\nThen").toOption = some [⟨.keyword .if_, ⟨0, 2⟩⟩,
      ⟨.number 1, ⟨3, 4⟩⟩, ⟨.separator, ⟨4, 5⟩⟩, ⟨.keyword .then_, ⟨5, 9⟩⟩] := by decide +kernel
  have hend : Token.read "End" = .ok [⟨.keyword .end_, ⟨0, 3⟩⟩] := by rfl
  have hlines : enclosed source = "If 1\nThen" ++ "\n" ++ (source ++ "\n" ++ "End") := by
    simp only [enclosed, String.append_assoc]
    rfl
  rw [hlines, Token.read_newline, Token.read_newline, h, hend]
  rcases hread : Token.read "If 1\nThen" with u | words <;> rw [hread] at hwords
  · cases hwords
  · cases hwords
    dsimp only
    rw [List.map_append]
    exact ⟨_, _, _, _, _, _, _, rfl⟩

namespace Program

/-- A conditional that holds, with the program in its block. -/
def conditional {σ : Type} (header condition : σ) (p : Program σ) : Program σ :=
  ⟨[.ifThen header (.literal condition 1) p.statements]⟩

theorem reader_number (x : Float) (span : Span) (z : List (Spanned Token)) (hz : Trails z) :
    Expr.reader maxNesting (⟨.number x, span⟩ :: z) = .ok (.literal span x, z) := by
  have hlone : Expr.reader maxNesting [⟨.number x, span⟩] = .ok (.literal span x, []) := rfl
  exact kept_of_resumes Expr.map_id
    (fun _ hz => Expr.reader_resumes (fun _ _ => rfl) hz maxNesting) hlone z hz

/-- A block is read alike with less room, if it is read at all. -/
theorem block_of_room {room : Nat} (hroom : room ≤ maxNesting) {ts rest : List (Spanned Token)}
    {ss : List (Stmt Span)} (h : block (Stmt.reader room) ts = .ok (ss, rest)) :
    block (Stmt.reader maxNesting) ts = .ok (ss, rest) := by
  obtain ⟨hlevels, hfollows⟩ := block_follows (Stmt.reader_follows room maxNesting) ts ss rest h
  exact hfollows fun s hs => (hlevels s hs).1.trans hroom

theorem block_moved {ts : List (Spanned Token)} {p : Program Span}
    (h : block (Stmt.reader maxNesting) ts = .ok (p.statements, [])) (n : Nat) :
    block (Stmt.reader maxNesting) (ts.map (.move (.shift n))) =
      .ok ((p.map (.shift n)).statements, []) := by
  have hshift := ofBlock_shift n 0 ts []
  rw [after_nil, h] at hshift
  exact ofBlock_eq_ok.mp hshift

/-- The statements between `Then` and `End`. -/
theorem block_enclosed {ts : List (Spanned Token)} {ss : List (Stmt Span)}
    (h : block (Stmt.reader maxNesting) ts = .ok (ss, [])) (e i j : Span) :
    block (Stmt.reader maxNesting)
        (⟨.separator, e⟩ :: (ts ++ [⟨.separator, i⟩, ⟨.keyword .end_, j⟩])) =
      .ok (ss, [⟨.keyword .end_, j⟩]) := by
  have hend : block (Stmt.reader maxNesting) [⟨.keyword .end_, j⟩] =
      .ok ([], [⟨.keyword .end_, j⟩]) := by
    refine block_of_closes shrinks_reader ?_
    rintro t ⟨⟩
    rfl
  rw [block_separator shrinks_reader, block_append_of_ok h, hend]
  simp [after, Except.map]

/-- A conditional whose condition is a number. -/
theorem reader_if_then (a b c d : Span) (x : Float) (us : List (Spanned Token)) :
    Stmt.reader maxNesting (⟨.keyword .if_, a⟩ :: ⟨.number x, b⟩ :: ⟨.separator, c⟩ ::
      ⟨.keyword .then_, d⟩ :: us) =
      thenPart (block (Stmt.reader (maxNesting - 1))) (a.merge b) (.literal b x) us := by
  show (Expr.reader maxNesting >>= _) _ = _
  rw [bind_apply, reader_number x b _ (trails_separator c _)]
  show guarded _ _ _ _ _ = _
  rw [guarded_eq]
  rfl

/-- If the enclosed text is a program, it is the conditional with the program in its block. -/
theorem parse_enclosed {source : String} {p q : Program Span} (hp : parse source = .ok p)
    (hq : parse (enclosed source) = .ok q) : ∃ header condition : Span,
      q = (p.map (.shift opening.utf8ByteSize)).conditional header condition := by
  rw [parse_eq] at hp hq
  rcases hts : Token.read source with u | ts <;> rw [hts] at hp
  · cases hp
  obtain ⟨a, b, c, d, e, i, j, hread⟩ := Token.read_enclosed hts
  rw [hread] at hq
  have hbody := block_enclosed (block_moved (ofBlock_eq_ok.mp hp) opening.utf8ByteSize) e i j
  have hblock := ofBlock_eq_ok.mp hq
  rw [block_eq shrinks_reader, past_cons (by simp)] at hblock
  dsimp only at hblock
  rw [if_neg (by simp [closes]), reader_if_then, thenPart, bind_apply] at hblock
  -- the block has one level of nesting less, but it is read, and so it is the one at the top level
  rcases hyes : block (Stmt.reader (maxNesting - 1)) (⟨.separator, e⟩ :: _) with cause | ⟨ss, rest⟩
    <;> rw [hyes] at hblock
  · cases hblock
  · rw [block_of_room (Nat.sub_le _ _) hyes] at hbody
    cases hbody
    obtain ⟨ss⟩ := q
    cases hblock
    exact ⟨_, _, rfl⟩

end Program

/-! ## The run of a conditional -/

theorem Program.landing_conditional {σ : Type} (header condition : σ) (p : Program σ) :
    (p.conditional header condition).landing = p.landing := by
  rw [landing_eq, landing_eq]
  show Landing.of (spotsOf p.statements ++ []) = _
  rw [List.append_nil]

section Runs

variable {σ τ : Type} {config : Config}

theorem Stmt.execAll_conditional (hlimit : config.stepLimit = none) (fuel : Nat)
    (header condition : σ) (ss : List (Stmt σ)) (st : State) :
    execAll config fuel [.ifThen header (.literal condition 1) ss] st =
      execAll config fuel ss (st.later 1) := by
  have hone : isTrue 1 = true := by decide +kernel
  have hcount : Action.count config header st = (.done (), st.later 1) := by
    unfold Action.count
    rw [hlimit]
    rfl
  have hexec : exec config fuel (.ifThen header (.literal condition 1) ss) st =
      execAll config fuel ss (st.later 1) := by
    rw [exec, Action.bind_apply, hcount]
    show (if isTrue 1 = true then execAll config fuel ss else pure .proceed) _ = _
    rw [if_pos hone]
  rw [execAll_eq, Action.andThen_apply, hexec]
  rcases execAll config fuel ss (st.later 1) with ⟨((_ | _ | _) | _ | _), st'⟩ <;> rfl

namespace Program

/-- **Blocks and the top level.** In the block of a conditional that holds a program does what it
does by itself, moved by one step. -/
theorem run_conditional (hlimit : config.stepLimit = none) (fuel : Nat) (f : σ → τ)
    (header condition : τ) (p : Program σ) (st : State) :
    ((p.map f).conditional header condition).run config fuel st =
      ((p.run config fuel st).1.map f id, (p.run config fuel st).2.later 1) := by
  have hchain : ((p.map f).conditional header condition).run config fuel st =
      runChain config fuel (p.landing.map f) (fuel + 1) (mapAll f p.statements)
        (State.later 1 { st with steps := 0 }) := by
    rw [run_eq, landing_conditional, landing_map, runChain_eq, runChain_eq, Action.bind_apply,
      Action.bind_apply, conditional, execAll_conditional hlimit]
    rfl
  rw [hchain, run_eq, runChain_moves (n := 1) hlimit]

/-- **A block is a program.** If a text is a program, and so is the text in the block of a
conditional that holds, then without a limit both do the same from every state: they come to the
same outcome, up to the places of faults, which are moved behind the first lines of the conditional,
with the same variables and the same console. The conditional itself takes one step. -/
theorem run_enclosed {source : String} {p q : Program Span} (hp : parse source = .ok p)
    (hq : parse (enclosed source) = .ok q) (hlimit : config.stepLimit = none) (fuel : Nat)
    (st : State) :
    q.run config fuel st = ((p.run config fuel st).1.map (.shift opening.utf8ByteSize) id,
      (p.run config fuel st).2.later 1) := by
  obtain ⟨header, condition, rfl⟩ := parse_enclosed hp hq
  exact run_conditional hlimit fuel _ header condition p st

/-- A loop with a jump out of it into another block, a stop, and a jump to a label that is not
there. -/
theorem run_enclosed_jumps : ∃ p q,
    parse "While 1\nGoto A\nEnd\nStop\nIf 0\nThen\nLbl A\nDisp X\nGoto C\nEnd" = .ok p ∧
    parse (enclosed "While 1\nGoto A\nEnd\nStop\nIf 0\nThen\nLbl A\nDisp X\nGoto C\nEnd") =
      .ok q ∧
    ∀ (prompt : String) (fuel : Nat) (st : State), q.run ⟨none, prompt⟩ fuel st =
      ((p.run ⟨none, prompt⟩ fuel st).1.map (.shift 10) id,
        (p.run ⟨none, prompt⟩ fuel st).2.later 1) := by
  have hplain : progress "While 1\nGoto A\nEnd\nStop\nIf 0\nThen\nLbl A\nDisp X\nGoto C\nEnd" =
      .complete := by decide +kernel
  have hwhole : progress (enclosed
      "While 1\nGoto A\nEnd\nStop\nIf 0\nThen\nLbl A\nDisp X\nGoto C\nEnd") = .complete := by
    decide +kernel
  have hsize : opening.utf8ByteSize = 10 := by decide +kernel
  obtain ⟨p, hp⟩ := progress_eq_complete.mp hplain
  obtain ⟨q, hq⟩ := progress_eq_complete.mp hwhole
  refine ⟨p, q, hp, hq, fun prompt fuel st => ?_⟩
  rw [run_enclosed hp hq rfl, hsize]

end Program

end Runs

end CalcBasic
