import CalcBasic.Proofs.Blocks

/-!
# Programs and line feeds

What is known of a text before or behind a line feed.

1. Behind a complete program and a line feed a text means what it means alone, only further to the
   right (`parse_newline`).
2. The beginning of a program up to a line feed is a program, or a block in it is left open, or it
   stops between a condition and what it guards (`parse_before_newline`).
-/

namespace CalcBasic

/-! ## Changing no places -/

namespace Expr

mutual

theorem map_id : ∀ e : Expr Span, e.map id = e
  | literal _ _ | var _ _ => rfl
  | element _ _ e | signed _ _ e | group _ e => by rw [Expr.map, map_id e]; rfl
  | list _ items => by rw [Expr.map, mapAll_id items]; rfl
  | binary _ _ left right => by rw [Expr.map, map_id left, map_id right]; rfl

theorem mapAll_id : ∀ es : List (Expr Span), mapAll id es = es
  | [] => rfl
  | e :: es => by rw [mapAll, map_id e, mapAll_id es]

end

theorem map_id_eq : (Expr.map id : Expr Span → Expr Span) = id := funext map_id

end Expr

theorem Name.map_id_eq : (Name.map id : Name Span → Name Span) = id := rfl

theorem Command.map_id (c : Command Span) : c.map id = c := by
  cases c with
  | store e t => cases t <;> simp [Command.map, Target.map, Name.map, Expr.map_id]
  | _ => simp [Command.map, Name.map_id_eq, Expr.map_id, Expr.map_id_eq]

theorem Range.map_id (r : Range Span) : r.map id = r := by
  simp [Range.map, Name.map, Expr.map_id, Expr.map_id_eq]

namespace Stmt

mutual

theorem map_id : ∀ s : Stmt Span, s.map id = s
  | command _ c => by rw [Stmt.map, c.map_id]; rfl
  | ifThen _ e body | whileLoop _ e body => by rw [Stmt.map, e.map_id, mapAll_id body]; rfl
  | ifElse _ e body otherwise => by
    rw [Stmt.map, e.map_id, mapAll_id body, mapAll_id otherwise]; rfl
  | forLoop _ r body => by rw [Stmt.map, r.map_id, mapAll_id body]; rfl

theorem mapAll_id : ∀ ss : List (Stmt Span), mapAll id ss = ss
  | [] => rfl
  | s :: ss => by rw [mapAll, map_id s, mapAll_id ss]

end

theorem map_id_eq : (Stmt.map id : Stmt Span → Stmt Span) = id := funext map_id

end Stmt

theorem Spanned.move_id_eq : (Spanned.move id : Spanned Token → Spanned Token) = id := rfl

/-! ## Complete programs before a line feed -/

namespace Program

open Reader Stmt

/-- What the tokens of a source of so many bytes are, as a program. -/
def ofBlock (size : Nat) :
    Except Complaint (List (Stmt Span) × List (Spanned Token)) → Except SourceError (Program Span)
  | .ok (ss, []) => .ok ⟨ss⟩
  | .ok (_, t :: _) => .error (.malformed (.unmatched t.node) t.span)
  | .error c => .error (.malformed c.cause (c.span?.getD ⟨size, size⟩))

theorem parse_eq (source : String) :
    parse source =
      match Token.read source with
      | .error u => .error (.unreadable u)
      | .ok ts => ofBlock source.utf8ByteSize (block (Stmt.reader maxNesting) ts) := by
  unfold parse ofSource
  rcases Token.read source with u | ts
  · rfl
  · dsimp only
    unfold ofTokens reader
    rw [bind_apply]
    rcases block (Stmt.reader maxNesting) ts with c | ⟨ss, _ | ⟨t, rest⟩⟩ <;> rfl

end Program

/-- Moves an error to the right. -/
def SourceError.shift (n : Nat) : SourceError → SourceError
  | unreadable u => unreadable ⟨u.slice, u.span.shift n⟩
  | malformed cause span => malformed cause (span.shift n)
  | unavailable reason => unavailable reason

theorem Span.shift_merge (n : Nat) (a b : Span) :
    (a.merge b).shift n = (a.shift n).merge (b.shift n) := by
  simp only [merge, shift, Span.mk.injEq]
  omega

namespace Program

open Reader Stmt

theorem shrinks_reader : Shrinks (Stmt.reader maxNesting) :=
  shrinks_of_resumes (z := []) (reader_resumes (f := id) (fun _ _ => rfl) trails_nil maxNesting)

/-- The tokens of a text that stands further to the right. -/
theorem ofBlock_shift (n size : Nat) (ts : List (Spanned Token)) (ss : List (Stmt Span)) :
    ofBlock (size + n) (after ss (block (Stmt.reader maxNesting) (ts.map (.move (.shift n))))) =
      match ofBlock size (block (Stmt.reader maxNesting) ts) with
      | .ok p => .ok ⟨ss ++ (p.map (.shift n)).statements⟩
      | .error e => .error (e.shift n) := by
  have h := block_resumes (f := Span.shift n) (z := []) trails_nil
    (reader_resumes (Span.shift_merge n) trails_nil maxNesting) shrinks_reader shrinks_reader _ ts
    (Nat.lt_succ_self _)
  rw [List.append_nil] at h
  generalize block (Stmt.reader maxNesting) ts = o at h
  generalize block (Stmt.reader maxNesting) (ts.map (.move (.shift n))) = o' at h
  cases h with
  | @closed ss' rest hrest hne =>
    obtain ⟨t, rest, rfl⟩ := List.exists_cons_of_ne_nil hne
    rfl
  | opened ss' =>
    simp [block_nil, after, Except.map, ofBlock, Program.map, mapAll_eq]
  | @error c c' hc =>
    obtain rfl := hc rfl
    obtain ⟨cause, span?⟩ := c
    cases span? <;> rfl
  | awaits hne _ => exact absurd rfl hne

theorem ofBlock_eq_ok {size : Nat}
    {o : Except Complaint (List (Stmt Span) × List (Spanned Token))} {p : Program Span} :
    ofBlock size o = .ok p ↔ o = .ok (p.statements, []) := by
  obtain ⟨ss⟩ := p
  rcases o with c | ⟨ss', _ | ⟨t, rest⟩⟩ <;> simp [ofBlock]

/-- A block with a separator and more tokens behind it. -/
theorem block_append (ts us : List (Spanned Token)) (span : Span) :
    BlockResumed id (⟨.separator, span⟩ :: us) (Stmt.reader maxNesting) ts
      (block (Stmt.reader maxNesting) ts)
      (block (Stmt.reader maxNesting) (ts ++ ⟨.separator, span⟩ :: us)) := by
  have hz := trails_separator span us
  have h := block_resumes (f := id) hz (reader_resumes (fun _ _ => rfl) hz maxNesting)
    shrinks_reader shrinks_reader _ ts (Nat.lt_succ_self _)
  rw [Spanned.move_id_eq, List.map_id] at h
  exact h

/-- A block that is open at the end goes on after a separator. -/
theorem block_append_of_ok {ts : List (Spanned Token)} {ss : List (Stmt Span)}
    (h : block (Stmt.reader maxNesting) ts = .ok (ss, [])) (span : Span)
    (us : List (Spanned Token)) :
    block (Stmt.reader maxNesting) (ts ++ ⟨.separator, span⟩ :: us) =
      after ss (block (Stmt.reader maxNesting) us) := by
  have hseparator : block (Stmt.reader maxNesting) (⟨.separator, span⟩ :: us) =
      block (Stmt.reader maxNesting) us := by
    rw [block_eq shrinks_reader, block_eq shrinks_reader us]
    rfl
  have hresumed := block_append ts us span
  rw [h] at hresumed
  generalize block (Stmt.reader maxNesting) (ts ++ _) = o at hresumed
  cases hresumed with
  | closed _ hne => exact absurd rfl hne
  | opened ss => rw [Stmt.map_id_eq, List.map_id, hseparator]

/-- Before a separator a block is open, or it fails for want of tokens, if what follows is to end it
well. -/
theorem block_before_separator {ts us : List (Spanned Token)} {ss : List (Stmt Span)} {span : Span}
    (h : block (Stmt.reader maxNesting) (ts ++ ⟨.separator, span⟩ :: us) = .ok (ss, [])) :
    (∃ ss', block (Stmt.reader maxNesting) ts = .ok (ss', [])) ∨
      ∃ c, block (Stmt.reader maxNesting) ts = .error c ∧ c.awaits = true := by
  have hresumed := block_append ts us span
  rw [h] at hresumed
  generalize block (Stmt.reader maxNesting) ts = o at hresumed
  generalize ho' : Except.ok (ss, []) = o' at hresumed
  cases hresumed with
  | @closed ss' rest hrest hne =>
    have hnil : [] = rest.map (.move id) ++ ⟨.separator, span⟩ :: us :=
      congrArg Prod.snd (Except.ok.inj ho')
    cases rest <;> cases hnil
  | opened ss' => exact .inl ⟨ss', rfl⟩
  | error _ => cases ho'
  | awaits _ hc => exact .inr ⟨_, rfl, hc⟩

/-- **Behind a complete program.** After a program and a line feed a text is read as it is read alone,
and all places are moved behind the line feed. -/
theorem parse_newline {s : String} {p : Program Span} (hs : parse s = .ok p) (t : String) :
    parse (s ++ "\n" ++ t) =
      match parse t with
      | .ok q => .ok ⟨p.statements ++ (q.map (.shift (s.utf8ByteSize + 1))).statements⟩
      | .error e => .error (e.shift (s.utf8ByteSize + 1)) := by
  rw [parse_eq] at hs
  rw [parse_eq, parse_eq t, Token.read_newline]
  rcases hts : Token.read s with u | ts <;> rw [hts] at hs
  · cases hs
  · rcases Token.read t with u | us
    · rfl
    · have hsize : (s ++ "\n" ++ t).utf8ByteSize = t.utf8ByteSize + (s.utf8ByteSize + 1) := by
        rw [String.utf8ByteSize_append, String.utf8ByteSize_append, Nat.add_comm]
        rfl
      dsimp only
      rw [block_append_of_ok (ofBlock_eq_ok.mp hs), hsize, ofBlock_shift]

/-- **Before a line feed.** The beginning of a program up to a line feed is a program, or leaves a
block open, or stops between a condition and what it guards. -/
theorem parse_before_newline {s t : String} {p : Program Span}
    (h : parse (s ++ "\n" ++ t) = .ok p) :
    (∃ q, parse s = .ok q) ∨ ∃ e, parse s = .error e ∧ (e.isIncomplete = true ∨
      e = .malformed (.expected .guardedStatement none) ⟨s.utf8ByteSize, s.utf8ByteSize⟩) := by
  rw [parse_eq, Token.read_newline] at h
  rw [parse_eq]
  rcases hts : Token.read s with u | ts <;> rw [hts] at h
  · cases h
  · rcases hus : Token.read t with u | us <;> rw [hus] at h
    · cases h
    · dsimp only
      obtain ⟨ss, hss⟩ | ⟨c, hc, hawaits⟩ := block_before_separator (ofBlock_eq_ok.mp h)
      · exact .inl ⟨⟨ss⟩, ofBlock_eq_ok.mpr hss⟩
      · refine .inr ⟨_, congrArg (ofBlock _) hc, ?_⟩
        unfold Complaint.awaits at hawaits
        split at hawaits
        · exact .inl rfl
        · exact .inr rfl
        · cases hawaits

end Program

end CalcBasic
