import CalcBasic.Proofs.MissingEnds
import CalcBasic.Proofs.Tiling
import CalcBasic.Repl

/-!
# Commands are no programs

While nothing is kept, the loop takes a line that begins with a colon and a small letter for a
command. No program is lost by that (`Program.commands_turned_down`): whatever stands behind such a
beginning, the source is turned down before any block in it is open, so further lines do not help.

1. The words that begin with a small letter are `and` and `or` (`Word.of_small`). So the source cannot
   be read, or one of them is its first token behind the colon (`Token.read_colon_small`).
2. Where neither a primary nor a sign stands, no expression begins, and the parser says so at once
   (`Expr.reader_of_head`). So a source is turned down at an operator that a statement should begin
   with (`Program.parse_of_operator`).
-/

namespace CalcBasic

/-! ## Small letters -/

/-- A small letter of the alphabet. -/
def isSmall (c : Char) : Bool := 'a' ≤ c && c ≤ 'z'

theorem isSmall_iff_toNat {c : Char} : isSmall c = true ↔ 97 ≤ c.toNat ∧ c.toNat ≤ 122 :=
  between_iff_toNat

theorem isSkipped_of_isSmall {c : Char} (hc : isSmall c = true) : isSkipped c = false := by
  by_contra hskip
  simp only [isSkipped, Bool.not_eq_false, Bool.or_eq_true, beq_iff_eq] at hskip
  rcases hskip with (rfl | rfl) | rfl <;> cases hc

theorem Rule.fixed_small : ∀ p ∈ fixedSpellings, p.1.toList.head?.any isSmall = true →
    ∃ o ∈ [Op.or, Op.and], p = (o.symbol, .op o) := by
  decide +kernel

/-- A word that begins with a small letter is an operator on truth values. -/
theorem Word.of_small {c : Char} {l : List Char} {t : Token} (h : Word (c :: l) t)
    (hc : isSmall c = true) :
    ∃ o : Op, o.isLogical = true ∧ c :: l = o.symbol.toList ∧ t = .op o := by
  have hcode := isSmall_iff_toNat.mp hc
  have hletter : isLetter c ≠ true := fun h => by
    have := isLetter_iff_toNat.mp h
    omega
  have hdigit : isDigit c ≠ true := fun h => by
    have := isDigit_iff_toNat.mp h
    omega
  rcases h.cons_cases with ⟨p, hp, heq⟩ | ⟨hc', -⟩ | ⟨rfl, -⟩ | ⟨rfl, -⟩ | ⟨hc' | rfl, -⟩ | ⟨rfl, -⟩ |
    ⟨p, hp, hnamed⟩
  · obtain ⟨o, ho, rfl⟩ := Rule.fixed_small p hp (by rw [heq]; exact hc)
    have hword : Word o.symbol.toList (.op o) := .fixed hp
    rw [heq] at hword
    refine ⟨o, ?_, heq.symm, h.unique hword⟩
    simp only [List.mem_cons, List.not_mem_nil, or_false] at ho
    rcases ho with rfl | rfl <;> rfl
  · exact absurd hc' hletter
  · cases hc
  · cases hc
  · exact absurd hc' hdigit
  · cases hc
  · cases hc
  · exact absurd (hnamed.front hp) hletter

/-- If a source begins with a colon and a small letter and can be read, then its first tokens are a
separator and such an operator. -/
theorem Token.read_colon_small {source : String} {c : Char} {rest : List Char}
    (hsource : source.toList = ':' :: c :: rest) (hc : isSmall c = true)
    {ts : List (Spanned Token)} (h : read source = .ok ts) :
    ∃ (o : Op) (us : List (Spanned Token)), o.isLogical = true ∧
      ts = ⟨.separator, ⟨0, 1⟩⟩ :: ⟨.op o, ⟨1, 1 + o.symbol.utf8ByteSize⟩⟩ :: us := by
  rw [read, hsource, readFrom_separator (.inr rfl)] at h
  obtain ⟨us, rfl, hus⟩ := readFrom_eq_ok_iff.mp h
  generalize htext : c :: rest = text at hus
  cases hus with
  | done => cases htext
  | skip hskip =>
    obtain ⟨rfl, -⟩ := List.cons.inj htext
    rw [isSkipped_of_isSmall hc] at hskip
    cases hskip
  | @word offset lexeme cs token us hlongest hrest =>
    obtain ⟨d, l, rfl⟩ := List.exists_cons_of_ne_nil hlongest.word.ne_nil
    obtain ⟨rfl, -⟩ := List.cons.inj htext
    obtain ⟨o, ho, hsymbol, rfl⟩ := hlongest.word.of_small hc
    refine ⟨o, us, ho, ?_⟩
    rw [hsymbol, byteLength_toList]
    rfl

/-! ## Where no expression begins -/

namespace Expr

open Reader

variable {t : Spanned Token} (ht : t.node.begins = false)

include ht

theorem primary_of_head (d : Goal → Reader (Expr Span)) (ts : List (Spanned Token)) :
    primary d (t :: ts) = unexpected .expression (t :: ts) := by
  obtain ⟨node, span⟩ := t
  cases node with
  | number | name => cases ht
  | mark m => cases m <;> first | rfl | cases ht
  | _ => rfl

variable (hsign : ∀ sign : Sign, t.node ≠ .op sign.op)

include hsign

/-- Every phrase of the grammar begins with a primary or a sign. -/
theorem phraseReader_of_head (d : Goal → Reader (Expr Span)) (ph : Phrase)
    (ts : List (Spanned Token)) :
    phraseReader d ph (t :: ts) = unexpected .expression (t :: ts) := by
  have hnone : sign? (t :: ts) = .ok (none, t :: ts) := sign?_eq_none.mpr ⟨rfl, by
    rintro _ ⟨⟩
    exact hsign⟩
  refine phraseReader_induction (P := fun r => r (t :: ts) = unexpected .expression (t :: ts))
    (primary_of_head ht d ts) (fun l r hr => ?_) (fun l r hr => ?_) ph
  · rw [bind_apply, hr]
    rfl
  · rw [signs, bind_apply, hnone]
    exact hr

/-- Where neither a primary nor a sign stands, an expression is missing. -/
theorem reader_of_head (room : Nat) (ts : List (Spanned Token)) :
    reader (room + 1) (t :: ts) = .error ⟨.expected .expression (some t.node), some t.span⟩ := by
  cases room with
  | zero => exact phraseReader_of_head ht hsign _ (.level .disjunction) ts
  | succ room => exact phraseReader_of_head ht hsign (read room) (.level .disjunction) ts

end Expr

/-- A statement that begins with an operator other than a sign lacks an expression. -/
theorem Stmt.reader_of_operator {o : Op} (ho : ∀ sign : Sign, o ≠ sign.op) (room : Nat) (span : Span)
    (ts : List (Spanned Token)) : reader (room + 1) (⟨.op o, span⟩ :: ts) =
      .error ⟨.expected .expression (some (.op o)), some span⟩ := by
  have hexpr : Expr.reader (room + 1) (⟨.op o, span⟩ :: ts) =
      .error ⟨.expected .expression (some (.op o)), some span⟩ :=
    Expr.reader_of_head rfl (fun sign h => ho sign (Token.op.inj h)) room ts
  change valueReader (room + 1) _ = _
  rw [valueReader, Reader.bind_apply, hexpr]

namespace Program

open Stmt

/-- A source whose first token behind separators is an operator other than a sign is turned down
there. -/
theorem parse_of_operator {source : String} {ts us : List (Spanned Token)} {o : Op} {span : Span}
    (hread : Token.read source = .ok ts) (hpast : past ts = ⟨.op o, span⟩ :: us)
    (ho : ∀ sign : Sign, o ≠ sign.op) :
    parse source = .error (.malformed (.expected .expression (some (.op o))) span) := by
  have hstmt := reader_of_operator ho (maxNesting - 1) span us
  rw [parse_eq, hread]
  dsimp only
  rw [block_of_error shrinks_reader hpast rfl hstmt]
  rfl

end Program

/-! ## Commands -/

/-- A command begins with a colon and a small letter. -/
theorem ReplCommand.isSome_ofLine? {line : String} : (ofLine? line).isSome = true ↔
    ∃ c rest, line.toList = ':' :: c :: rest ∧ isSmall c = true := by
  unfold ofLine?
  split
  · rename_i c rest heq
    have hsmall : ('a' ≤ c && c ≤ 'z') = isSmall c := rfl
    rw [hsmall, heq]
    cases hc : isSmall c <;> simp [hc]
  · rename_i hne
    constructor
    · nofun
    · rintro ⟨c, rest, heq, -⟩
      exact absurd heq (hne c rest)

namespace Program

/-- A source that begins like a command cannot be read, or it has an operator where a statement should
begin. -/
theorem parse_of_command {source : String} (h : (ReplCommand.ofLine? source).isSome = true) :
    (∃ u, parse source = .error (.unreadable u)) ∨ ∃ o : Op, o.isLogical = true ∧
      parse source = .error (.malformed (.expected .expression (some (.op o)))
        ⟨1, 1 + o.symbol.utf8ByteSize⟩) := by
  obtain ⟨c, rest, hsource, hc⟩ := ReplCommand.isSome_ofLine?.mp h
  rcases hread : Token.read source with u | ts
  · refine .inl ⟨u, ?_⟩
    rw [parse_eq, hread]
  · obtain ⟨o, us, ho, rfl⟩ := Token.read_colon_small hsource hc hread
    refine .inr ⟨o, ho, parse_of_operator hread rfl ?_⟩
    rintro (_ | _) rfl <;> cases ho

/-- It is turned down, and no further lines complete it. -/
theorem exists_error_of_command {source : String}
    (h : (ReplCommand.ofLine? source).isSome = true) :
    ∃ e, parse source = .error e ∧ e.isIncomplete = false := by
  obtain ⟨u, hu⟩ | ⟨o, -, ho⟩ := parse_of_command h
  · exact ⟨_, hu, rfl⟩
  · exact ⟨_, ho, rfl⟩

/-- **Commands are no programs.** A line that the loop takes for a command is no program and does not
begin one: alone and with any lines behind it, it is turned down, and not because a block in it is
open. -/
theorem commands_turned_down {line : String} (h : (ReplCommand.ofLine? line).isSome = true)
    (text : String) :
    (∃ e, parse line = .error e ∧ e.isIncomplete = false) ∧
      ∃ e, parse (line ++ "\n" ++ text) = .error e ∧ e.isIncomplete = false := by
  refine ⟨exists_error_of_command h, exists_error_of_command ?_⟩
  -- What makes a line a command are its first two characters.
  obtain ⟨c, rest, hline, hc⟩ := ReplCommand.isSome_ofLine?.mp h
  refine ReplCommand.isSome_ofLine?.mpr ⟨c, rest ++ '\n' :: text.toList, ?_, hc⟩
  simp [hline]

/-- Such a line may well begin with a word, and leave a block open behind it. -/
theorem commands_turned_down_open :
    (ReplCommand.ofLine? ":and 1:While 1").isSome = true ∧
      (∃ e, parse ":and 1:While 1" = .error e ∧ e.isIncomplete = false) ∧
      ∃ e, parse (":and 1:While 1" ++ "\n" ++ "Disp 1") = .error e ∧ e.isIncomplete = false :=
  have hcommand : (ReplCommand.ofLine? ":and 1:While 1").isSome = true := by decide +kernel
  ⟨hcommand, commands_turned_down hcommand "Disp 1"⟩

end Program

end CalcBasic
