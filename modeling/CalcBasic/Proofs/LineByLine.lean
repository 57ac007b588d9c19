import CalcBasic.Proofs.ProgramLines
import CalcBasic.Repl
import Mathlib.Data.List.Infix

/-!
# Programs typed line by line

The loop keeps its lines while a block is open, and starts afresh behind each complete program. So it
judges each line as the whole text up to that line is judged (`Tracks`), and a program can be typed
line by line, if no line ends between a condition and what it guards (`typed_line_by_line`).
-/

namespace CalcBasic

/-! ## How far a text is from being a program -/

/-- How far a text is from being a program. -/
inductive Progress where
  | complete
  /-- A block is left open. -/
  | unclosed
  /-- What a condition guards is missing. -/
  | unguarded
  | wrong
deriving DecidableEq

/-- How far a text is from being a program if its tokens form none. -/
def Cause.progress : Cause → Progress
  | unclosed _ => .unclosed
  | expected .guardedStatement none => .unguarded
  | _ => .wrong

/-- How far a text with an error is from being a program. -/
def SourceError.progress : SourceError → Progress
  | malformed cause _ => cause.progress
  | _ => .wrong

/-- How far a text is from being a program. -/
def Program.progress (source : String) : Progress :=
  match parse source with
  | .ok _ => .complete
  | .error e => e.progress

theorem SourceError.progress_shift (n : Nat) (e : SourceError) :
    (e.shift n).progress = e.progress := by
  cases e <;> rfl

theorem Cause.progress_eq_unclosed {c : Cause} :
    c.progress = .unclosed ↔ c.isIncomplete = true := by
  unfold Cause.progress
  split <;> simp_all [Cause.isIncomplete]

theorem SourceError.progress_eq_unclosed {e : SourceError} :
    e.progress = .unclosed ↔ e.isIncomplete = true := by
  cases e with
  | malformed cause span => exact Cause.progress_eq_unclosed
  | unreadable u => simp [SourceError.progress, SourceError.isIncomplete]
  | unavailable u => simp [SourceError.progress, SourceError.isIncomplete]

theorem SourceError.progress_eq_unguarded {e : SourceError} :
    e.progress = .unguarded ↔ ∃ span, e = .malformed (.expected .guardedStatement none) span := by
  constructor
  · intro h
    unfold SourceError.progress Cause.progress at h
    split at h
    · split at h
      · cases h
      · exact ⟨_, rfl⟩
      · cases h
    · cases h
  · rintro ⟨span, rfl⟩
    rfl

theorem SourceError.progress_ne_complete (e : SourceError) : e.progress ≠ .complete := by
  unfold SourceError.progress Cause.progress
  split
  · split <;> exact nofun
  · exact nofun

namespace Program

theorem progress_eq_complete {s : String} : progress s = .complete ↔ ∃ p, parse s = .ok p := by
  unfold progress
  rcases parse s with e | p
  · simp [e.progress_ne_complete]
  · simp

theorem progress_eq_unguarded {s : String} : progress s = .unguarded ↔
    ∃ span, parse s = .error (.malformed (.expected .guardedStatement none) span) := by
  unfold progress
  rcases parse s with e | p
  · simp [e.progress_eq_unguarded]
  · simp

theorem progress_newline {s : String} (hs : progress s = .complete) (t : String) :
    progress (s ++ "\n" ++ t) = progress t := by
  obtain ⟨p, hp⟩ := progress_eq_complete.mp hs
  unfold progress
  rw [parse_newline hp]
  rcases parse t with e | q
  · exact e.progress_shift _
  · rfl

theorem progress_before_newline {s t : String} (h : progress (s ++ "\n" ++ t) = .complete) :
    progress s ≠ .wrong := by
  obtain ⟨p, hp⟩ := progress_eq_complete.mp h
  unfold progress
  obtain ⟨q, hq⟩ | ⟨e, he, hopen | rfl⟩ := parse_before_newline hp
  · rw [hq]
    exact nofun
  · rw [he]
    show e.progress ≠ .wrong
    rw [SourceError.progress_eq_unclosed.mpr hopen]
    exact nofun
  · rw [he]
    exact nofun

end Program

/-! ## The loop -/

namespace Repl

/-- The text that a line completes: the line itself, or the lines kept so far and the line. -/
def source (r : Repl) (line : String) : String :=
  if r.pending.isEmpty then line else r.pending ++ "\n" ++ line

/-- The error in the text that the loop reports when it is given a line. -/
def complaint? (r : Repl) (line : String) : Option SourceError :=
  match Program.parse (r.source line) with
  | .ok _ => none
  | .error e => if e.isIncomplete then none else some e

/-- Gives the loop some lines, one after the other. -/
def feedAll (r : Repl) (lines : List String) : Repl := lines.foldl feed r

theorem feedAll_append (r : Repl) (lines : List String) (line : String) :
    r.feedAll (lines ++ [line]) = (r.feedAll lines).feed line := by
  simp [feedAll]

theorem complaint?_eq_none {r : Repl} {line : String} :
    r.complaint? line = none ↔
      Program.progress (r.source line) = .complete ∨
        Program.progress (r.source line) = .unclosed := by
  unfold complaint? Program.progress
  rcases Program.parse (r.source line) with e | p
  · simp [e.progress_ne_complete, SourceError.progress_eq_unclosed]
  · simp

/-- What the loop does with a line: it reports the error in the text, or it keeps the text because a
block is left open, or it runs the program that the text is, or it shows the value of the expression
that this is. -/
theorem feed_cases (r : Repl) (line : String) :
    (∃ e, r.complaint? line = some e ∧
      r.feed line = { r with pending := "" }.writing (·.reportSource e)) ∨
    r.complaint? line = none ∧
      ((∃ e, Program.parse (r.source line) = .error e ∧ e.isIncomplete = true ∧
        r.feed line = { r with pending := r.source line }) ∨
      ∃ p, Program.parse (r.source line) = .ok p ∧
        (loneExpr? p = none ∧ r.feed line = { r with pending := "" }.runProgram p ∨
          ∃ e, loneExpr? p = some e ∧ r.feed line = { r with pending := "" }.echo e)) := by
  have hfeed : r.feed line = r.submit (r.source line) := rfl
  rw [hfeed]
  unfold submit complaint?
  rcases Program.parse (r.source line) with e | p
  · by_cases hopen : e.isIncomplete = true
    · exact .inr ⟨if_pos hopen, .inl ⟨e, rfl, hopen, if_pos hopen⟩⟩
    · exact .inl ⟨e, if_neg hopen, if_neg hopen⟩
  · refine .inr ⟨rfl, .inr ⟨p, rfl, ?_⟩⟩
    dsimp only
    cases hlone : loneExpr? p with
    | none => exact .inl ⟨rfl, rfl⟩
    | some e => exact .inr ⟨e, rfl, rfl⟩

theorem pending_runProgram (r : Repl) (p : Program Span) :
    (r.runProgram p).pending = r.pending := by
  unfold runProgram
  rcases r.session.run p with ⟨outcome, session⟩
  cases outcome with
  | fault located =>
    dsimp only
    unfold reportFault
    split <;> rfl
  | done _ => rfl
  | unfinished => rfl

theorem pending_echo (r : Repl) (e : Expr Span) : (r.echo e).pending = r.pending := by
  unfold echo
  split <;> rfl

/-- A line that completes a program leaves nothing kept. -/
theorem pending_feed_complete {r : Repl} {line : String}
    (h : Program.progress (r.source line) = .complete) : (r.feed line).pending = "" := by
  obtain ⟨p, hp⟩ := Program.progress_eq_complete.mp h
  obtain ⟨e, -, hfeed⟩ | ⟨-, ⟨e, he, -, -⟩ | ⟨_, -, ⟨-, hfeed⟩ | ⟨e, -, hfeed⟩⟩⟩ := r.feed_cases line
  · rw [hfeed]
    rfl
  · rw [hp] at he
    cases he
  · rw [hfeed, pending_runProgram]
  · rw [hfeed, pending_echo]

/-- A line that leaves a block open is kept with the lines before it. -/
theorem pending_feed_unclosed {r : Repl} {line : String}
    (h : Program.progress (r.source line) = .unclosed) :
    (r.feed line).pending = r.source line := by
  obtain ⟨e, he, -⟩ | ⟨-, ⟨e, -, -, hfeed⟩ | ⟨p, hp, -⟩⟩ := r.feed_cases line
  · rw [complaint?_eq_none.mpr (.inr h)] at he
    cases he
  · rw [hfeed]
  · rw [Program.progress_eq_complete.mpr ⟨p, hp⟩] at h
    cases h

/-- The loop judges the next line as the whole text up to it is judged. -/
def Tracks (r : Repl) (before : List String) : Prop :=
  ∀ line, Program.progress ("\n".intercalate (before ++ [line])) = Program.progress (r.source line)

theorem tracks_nil {r : Repl} (h : r.pending = "") : r.Tracks [] := by
  intro line
  rw [List.nil_append, String.intercalate_singleton, source, h]
  rfl

theorem intercalate_concat {before : List String} (h : before ≠ []) (line : String) :
    "\n".intercalate (before ++ [line]) = "\n".intercalate before ++ "\n" ++ line := by
  rw [String.intercalate_append_of_ne_nil h (List.cons_ne_nil _ _), String.intercalate_singleton]

theorem intercalate_append_line (before : List String) (line next : String) :
    "\n".intercalate (before ++ [line ++ "\n" ++ next]) =
      "\n".intercalate (before ++ [line]) ++ "\n" ++ next := by
  by_cases h : before = []
  · subst h
    simp
  · rw [intercalate_concat h, intercalate_concat h]
    simp only [String.append_assoc]

theorem source_append (r : Repl) (line next : String) :
    r.source (line ++ "\n" ++ next) = r.source line ++ "\n" ++ next := by
  unfold source
  split
  · rfl
  · simp only [String.append_assoc]

theorem progress_empty : Program.progress "" = .complete := rfl

theorem Tracks.feed {r : Repl} {before : List String} {line : String} (h : r.Tracks before)
    (hline : r.complaint? line = none) : (r.feed line).Tracks (before ++ [line]) := by
  intro next
  rw [intercalate_concat (by simp)]
  rcases complaint?_eq_none.mp hline with hcomplete | hunclosed
  · rw [Program.progress_newline ((h line).trans hcomplete), source,
      pending_feed_complete hcomplete]
    rfl
  · have hne : r.source line ≠ "" := by
      intro hempty
      rw [hempty, progress_empty] at hunclosed
      cases hunclosed
    have hnext := h (line ++ "\n" ++ next)
    rw [source_append, intercalate_append_line] at hnext
    have hsource : (r.feed line).source next = r.source line ++ "\n" ++ next := by
      unfold source
      rw [pending_feed_unclosed hunclosed, if_neg (by simpa using hne)]
      rfl
    rw [hnext, hsource]

/-- Whether the loop takes every line without an error in it. -/
def Quiet (r : Repl) (lines : List String) : Prop :=
  ∀ before line, before ++ [line] <+: lines → (r.feedAll before).complaint? line = none

theorem Quiet.tracks {r : Repl} {lines : List String} (hr : r.pending = "") (h : r.Quiet lines) :
    (r.feedAll lines).Tracks lines := by
  induction lines using List.reverseRecOn with
  | nil => exact tracks_nil hr
  | append_singleton before line ih =>
    have hbefore : r.Quiet before := fun b l hb => h b l (hb.trans (List.prefix_append _ _))
    rw [feedAll_append]
    exact (ih hbefore).feed (h before line List.prefix_rfl)

/-- What is kept behind the last line of a program. -/
theorem Quiet.pending {r : Repl} {lines : List String} (hr : r.pending = "") (h : r.Quiet lines)
    (hlines : Program.progress ("\n".intercalate lines) = .complete) :
    (r.feedAll lines).pending = "" := by
  cases lines using List.reverseRecOn with
  | nil => exact hr
  | append_singleton before line =>
    have hbefore : r.Quiet before := fun b l hb => h b l (hb.trans (List.prefix_append _ _))
    rw [feedAll_append]
    exact pending_feed_complete ((hbefore.tracks hr line).symm.trans hlines)

/-- The beginning of a program at a line is not wrong. -/
theorem progress_beginning {before lines : List String} (hne : before ≠ [])
    (hlines : Program.progress ("\n".intercalate lines) = .complete) (hb : before <+: lines) :
    Program.progress ("\n".intercalate before) ≠ .wrong := by
  obtain ⟨after, rfl⟩ := hb
  by_cases hafter : after = []
  · subst hafter
    rw [List.append_nil] at hlines
    rw [hlines]
    exact nofun
  · rw [String.intercalate_append_of_ne_nil hne hafter] at hlines
    exact Program.progress_before_newline hlines

theorem quiet_of_guarded {r : Repl} {lines : List String} (hr : r.pending = "")
    (hlines : Program.progress ("\n".intercalate lines) = .complete)
    (hguarded : ∀ before, before <+: lines →
      Program.progress ("\n".intercalate before) ≠ .unguarded) : r.Quiet lines := by
  -- each line is judged as the text up to it, once the lines before it were taken
  have hstep : ∀ before, before <+: lines → r.Quiet before := by
    intro before
    induction before using List.reverseRecOn with
    | nil =>
      intro _ b l hb
      exact absurd (List.prefix_nil.mp hb) (by simp)
    | append_singleton before line ih =>
      intro hb
      have hquiet := ih ((List.prefix_append _ _).trans hb)
      have hjudged := hquiet.tracks hr line
      have hright := progress_beginning (by simp) hlines hb
      have hmore := hguarded _ hb
      have hline : (r.feedAll before).complaint? line = none := by
        rw [complaint?_eq_none, ← hjudged]
        cases h : Program.progress ("\n".intercalate (before ++ [line])) with
        | complete => exact .inl rfl
        | unclosed => exact .inr rfl
        | unguarded => exact absurd h hmore
        | wrong => exact absurd h hright
      intro b l hbl
      rcases List.prefix_concat_iff.mp hbl with heq | hprefix
      · obtain ⟨rfl, hl⟩ := List.append_inj' heq rfl
        cases hl
        exact hline
      · exact hquiet b l hprefix
  exact hstep lines List.prefix_rfl

/-- **Programs can be typed line by line**, but no line may end between a condition and what it
guards. The beginning of a program up to a line feed is complete, or leaves a block open, or stops
between a condition and what it guards. Given the lines of a program one after the other, the loop
reports no error in them exactly if none of their beginnings stops so, and then it keeps nothing in
the end. What the loop does with a line is what it judges: it writes the report of an error in the
text and drops the text, or it keeps the text because a block is open, or it runs the program that the
text is, or shows the value of the expression that this is. -/
theorem typed_line_by_line :
    (∀ (s t : String) (p : Program Span), Program.parse (s ++ "\n" ++ t) = .ok p →
      (∃ q, Program.parse s = .ok q) ∨
        ∃ e, Program.parse s = .error e ∧ (e.isIncomplete = true ∨
          e = .malformed (.expected .guardedStatement none) ⟨s.utf8ByteSize, s.utf8ByteSize⟩)) ∧
    (∀ (r : Repl) (lines : List String) (p : Program Span), r.pending = "" →
      Program.parse ("\n".intercalate lines) = .ok p →
      (r.Quiet lines ↔ ∀ before, before <+: lines → ∀ span,
        Program.parse ("\n".intercalate before) ≠
          .error (.malformed (.expected .guardedStatement none) span)) ∧
      (r.Quiet lines → (r.feedAll lines).pending = "")) ∧
    ∀ (r : Repl) (line : String),
      (∃ e, r.complaint? line = some e ∧
        r.feed line = { r with pending := "" }.writing (·.reportSource e)) ∨
      r.complaint? line = none ∧
        ((∃ e, Program.parse (r.source line) = .error e ∧ e.isIncomplete = true ∧
          r.feed line = { r with pending := r.source line }) ∨
        ∃ p, Program.parse (r.source line) = .ok p ∧
          (loneExpr? p = none ∧ r.feed line = { r with pending := "" }.runProgram p ∨
            ∃ e, loneExpr? p = some e ∧ r.feed line = { r with pending := "" }.echo e)) := by
  refine ⟨fun s t p h => Program.parse_before_newline h, fun r lines p hr hp => ?_, feed_cases⟩
  have hlines := Program.progress_eq_complete.mpr ⟨p, hp⟩
  refine ⟨⟨fun hquiet before hb span herror => ?_, fun hguarded => ?_⟩,
    fun hquiet => hquiet.pending hr hlines⟩
  · have hprogress := Program.progress_eq_unguarded.mpr ⟨span, herror⟩
    cases before using List.reverseRecOn with
    | nil => cases hprogress
    | append_singleton before line =>
      have hbefore : r.Quiet before :=
        fun b l hbl => hquiet b l (hbl.trans ((List.prefix_append _ _).trans hb))
      have hline := complaint?_eq_none.mp (hquiet before line hb)
      rw [← hbefore.tracks hr line, hprogress] at hline
      rcases hline with h | h <;> cases h
  · refine quiet_of_guarded hr hlines fun before hb h => ?_
    obtain ⟨span, herror⟩ := Program.progress_eq_unguarded.mp h
    exact hguarded before hb span herror

/-- A loop that was just started. -/
def fresh : Repl := { session := .start {} 0 { input := [] } }

/-- A `While` block and an `If` with its statement on the same line. -/
theorem typed_loop :
    ((∃ q, Program.parse "While 0" = .ok q) ∨
      ∃ e, Program.parse "While 0" = .error e ∧ (e.isIncomplete = true ∨
        e = .malformed (.expected .guardedStatement none) ⟨7, 7⟩)) ∧
    fresh.Quiet ["While 0", "Disp 1", "End", "If 1:Disp 2"] ∧
    (fresh.feedAll ["While 0", "Disp 1", "End", "If 1:Disp 2"]).pending = "" := by
  have hloop : Program.progress ("While 0" ++ "\n" ++ "End") = .complete := by decide +kernel
  have hlines : Program.progress
      ("\n".intercalate ["While 0", "Disp 1", "End", "If 1:Disp 2"]) = .complete := by decide +kernel
  have hguarded : ∀ before ∈ ["While 0", "Disp 1", "End", "If 1:Disp 2"].inits,
      Program.progress ("\n".intercalate before) ≠ .unguarded := by decide +kernel
  obtain ⟨p, hp⟩ := Program.progress_eq_complete.mp hloop
  obtain ⟨q, hq⟩ := Program.progress_eq_complete.mp hlines
  obtain ⟨hquiet, hpending⟩ := typed_line_by_line.2.1 fresh _ q rfl hq
  have h := hquiet.mpr fun before hb span herror => hguarded before ((List.mem_inits _ _).mpr hb)
    (Program.progress_eq_unguarded.mpr ⟨span, herror⟩)
  exact ⟨typed_line_by_line.1 "While 0" "End" p hp, h, hpending h⟩

/-- A line with a condition alone is turned down, although the next line completes it. -/
theorem lone_condition_turned_down :
    ¬(∀ (s t : String) (p : Program Span), Program.parse (s ++ "\n" ++ t) = .ok p →
      (∃ q, Program.parse s = .ok q) ∨ ∃ e, Program.parse s = .error e ∧ e.isIncomplete = true) ∧
    ¬(∀ (r : Repl) (lines : List String) (p : Program Span), r.pending = "" →
      Program.parse ("\n".intercalate lines) = .ok p → r.Quiet lines) := by
  have hunguarded : Program.progress "If 1" = .unguarded := by decide +kernel
  have hcomplete : Program.progress "If 1\nDisp 1" = .complete := by decide +kernel
  obtain ⟨p, hp⟩ := Program.progress_eq_complete.mp hcomplete
  constructor
  · intro h
    obtain ⟨span, herror⟩ := Program.progress_eq_unguarded.mp hunguarded
    obtain ⟨q, hq⟩ | ⟨e, he, hopen⟩ := h "If 1" "Disp 1" p hp
    · rw [herror] at hq
      cases hq
    · rw [herror] at he
      cases he
      cases hopen
  · intro h
    have hquiet := h fresh ["If 1", "Disp 1"] p rfl hp
    have hline := complaint?_eq_none.mp (hquiet [] "If 1" (by simp))
    have hsource : (fresh.feedAll []).source "If 1" = "If 1" := rfl
    rw [hsource, hunguarded] at hline
    rcases hline with h | h <;> cases h

end Repl

end CalcBasic
