import CalcBasic.Proofs.LineByLine
import CalcBasic.Proofs.Replaying

/-!
# What becomes of typed lines

A log says of each line that was given to the loop what it was used for. Whenever the loop comes
back to its main reading, there is a log of the lines so far, and the variables are those that the
log leads to if it is replayed on one session.

1. One pass of the loop adds to the log, or to the lines that are kept (`Repl.Account.pass`). So
   there is a log at every main reading (`Repl.Account.returned`), and the loop ends at one
   (`Repl.Account.loop`).
2. An expression that stands alone changes nothing, and it is shown as a program that displays it
   shows it (`Repl.feed_lone`, `Repl.displayed_eq`).
-/

namespace CalcBasic

/-! ## Texts that are not complete -/

/-- The text has a block left open, and nothing else is wrong with it. -/
def Program.LeavesOpen (source : String) : Prop :=
  ∃ e, parse source = .error e ∧ e.isIncomplete = true

theorem Program.leavesOpen_iff {source : String} :
    LeavesOpen source ↔ progress source = .unclosed := by
  unfold LeavesOpen progress
  rcases parse source with e | p
  · simp [SourceError.progress_eq_unclosed]
  · simp

theorem Program.not_leavesOpen_empty : ¬LeavesOpen "" := by
  rw [leavesOpen_iff, Repl.progress_empty]
  exact nofun

/-! ## Logs -/

namespace Repl

/-- Some lines as one text: trimmed, with line feeds between them. -/
def joined (lines : List String) : String := "\n".intercalate (lines.map Text.trim)

/-- While nothing is kept, the loop takes a line for code if it is neither blank nor a command. -/
def IsCode (line : String) : Prop :=
  Text.trim line ≠ "" ∧ ReplCommand.ofLine? (Text.trim line) = none

/-- Lines that begin an input: the first is code, and the lines before the last leave a block open,
however many of them are taken. -/
structure Begins (lines : List String) : Prop where
  first : ∀ line ∈ lines.head?, IsCode line
  unclosed : ∀ before, before <+: lines → before ≠ [] → before ≠ lines →
    Program.LeavesOpen (joined before)

/-- The lines of an input that is not complete yet. -/
def Kept (lines : List String) : Prop :=
  Begins lines ∧ (lines ≠ [] → Program.LeavesOpen (joined lines))

/-- The lines of a complete input. -/
def Completed (lines : List String) : Prop :=
  Begins lines ∧ lines ≠ [] ∧ ¬Program.LeavesOpen (joined lines)

/-- What lines were used for. -/
inductive Entry where
  /-- A line that was passed over. -/
  | blank (line : String)
  | command (line : String)
  /-- The lines of an input, and the lines that it read while it was running. -/
  | input (lines answers : List String)

namespace Entry

/-- The lines that were used, in the order in which they came. -/
def lines : Entry → List String
  | blank line | command line => [line]
  | input lines answers => lines ++ answers

/-- Does again what was done, on a session that has no input of its own. -/
def replay (s : Session) : Entry → Session
  | blank _ => s
  | command line =>
    if ReplCommand.ofLine? (Text.trim line) = some .reset then s.reset else s
  | input lines answers =>
    match Program.parse (joined lines) with
    | .ok p => (s.play p answers).2
    | .error _ => s

/-- The lines were what they were used for; the answers are the lines that the input reads when it
runs on the session before. -/
def Fits (s : Session) : Entry → Prop
  | blank line => Text.trim line = ""
  | command line => ∃ c, ReplCommand.ofLine? (Text.trim line) = some c ∧ c ≠ .quit
  | input lines answers =>
    Completed lines ∧
      match Program.parse (joined lines) with
      | .ok p => (s.play p answers).1.filterMap Event.line? = answers
      | .error _ => answers = []

end Entry

/-- Does a whole log again. -/
def replay (s : Session) (log : List Entry) : Session := log.foldl Entry.replay s

/-- Each entry fits the session that the entries before it lead to. -/
def Fits (s : Session) : List Entry → Prop
  | [] => True
  | entry :: log => entry.Fits s ∧ Fits (entry.replay s) log

theorem replay_concat (s : Session) (log : List Entry) (entry : Entry) :
    replay s (log ++ [entry]) = entry.replay (replay s log) := by
  simp [replay]

theorem Fits.concat {s : Session} {log : List Entry} {entry : Entry} (h : Fits s log)
    (hentry : entry.Fits (replay s log)) : Fits s (log ++ [entry]) := by
  induction log generalizing s with
  | nil => exact ⟨hentry, trivial⟩
  | cons first log ih => exact ⟨h.1, ih h.2 hentry⟩

/-! ### The lines of an input -/

variable {kept : List String} {line : String}

theorem joined_concat (h : kept ≠ []) (line : String) :
    joined (kept ++ [line]) = joined kept ++ "\n" ++ Text.trim line := by
  rw [joined, List.map_append, List.map_singleton, intercalate_concat (by simpa using h)]
  rfl

theorem kept_nil : Kept [] := by
  refine ⟨⟨by simp, fun before hprefix hne => ?_⟩, fun hne => absurd rfl hne⟩
  exact absurd (List.prefix_nil.mp hprefix) hne

theorem Kept.eq_nil (h : Kept kept) (hempty : joined kept = "") : kept = [] := by
  by_contra hne
  have hopen := h.2 hne
  rw [hempty] at hopen
  exact Program.not_leavesOpen_empty hopen

/-- One more line. -/
theorem Kept.begins (h : Kept kept) (hline : kept = [] → IsCode line) :
    Begins (kept ++ [line]) := by
  constructor
  · intro first hfirst
    cases kept with
    | nil =>
      cases hfirst
      exact hline rfl
    | cons head tail => exact h.1.first first hfirst
  · intro before hprefix hne hproper
    rcases List.prefix_concat_iff.mp hprefix with heq | hbefore
    · exact absurd heq hproper
    · by_cases hall : before = kept
      · subst hall
        exact h.2 hne
      · exact h.1.unclosed before hbefore hne hall

/-! ## Lines that are handled -/

variable {r : Repl}

/-- All that can happen to a line: it is passed over, or obeyed, or given to the program. -/
theorem handle_cases (r : Repl) (line : String) :
    (r.pending = "" ∧ Text.trim line = "" ∧ r.handle line = (true, r)) ∨
    (∃ c, r.pending = "" ∧ ReplCommand.ofLine? (Text.trim line) = some c ∧
      r.handle line = r.obey c) ∨
    ((r.pending = "" → IsCode line) ∧ r.handle line = (true, r.feed (Text.trim line))) := by
  unfold handle
  by_cases hpending : r.pending = ""
  · by_cases hline : Text.trim line = ""
    · exact .inl ⟨hpending, hline, by simp [hpending, hline]⟩
    · cases hc : ReplCommand.ofLine? (Text.trim line) with
      | some c => exact .inr (.inl ⟨c, hpending, rfl, by simp [hpending, hline, hc]⟩)
      | none =>
        refine .inr (.inr ⟨fun _ => ⟨hline, hc⟩, ?_⟩)
        simp [hpending, hline, hc]
  · exact .inr (.inr ⟨fun h => absurd h hpending, by simp [hpending]⟩)

theorem obey_continues (r : Repl) (c : ReplCommand) : (r.obey c).1 = true ↔ c ≠ .quit := by
  cases c <;> simp [obey]

theorem session_showVars (r : Repl) : r.showVars.session = r.session := by
  unfold showVars
  split <;> rfl

theorem pending_showVars (r : Repl) : r.showVars.pending = r.pending := by
  unfold showVars
  split <;> rfl

theorem session_obey (r : Repl) (c : ReplCommand) :
    (r.obey c).2.session = if c = .reset then r.session.reset else r.session := by
  cases c with
  | vars => exact r.session_showVars
  | _ => rfl

theorem pending_obey (r : Repl) (c : ReplCommand) : (r.obey c).2.pending = r.pending := by
  cases c with
  | vars => exact r.pending_showVars
  | _ => rfl

theorem session_echo (r : Repl) (e : Expr Span) : (r.echo e).session = r.session := by
  unfold echo
  split <;> rfl

theorem session_runProgram (r : Repl) (p : Program Span) :
    (r.runProgram p).session = (r.session.run p).2.takeEvents.2 := by
  unfold runProgram
  rcases r.session.run p with ⟨outcome, session⟩
  cases outcome with
  | fault located =>
    dsimp only
    unfold reportFault
    split <;> rfl
  | done _ => rfl
  | unfinished => rfl

/-- A program that consists of one expression alone. -/
theorem loneExpr?_eq_some {p : Program Span} {e : Expr Span} :
    loneExpr? p = some e ↔ ∃ span, p = ⟨[.command span (.evaluate e)]⟩ := by
  obtain ⟨statements⟩ := p
  unfold loneExpr?
  constructor
  · intro h
    split at h
    · next span e' heq =>
      cases h
      exact ⟨span, congrArg Program.mk heq⟩
    · cases h
  · rintro ⟨span, h⟩
    cases h
    rfl

/-- What the loop does with a complete input that is a program. -/
theorem feed_of_parse {p : Program Span} (h : Program.parse (r.source line) = .ok p) :
    r.feed line =
      match loneExpr? p with
      | some e => { r with pending := "" }.echo e
      | none => { r with pending := "" }.runProgram p := by
  show r.submit (r.source line) = _
  unfold submit
  split
  · next e he =>
    rw [h] at he
    cases he
  · next q hq =>
    rw [h] at hq
    cases hq
    rfl

/-- What the loop does with a text that is no program. -/
theorem feed_of_error {e : SourceError} (h : Program.parse (r.source line) = .error e) :
    r.feed line =
      if e.isIncomplete then { r with pending := r.source line }
      else { r with pending := "" }.writing (·.reportSource e) := by
  show r.submit (r.source line) = _
  unfold submit
  rw [h]

/-- An input that leaves no block open leaves nothing kept. -/
theorem pending_feed_closed (h : ¬Program.LeavesOpen (r.source line)) :
    (r.feed line).pending = "" := by
  obtain ⟨e, -, hfeed⟩ | ⟨-, ⟨e, he, hopen, -⟩ | ⟨p, hp, -⟩⟩ := r.feed_cases line
  · rw [hfeed]
    rfl
  · exact absurd ⟨e, he, hopen⟩ h
  · exact pending_feed_complete (Program.progress_eq_complete.mpr ⟨p, hp⟩)

/-! ## The account of a loop -/

/-- One pass of the loop up to the next reading. There is none at the end of the input, and none
after a command to quit. -/
def pass (r : Repl) : Option Repl :=
  match r.next with
  | some (.line text, r) =>
    match r.handle text with
    | (true, r) => some r
    | (false, _) => none
  | _ => none

/-- The loop at its main reading, after some passes. -/
def returned : Nat → Repl → Option Repl
  | 0, r => some r
  | passes + 1, r => r.pass.bind (returned passes)

/-- At a main reading of the loop, the log and the lines that are kept hold all lines so far, each
once and in their order, and the session is the one that the log leads to. -/
structure Account (start : Session) (typed : List String) (log : List Entry)
    (kept left : List String) (r : Repl) : Prop where
  used : log.flatMap Entry.lines ++ kept ++ left = typed
  unread : r.session.state.console.input = left.map .line
  fits : Fits start log
  waits : Kept kept
  pending : r.pending = joined kept
  session : (replay start log).Mirrors r.session

/-- The loop with the input that is left after a reading. -/
def reading (r : Repl) (input : List Input) : Repl :=
  { r with session := { r.session with state := r.session.state.withInput input } }

theorem next_cons {i : Input} {rest : List Input}
    (h : r.session.state.console.input = i :: rest) : r.next = some (i, r.reading rest) := by
  unfold next
  rw [h]
  rfl

namespace Account

variable {start : Session} {typed left : List String} {log : List Entry} {text : String}

theorem kept_eq_nil (h : Account start typed log kept left r) (hpending : r.pending = "") :
    kept = [] :=
  h.waits.eq_nil (h.pending.symm.trans hpending)

/-- The text that a line completes. -/
theorem source_eq (h : Account start typed log kept left r) (input : List Input) (text : String) :
    (r.reading input).source (Text.trim text) = joined (kept ++ [text]) := by
  show r.source (Text.trim text) = _
  unfold source
  by_cases hkept : kept = []
  · subst hkept
    rw [h.pending]
    rfl
  · have hpending : r.pending ≠ "" := fun hempty => hkept (h.kept_eq_nil hempty)
    rw [if_neg (by simpa using hpending), joined_concat hkept, h.pending]

/-- A new entry. -/
theorem conclude (h : Account start typed log kept (text :: left) r) (entry : Entry)
    {left' : List String} {r' : Repl} (hlines : entry.lines ++ left' = kept ++ text :: left)
    (hfits : entry.Fits (replay start log)) (hpending : r'.pending = "")
    (hinput : r'.session.state.console.input = left'.map .line)
    (hsession : (entry.replay (replay start log)).Mirrors r'.session) :
    Account start typed (log ++ [entry]) [] left' r' where
  used := by
    rw [List.flatMap_append, List.flatMap_singleton, List.append_nil, List.append_assoc, hlines,
      ← List.append_assoc]
    exact h.used
  unread := hinput
  fits := h.fits.concat hfits
  waits := kept_nil
  pending := hpending
  session := by
    rw [replay_concat]
    exact hsession

/-- A line that leaves a block open is kept. -/
theorem keep (h : Account start typed log kept (text :: left) r) (hbegins : Begins (kept ++ [text]))
    (hopen : Program.LeavesOpen (joined (kept ++ [text]))) :
    Account start typed log (kept ++ [text]) left
      ((r.reading (left.map .line)).feed (Text.trim text)) := by
  obtain ⟨e, hparse, hincomplete⟩ := hopen
  have hsource := h.source_eq (left.map .line) text
  rw [feed_of_error (hsource ▸ hparse), if_pos hincomplete, hsource]
  exact {
    used := by
      rw [← h.used]
      simp
    unread := rfl
    fits := h.fits
    waits := ⟨hbegins, fun _ => ⟨e, hparse, hincomplete⟩⟩
    pending := rfl
    session := h.session.withInput _ }

/-- A line that completes an input: if this is a program, it reads some lines from the front, and on
these lines the session before has the same run. -/
theorem complete (h : Account start typed log kept (text :: left) r)
    (hclosed : ¬Program.LeavesOpen (joined (kept ++ [text]))) :
    ∃ answers left', answers ++ left' = left ∧
      (match Program.parse (joined (kept ++ [text])) with
        | .ok p => ((replay start log).play p answers).1.filterMap Event.line? = answers
        | .error _ => answers = []) ∧
      ((r.reading (left.map .line)).feed (Text.trim text)).session.state.console.input =
        left'.map .line ∧
      ((Entry.input (kept ++ [text]) answers).replay (replay start log)).Mirrors
        ((r.reading (left.map .line)).feed (Text.trim text)).session := by
  have hsource := h.source_eq (left.map .line) text
  have hsession : (replay start log).Mirrors (r.reading (left.map .line)).session :=
    h.session.withInput _
  simp only [Entry.replay]
  cases hparse : Program.parse (joined (kept ++ [text])) with
  | error e =>
    have hcomplete : ¬e.isIncomplete = true := fun hincomplete => hclosed ⟨e, hparse, hincomplete⟩
    rw [feed_of_error (hsource ▸ hparse), if_neg hcomplete]
    exact ⟨[], left, rfl, rfl, rfl, hsession⟩
  | ok p =>
    rw [feed_of_parse (hsource ▸ hparse)]
    cases hlone : loneExpr? p with
    | some e =>
      obtain ⟨span, rfl⟩ := loneExpr?_eq_some.mp hlone
      obtain ⟨hevents, hagain⟩ := hsession.play_evaluate span e
      dsimp only
      rw [session_echo]
      refine ⟨[], left, rfl, ?_, rfl, hagain⟩
      rw [hevents]
      rfl
    | none =>
      dsimp only
      rw [session_runProgram]
      exact hsession.play rfl p

/-- A line that is given to the program is kept, or it completes an input; then the log says which
lines the input read. -/
theorem feed (h : Account start typed log kept (text :: left) r)
    (htext : r.pending = "" → IsCode text) :
    ∃ log' kept' left', left'.length ≤ left.length ∧ Account start typed log' kept' left'
      ((r.reading (left.map .line)).feed (Text.trim text)) := by
  have hbegins : Begins (kept ++ [text]) := h.waits.begins fun hkept => htext (by
    rw [h.pending, hkept]
    rfl)
  by_cases hopen : Program.LeavesOpen (joined (kept ++ [text]))
  · exact ⟨log, kept ++ [text], left, le_rfl, h.keep hbegins hopen⟩
  · obtain ⟨answers, left', hleft, hanswers, hinput, hagain⟩ := h.complete hopen
    have hpending := pending_feed_closed (h.source_eq (left.map .line) text ▸ hopen)
    refine ⟨_, [], left', ?_, h.conclude (.input (kept ++ [text]) answers) ?_
      ⟨⟨hbegins, by simp, hopen⟩, hanswers⟩ hpending hinput hagain⟩
    · rw [← hleft, List.length_append]
      exact Nat.le_add_left _ _
    · simp [Entry.lines, hleft]

/-- A command adds itself to the log. -/
theorem obey (h : Account start typed log kept (text :: left) r) {c : ReplCommand} {r' : Repl}
    (hpending : r.pending = "") (hc : ReplCommand.ofLine? (Text.trim text) = some c)
    (hobey : (r.reading (left.map .line)).obey c = (true, r')) :
    Account start typed (log ++ [.command text]) [] left r' := by
  have hkept : kept = [] := h.kept_eq_nil hpending
  subst hkept
  have hgoes : c ≠ .quit := (obey_continues _ c).mp (congrArg Prod.fst hobey)
  have hpending' : r'.pending = "" := by
    rw [← hpending, ← congrArg (fun x => x.2.pending) hobey]
    exact pending_obey _ c
  have hsession' : r'.session = if c = .reset then (r.reading (left.map .line)).session.reset
      else (r.reading (left.map .line)).session := by
    rw [← session_obey, hobey]
  have hsession : (replay start log).Mirrors (r.reading (left.map .line)).session :=
    h.session.withInput _
  refine h.conclude (.command text) rfl ⟨c, hc, hgoes⟩ hpending' ?_ ?_
  · rw [hsession']
    split <;> rfl
  · rw [hsession', Entry.replay, hc]
    by_cases hreset : c = .reset
    · rw [if_pos hreset, if_pos (congrArg some hreset)]
      exact hsession.reset
    · rw [if_neg hreset, if_neg (by simpa using hreset)]
      exact hsession

/-- **One pass.** The line that a pass reads adds to the log or to the lines that are kept. -/
theorem pass {r' : Repl} (h : Account start typed log kept left r) (hpass : r.pass = some r') :
    ∃ log' kept' left', left'.length < left.length ∧
      Account start typed log' kept' left' r' := by
  cases left with
  | nil =>
    unfold Repl.pass Repl.next at hpass
    rw [h.unread] at hpass
    cases hpass
  | cons text left =>
    have hnext : r.next = some (.line text, r.reading (left.map .line)) := next_cons h.unread
    have hsession : (replay start log).Mirrors (r.reading (left.map .line)).session :=
      h.session.withInput _
    unfold Repl.pass at hpass
    rw [hnext] at hpass
    dsimp only at hpass
    obtain ⟨hpending, hblank, hhandle⟩ | ⟨c, hpending, hc, hhandle⟩ | ⟨htext, hhandle⟩ :=
      (r.reading (left.map .line)).handle_cases text <;> rw [hhandle] at hpass
    · cases hpass
      have hkept : kept = [] := h.kept_eq_nil hpending
      subst hkept
      exact ⟨_, [], left, by simp, h.conclude (.blank text) rfl hblank hpending rfl hsession⟩
    · rcases hobey : (r.reading (left.map .line)).obey c with ⟨_ | _, r''⟩ <;> rw [hobey] at hpass
      · cases hpass
      · cases hpass
        exact ⟨_, [], left, by simp, h.obey hpending hc hobey⟩
    · cases hpass
      obtain ⟨log', kept', left', hleft, haccount⟩ := h.feed htext
      exact ⟨log', kept', left', Nat.lt_succ_of_le hleft, haccount⟩

/-- **All passes.** There is an account at every main reading. -/
theorem returned {passes : Nat} {r' : Repl} (h : Account start typed log kept left r)
    (hreturned : r.returned passes = some r') :
    ∃ log' kept' left', Account start typed log' kept' left' r' := by
  induction passes generalizing log kept left r with
  | zero =>
    cases hreturned
    exact ⟨log, kept, left, h⟩
  | succ passes ih =>
    obtain ⟨r'', hpass, hrest⟩ := Option.bind_eq_some_iff.mp hreturned
    obtain ⟨log', kept', left', -, h'⟩ := h.pass hpass
    exact ih h' hrest

end Account

/-- The loop ends at a main reading: there are no more lines, or a line is the command to quit. -/
def EndsWith (r : Repl) (result : Exit × Repl) : Prop :=
  (r.next = none ∧ result = r.finish) ∨
    ∃ text after, r.next = some (.line text, after) ∧ r.pending = "" ∧
      ReplCommand.ofLine? (Text.trim text) = some .quit ∧
      result = (.success, after.writing (·.writeLine "Goodbye!"))

/-- A line that ends the loop is the command to quit. -/
theorem quits_of_handle {r r' : Repl} {text : String} (h : r.handle text = (false, r')) :
    r.pending = "" ∧ ReplCommand.ofLine? (Text.trim text) = some .quit ∧
      r' = r.writing (·.writeLine "Goodbye!") := by
  obtain ⟨-, -, hhandle⟩ | ⟨c, hpending, hc, hhandle⟩ | ⟨-, hhandle⟩ := r.handle_cases text <;>
    rw [hhandle] at h
  · cases h
  · have hquit : c = .quit := by
      by_contra hgoes
      have hcontinues := (obey_continues r c).mpr hgoes
      rw [h] at hcontinues
      cases hcontinues
    subst hquit
    cases h
    exact ⟨hpending, hc, rfl⟩
  · cases h

theorem loop_of_pass {r' : Repl} (hpass : r.pass = some r') (passes : Nat) :
    r.loop (passes + 1) = r'.loop passes := by
  revert hpass
  unfold pass
  rw [loop]
  rcases r.next with _ | ⟨text | reason, after⟩
  · exact nofun
  · dsimp only
    rcases after.handle text with ⟨_ | _, r''⟩ <;> rintro ⟨⟩
    rfl
  · exact nofun

/-- Without another pass, the loop ends. -/
theorem endsWith_of_pass {input : List String} (hpass : r.pass = none)
    (hinput : r.session.state.console.input = input.map .line) (passes : Nat) :
    r.EndsWith (r.loop (passes + 1)) := by
  unfold pass at hpass
  rw [loop]
  cases input with
  | nil =>
    have hnext : r.next = none := by
      unfold next
      rw [hinput]
      rfl
    rw [hnext]
    exact .inl ⟨hnext, rfl⟩
  | cons text rest =>
    have hnext := next_cons hinput
    rw [hnext] at hpass ⊢
    dsimp only at hpass ⊢
    rcases hhandle : (r.reading (rest.map .line)).handle text with ⟨_ | _, r'⟩
    · obtain ⟨hpending, hquit, rfl⟩ := quits_of_handle hhandle
      exact .inr ⟨text, _, hnext, hpending, hquit, rfl⟩
    · rw [hhandle] at hpass
      cases hpass

/-- **The end.** With enough passes the loop ends at a main reading. -/
theorem Account.loop {start : Session} {typed left : List String} {log : List Entry}
    (h : Account start typed log kept left r) {passes : Nat} (hpasses : left.length < passes) :
    ∃ n r', r.returned n = some r' ∧ r'.EndsWith (r.loop passes) := by
  induction passes generalizing log kept left r with
  | zero => exact absurd hpasses (Nat.not_lt_zero _)
  | succ passes ih =>
    cases hpass : r.pass with
    | none => exact ⟨0, r, rfl, endsWith_of_pass hpass h.unread passes⟩
    | some r' =>
      obtain ⟨log', kept', left', hleft, h'⟩ := h.pass hpass
      obtain ⟨n, r'', hreturned, hends⟩ := ih h' (by omega)
      rw [loop_of_pass hpass]
      exact ⟨n + 1, r'', Option.bind_eq_some_iff.mpr ⟨r', hpass, hreturned⟩, hends⟩

/-! ## Expressions that stand alone -/

/-- What is written where a program displays an expression, without a limit and on the same
variables. -/
def displayed (r : Repl) (span : Span) (e : Expr Span) : Transcript :=
  let session := { r.session with
    config := {}, state := { store := r.session.state.store, console := { input := [] } } }
  (({ session, transcript := r.transcript } : Repl).runProgram
    ⟨[.command span (.display [e])]⟩).transcript

theorem displayed_eq (r : Repl) (span : Span) (e : Expr Span) :
    r.displayed span e =
      match r.session.eval e with
      | .ok v => r.transcript.writeLine v.text
      | .error located => r.transcript.reportFault located := by
  unfold displayed runProgram Session.eval
  dsimp only
  rw [Program.session_run, Program.run_display (by simp) _ span e _ rfl]
  cases e.eval r.session.state.store <;> rfl

/-- An expression that stands alone leaves the session as it is, and its value or its fault is
written. -/
theorem feed_lone {span : Span} {e : Expr Span}
    (h : Program.parse (r.source line) = .ok ⟨[.command span (.evaluate e)]⟩) :
    (r.feed line).session = r.session ∧
      (r.feed line).transcript =
        match r.session.eval e with
        | .ok v => r.transcript.writeLine v.text
        | .error located => r.transcript.reportFault located := by
  have hfeed : r.feed line = { r with pending := "" }.echo e := feed_of_parse h
  rw [hfeed, session_echo]
  refine ⟨rfl, ?_⟩
  unfold echo
  cases r.session.eval e <;> rfl

/-! ## Whole sessions -/

/-- A loop that was just started, with some lines to come. -/
def typing (config : Config) (fuel : Nat) (typed : List String) : Repl :=
  { session := .start config fuel { input := typed.map .line } }

theorem account_typing (config : Config) (fuel : Nat) (typed : List String) :
    Account (.start config fuel { input := [] }) typed [] [] typed
      ((typing config fuel typed).writing (·.write banner)) where
  used := rfl
  unread := rfl
  fits := trivial
  waits := kept_nil
  pending := rfl
  session := ⟨rfl, rfl, rfl, rfl, rfl⟩

/-- **Typed lines.** Whenever the loop comes back to its main reading, what it keeps is empty or has
a block left open. Every line so far was used once: passed over as blank, obeyed as a command
between two inputs, taken for a line of an input, or read by an input that was running. The
variables are those that the complete inputs lead to if they are run one after the other, with the
lines that they read, on one session, and each `:reset` begins anew.

The loop ends where the lines end or at the command to quit. An input that is a single expression
changes nothing; the loop writes what a program that displays the expression writes, its value or
the fault that it raises. -/
theorem lines_accounted (config : Config) (fuel : Nat) (typed : List String) :
    (∀ passes r, ((typing config fuel typed).writing (·.write banner)).returned passes = some r →
      (r.pending = "" ∨ Program.LeavesOpen r.pending) ∧
        ∃ log kept left, Account (.start config fuel { input := [] }) typed log kept left r) ∧
    (∃ passes r, ((typing config fuel typed).writing (·.write banner)).returned passes = some r ∧
      r.EndsWith (typing config fuel typed).run) ∧
    ∀ (r : Repl) (line : String) (span : Span) (e : Expr Span),
      Program.parse (r.source line) = .ok ⟨[.command span (.evaluate e)]⟩ →
      (r.feed line).session = r.session ∧
        (r.feed line).transcript = r.displayed span e ∧
        ∀ located, r.session.eval e = .error located →
          (r.feed line).transcript = r.transcript.reportFault located := by
  have hstart := account_typing config fuel typed
  refine ⟨fun passes r hreturned => ?_, hstart.loop ?_, fun r line span e hparse => ?_⟩
  · obtain ⟨log, kept, left, haccount⟩ := hstart.returned hreturned
    refine ⟨?_, log, kept, left, haccount⟩
    rw [haccount.pending]
    by_cases hkept : kept = []
    · subst hkept
      exact .inl rfl
    · exact .inr (haccount.waits.2 hkept)
  · simp [typing, Session.start]
  · obtain ⟨hsession, htranscript⟩ := feed_lone hparse
    refine ⟨hsession, htranscript.trans (r.displayed_eq span e).symm, fun located hfault => ?_⟩
    rw [htranscript, hfault]

/-- The block asks for `B`; the line behind its end answers, and the last line is an expression. -/
theorem lines_accounted_prompt :
    (∃ r, ((typing {} 9 ["5→A", "", "If A:Then", "Prompt B", "End", " ", "7", ":help",
        "A+B"]).writing (·.write banner)).returned 7 = some r ∧
      ∃ log kept left, Account (.start {} 9 { input := [] }) ["5→A", "", "If A:Then", "Prompt B",
        "End", " ", "7", ":help", "A+B"] log kept left r) ∧
    ∃ span e, Program.parse (fresh.source "A+B") = .ok ⟨[.command span (.evaluate e)]⟩ ∧
      (fresh.feed "A+B").session = fresh.session ∧
      (fresh.feed "A+B").transcript = fresh.displayed span e := by
  have hreturned : (((typing {} 9 ["5→A", "", "If A:Then", "Prompt B", "End", " ", "7", ":help",
      "A+B"]).writing (·.write banner)).returned 7).isSome = true := by decide +kernel
  have hlone : ((Program.parse (fresh.source "A+B")).toOption.bind loneExpr?).isSome = true := by
    decide +kernel
  constructor
  · obtain ⟨r, hr⟩ := Option.isSome_iff_exists.mp hreturned
    exact ⟨r, hr, ((lines_accounted _ _ _).1 7 r hr).2⟩
  · obtain ⟨e, he⟩ := Option.isSome_iff_exists.mp hlone
    obtain ⟨p, hp, hpe⟩ := Option.bind_eq_some_iff.mp he
    obtain ⟨span, rfl⟩ := loneExpr?_eq_some.mp hpe
    cases hparse : Program.parse (fresh.source "A+B") with
    | error cause =>
      rw [hparse] at hp
      cases hp
    | ok q =>
      rw [hparse] at hp
      cases hp
      obtain ⟨hsession, hshown, -⟩ := (lines_accounted {} 9 []).2.2 fresh "A+B" span e hparse
      exact ⟨span, e, rfl, hsession, hshown⟩

end Repl

end CalcBasic
