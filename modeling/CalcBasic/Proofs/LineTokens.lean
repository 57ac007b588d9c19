import CalcBasic.Proofs.LineFeeds
import CalcBasic.SourceError

/-!
# The tokens of lines

A text can be read line by line. Two texts with a line feed between them are read as each is read
alone, only that the places in the second one are moved (`Token.read_across`); the first one that
cannot be read decides. So it is with any number of lines (`Token.read_lines`).
-/

namespace CalcBasic

/-! ## Places further to the right -/

/-- Moves the place where reading stopped to the right. -/
def Unreadable.shift (n : Nat) (u : Unreadable) : Unreadable := ⟨u.slice, u.span.shift n⟩

theorem Span.shift_shift (m n : Nat) (s : Span) : (s.shift m).shift n = s.shift (n + m) := by
  simp only [shift, Span.mk.injEq]
  omega

theorem Unreadable.shift_shift (m n : Nat) (u : Unreadable) :
    (u.shift m).shift n = u.shift (n + m) := by
  simp only [shift, Span.shift_shift]

theorem Spanned.map_shift_shift {α : Type} (m n : Nat) (ts : List (Spanned α)) :
    (ts.map (move (.shift m))).map (move (.shift n)) = ts.map (move (.shift (n + m))) := by
  rw [List.map_map]
  refine List.map_congr_left fun t _ => ?_
  simp only [Function.comp_apply, move, Span.shift_shift]

namespace Token

/-! ## Any number of lines -/

/-- What is read in a text that begins at a byte offset. -/
def readAt (offset : Nat) (source : String) : Except Unreadable (List (Spanned Token)) :=
  match read source with
  | .error u => .error (u.shift offset)
  | .ok ts => .ok (ts.map (.move (.shift offset)))

/-- What is read in lines, one after the other. The first one begins at a byte offset, and a line feed
stands behind each but the last. -/
def readLines (offset : Nat) : List String → Except Unreadable (List (Spanned Token))
  | [] => .ok []
  | [line] => readAt offset line
  | line :: next :: lines => do
    let ts ← readAt offset line
    let stop := offset + line.utf8ByteSize
    let us ← readLines (stop + 1) (next :: lines)
    return ts ++ ⟨.separator, ⟨stop, stop + 1⟩⟩ :: us

theorem readAt_zero (source : String) : readAt 0 source = read source := by
  unfold readAt
  rcases read source with u | ts
  · rfl
  · exact congrArg Except.ok (List.map_id ts)

theorem readAt_newline (offset : Nat) (s t : String) :
    readAt offset (s ++ "\n" ++ t) = do
      let ts ← readAt offset s
      let stop := offset + s.utf8ByteSize
      let us ← readAt (stop + 1) t
      return ts ++ ⟨.separator, ⟨stop, stop + 1⟩⟩ :: us := by
  unfold readAt
  rw [read_newline]
  rcases read s with u | ts
  · rfl
  · rcases read t with u | us
    · exact congrArg Except.error (u.shift_shift (s.utf8ByteSize + 1) offset)
    · refine congrArg Except.ok ?_
      rw [List.map_append, List.map_cons, Spanned.map_shift_shift]
      simp only [Spanned.move, Span.shift, Nat.add_comm, Nat.add_left_comm]

/-- **Lines are read one by one.** The tokens of a text are those of its lines with separators between
them, and the first line that cannot be read says what is wrong with the text. -/
theorem read_lines (lines : List String) : read ("\n".intercalate lines) = readLines 0 lines := by
  have hlines : ∀ offset, readAt offset ("\n".intercalate lines) = readLines offset lines := by
    induction lines with
    | nil => exact fun _ => rfl
    | cons line lines ih =>
      intro offset
      rcases lines with _ | ⟨next, lines⟩
      · rw [String.intercalate_singleton, readLines]
      · rw [String.intercalate_cons_cons, readAt_newline, readLines]
        simp only [ih]
  rw [← hlines, readAt_zero]

/-! ## Two texts -/

/-- **Reading is compositional at line feeds.** If the first of two texts cannot be read, neither can
both with a line feed between them, with the same message at the same place. If only the second one
cannot be read, its message stands as far behind the first text and the line feed. Otherwise the line
feed is a separator between the tokens of both. -/
theorem read_across (s t : String) :
    (∀ u, read s = .error u → read (s ++ "\n" ++ t) = .error u) ∧
    (∀ ts u, read s = .ok ts → read t = .error u →
      ∃ v, read (s ++ "\n" ++ t) = .error v ∧
        (SourceError.unreadable v).message = (SourceError.unreadable u).message ∧
        v.span = u.span.shift (s.utf8ByteSize + 1)) ∧
    ∀ ts us, read s = .ok ts → read t = .ok us →
      read (s ++ "\n" ++ t) = .ok (ts ++ ⟨.separator, ⟨s.utf8ByteSize, s.utf8ByteSize + 1⟩⟩ ::
        us.map (.move (.shift (s.utf8ByteSize + 1)))) := by
  refine ⟨fun u hs => ?_, fun ts u hs ht => ?_, fun ts us hs ht => ?_⟩
  · rw [read_newline, hs]
  · refine ⟨u.shift (s.utf8ByteSize + 1), ?_, rfl, rfl⟩
    rw [read_newline, hs, ht]
    rfl
  · rw [read_newline, hs, ht]

/-- The name of a jump, the end of a text and the rest of an arrow are not looked for behind a line
feed. -/
theorem read_across_unfinished :
    (read "Goto \t" = .error ⟨"Goto \t", ⟨0, 6⟩⟩ ∧
      read ("Goto \t" ++ "\n" ++ "A") = .error ⟨"Goto \t", ⟨0, 6⟩⟩) ∧
    (read "→" = .ok [⟨.mark .store, ⟨0, 3⟩⟩] ∧ read "A\"B" = .error ⟨"\"B", ⟨1, 3⟩⟩ ∧
      ∃ v, read ("→" ++ "\n" ++ "A\"B") = .error v ∧
        (SourceError.unreadable v).message = (SourceError.unreadable ⟨"\"B", ⟨1, 3⟩⟩).message ∧
        v.span = ⟨5, 7⟩) ∧
    read "A-" = .ok [⟨.name "A", ⟨0, 1⟩⟩, ⟨.op .sub, ⟨1, 2⟩⟩] ∧
      read ">B" = .ok [⟨.op .gt, ⟨0, 1⟩⟩, ⟨.name "B", ⟨1, 2⟩⟩] ∧
      read ("A-" ++ "\n" ++ ">B") = .ok [⟨.name "A", ⟨0, 1⟩⟩, ⟨.op .sub, ⟨1, 2⟩⟩,
        ⟨.separator, ⟨2, 3⟩⟩, ⟨.op .gt, ⟨3, 4⟩⟩, ⟨.name "B", ⟨4, 5⟩⟩] := by
  have hgoto : read "Goto \t" = .error ⟨"Goto \t", ⟨0, 6⟩⟩ := by decide +kernel
  have hstore : read "→" = .ok [⟨.mark .store, ⟨0, 3⟩⟩] := by decide +kernel
  have hquote : read "A\"B" = .error ⟨"\"B", ⟨1, 3⟩⟩ := by decide +kernel
  have hminus : read "A-" = .ok [⟨.name "A", ⟨0, 1⟩⟩, ⟨.op .sub, ⟨1, 2⟩⟩] := by decide +kernel
  have hgreater : read ">B" = .ok [⟨.op .gt, ⟨0, 1⟩⟩, ⟨.name "B", ⟨1, 2⟩⟩] := by decide +kernel
  exact ⟨⟨hgoto, (read_across "Goto \t" "A").1 _ hgoto⟩,
    ⟨hstore, hquote, (read_across "→" "A\"B").2.1 _ _ hstore hquote⟩,
    hminus, hgreater, (read_across "A-" ">B").2.2 _ _ hminus hgreater⟩

end Token

end CalcBasic
