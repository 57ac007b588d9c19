import CalcBasic.Proofs.Fronts
import CalcBasic.Token.Lexer
import Mathlib.Data.List.Basic

/-!
# Tokens and line feeds

No token goes on over a line feed: each rule reads the same lexeme at the front of a text whether a
line feed and more text follow or not (`Rule.lexeme?_newline`). So two texts with a line feed between
them give the tokens of the one, a separator, and the tokens of the other, moved behind it
(`Token.read_newline`).
-/

namespace CalcBasic

/-- Moves a span to the right. -/
def Span.shift (n : Nat) (s : Span) : Span := ⟨s.start + n, s.stop + n⟩

/-- Changes the place of a thing. -/
def Spanned.move {α : Type} (f : Span → Span) (t : Spanned α) : Spanned α := ⟨t.node, f t.span⟩

/-! ## Lists of characters -/

theorem takeWhile_newline {p : Char → Bool} (hp : p '\n' = false) (cs ds : List Char) :
    (cs ++ '\n' :: ds).takeWhile p = cs.takeWhile p :=
  takeWhile_append_of_head (by simpa using hp) cs

theorem isPrefixOf_newline {spelling : List Char} (h : '\n' ∉ spelling) (cs ds : List Char) :
    spelling.isPrefixOf (cs ++ '\n' :: ds) = spelling.isPrefixOf cs :=
  isPrefixOf_append_of_head (by simpa using h) cs

/-! ## Rules -/

namespace Rule

/-- What keeps a rule within a line: its fixed part holds a line feed at the front if at all. -/
def oneLine : Rule → Bool
  | fixed spelling _ => !spelling.isEmpty && !spelling.tail.contains '\n'
  | labelled spelling _ => !spelling.contains '\n'
  | _ => true

theorem oneLine_all : ∀ r ∈ all, r.oneLine = true := by
  decide +kernel

theorem after?_newline {spelling : List Char} (h : '\n' ∉ spelling) (cs ds : List Char) :
    after? spelling (cs ++ '\n' :: ds) = (after? spelling cs).map (· ++ '\n' :: ds) := by
  unfold after?
  rw [isPrefixOf_newline h]
  by_cases hp : spelling.isPrefixOf cs = true
  · rw [if_pos hp, if_pos hp, Option.map_some,
      List.drop_append_of_le_length (List.isPrefixOf_iff_prefix.mp hp).length_le]
  · rw [if_neg hp, if_neg hp, Option.map_none]

theorem numberLexeme?_newline (cs ds : List Char) :
    numberLexeme? (cs ++ '\n' :: ds) = numberLexeme? cs := by
  unfold numberLexeme?
  dsimp only
  rw [takeWhile_newline (by decide), drop_takeWhile_append]
  rcases cs.drop (cs.takeWhile isDigit).length with _ | ⟨c, rest⟩
  · rfl
  · by_cases hc : c = '.'
    · subst hc
      simp only [List.cons_append]
      rw [takeWhile_newline (by decide)]
    · simp [hc]

theorem lexeme?_newline {r : Rule} (hr : r.oneLine = true) {cs : List Char} (hcs : cs ≠ [])
    (ds : List Char) : r.lexeme? (cs ++ '\n' :: ds) = r.lexeme? cs := by
  obtain ⟨c, cs, rfl⟩ := List.exists_cons_of_ne_nil hcs
  cases r with
  | fixed spelling token =>
    simp only [oneLine, Bool.and_eq_true, Bool.not_eq_true', List.isEmpty_eq_false_iff,
      List.contains_eq_mem, decide_eq_false_iff_not] at hr
    obtain ⟨a, spelling, rfl⟩ := List.exists_cons_of_ne_nil hr.1
    have hn : '\n' ∉ spelling := hr.2
    have hp : (a :: spelling).isPrefixOf (c :: cs ++ '\n' :: ds) =
        (a :: spelling).isPrefixOf (c :: cs) := by
      simp only [List.cons_append, List.isPrefixOf]
      rw [isPrefixOf_newline hn]
    change (after? _ _).map _ = (after? _ _).map _
    unfold after?
    rw [hp]
    by_cases h : (a :: spelling).isPrefixOf (c :: cs) = true
    · rw [if_pos h, if_pos h]
      rfl
    · rw [if_neg h, if_neg h]
  | letter => rfl
  | listName =>
    by_cases hc : c = 'L'
    · subst hc
      cases cs <;> rfl
    · simp [lexeme?, hc]
  | freeName =>
    by_cases hc : c = '⌊'
    · subst hc
      rcases cs with _ | ⟨d, cs⟩
      · rfl
      · simp only [lexeme?, List.cons_append]
        rw [takeWhile_newline (by decide)]
    · simp [lexeme?, hc]
  | number => exact numberLexeme?_newline (c :: cs) ds
  | text =>
    by_cases hc : c = '"'
    · subst hc
      simp only [lexeme?, List.cons_append]
      rw [takeWhile_newline (by decide), drop_takeWhile_append]
      rcases cs.drop (cs.takeWhile isTextChar).length with _ | ⟨d, rest⟩
      · rfl
      · by_cases hd : d = '"'
        · subst hd
          rfl
        · simp [hd]
    · simp [lexeme?, hc]
  | labelled spelling token =>
    have hn : '\n' ∉ spelling := by simpa [oneLine] using hr
    simp only [lexeme?]
    rw [after?_newline hn]
    cases after? spelling (c :: cs) with
    | none => rfl
    | some rest =>
      simp only [Option.map_some, Option.bind_eq_bind, Option.bind_some]
      rw [takeWhile_newline (by decide), drop_takeWhile_append, takeWhile_newline (by decide)]

theorem unfinished?_newline {r : Rule} (hr : r.oneLine = true) {cs : List Char} (hcs : cs ≠ [])
    (ds : List Char) : r.unfinished? (cs ++ '\n' :: ds) = r.unfinished? cs := by
  obtain ⟨c, cs, rfl⟩ := List.exists_cons_of_ne_nil hcs
  cases r with
  | text =>
    by_cases hc : c = '"'
    · subst hc
      simp only [unfinished?, List.cons_append]
      rw [takeWhile_newline (by decide), drop_takeWhile_append]
      rcases cs.drop (cs.takeWhile isTextChar).length with _ | ⟨d, rest⟩
      · rfl
      · by_cases hd : d = '"'
        · subst hd
          rfl
        · simp [hd]
    · simp [unfinished?, hc]
  | labelled spelling token =>
    have hn : '\n' ∉ spelling := by simpa [oneLine] using hr
    simp only [unfinished?]
    rw [after?_newline hn]
    cases after? spelling (c :: cs) with
    | none => rfl
    | some rest =>
      simp only [Option.map_some, Option.bind_eq_bind, Option.bind_some]
      rw [takeWhile_newline (by decide), drop_takeWhile_append, takeWhile_newline (by decide)]
  | fixed | letter | listName | freeName | number => rfl

theorem after?_eq_some {spelling cs rest : List Char} (h : after? spelling cs = some rest) :
    cs = spelling ++ rest := by
  unfold after? at h
  by_cases hp : spelling.isPrefixOf cs = true
  · rw [if_pos hp] at h
    cases h
    obtain ⟨rest, rfl⟩ := List.isPrefixOf_iff_prefix.mp hp
    simp
  · rw [if_neg hp] at h
    cases h

/-- A lexeme stands at the front of the characters. -/
theorem lexeme?_isPrefix {r : Rule} {cs lexeme : List Char} (h : r.lexeme? cs = some lexeme) :
    lexeme <+: cs := by
  cases r with
  | fixed spelling token =>
    simp only [lexeme?, Option.map_eq_some_iff] at h
    obtain ⟨rest, hrest, rfl⟩ := h
    exact ⟨rest, (after?_eq_some hrest).symm⟩
  | letter =>
    simp only [lexeme?] at h
    split at h
    · split at h
      · cases h
        simp
      · cases h
    · cases h
  | listName =>
    simp only [lexeme?] at h
    split at h
    · simp only [Option.map_eq_some_iff] at h
      obtain ⟨_, _, rfl⟩ := h
      simp
    · cases h
  | freeName =>
    simp only [lexeme?] at h
    split at h
    · split at h
      · cases h
        simp [List.takeWhile_prefix]
      · cases h
    · cases h
  | number =>
    simp only [lexeme?, numberLexeme?, drop_takeWhile] at h
    have hcs := List.takeWhile_append_dropWhile (p := isDigit) (l := cs)
    split at h
    · rename_i rest hrest
      rw [hrest] at hcs
      split at h
      · cases h
      · cases h
        conv => rhs; rw [← hcs]
        simp [List.takeWhile_prefix]
    · split at h
      · cases h
      · cases h
        exact List.takeWhile_prefix isDigit
  | text =>
    simp only [lexeme?, drop_takeWhile] at h
    split at h
    · rename_i rest
      have hrest := List.takeWhile_append_dropWhile (p := isTextChar) (l := rest)
      split at h
      · rename_i tail htail
        rw [htail] at hrest
        cases h
        conv => rhs; rw [← hrest]
        simp
      · cases h
    · cases h
  | labelled spelling token =>
    simp only [lexeme?, drop_takeWhile, Option.bind_eq_bind, Option.bind_eq_some_iff] at h
    obtain ⟨rest, hrest, h⟩ := h
    have hgap := List.takeWhile_append_dropWhile (p := isGap) (l := rest)
    split at h
    · cases h
    · cases h
      rw [after?_eq_some hrest, List.append_assoc, List.prefix_append_right_inj]
      conv => rhs; rw [← hgap]
      rw [List.prefix_append_right_inj]
      exact List.takeWhile_prefix isNameChar

end Rule

/-! ## Reading on over a line feed -/

theorem Rule.longest?_newline {cs : List Char} (hcs : cs ≠ []) (ds : List Char) :
    Rule.longest? (cs ++ '\n' :: ds) = Rule.longest? cs := by
  unfold Rule.longest?
  refine List.foldl_ext _ _ _ fun best r hr => ?_
  unfold Rule.better
  rw [Rule.lexeme?_newline (Rule.oneLine_all r hr) hcs]

theorem Rule.unfinishedForm?_newline {cs : List Char} (hcs : cs ≠ []) (ds : List Char) :
    Rule.unfinishedForm? (cs ++ '\n' :: ds) = Rule.unfinishedForm? cs := by
  unfold Rule.unfinishedForm?
  have h := Rule.oneLine_all
  generalize Rule.all = rules at h ⊢
  induction rules with
  | nil => rfl
  | cons r rules ih =>
    rw [List.forall_mem_cons] at h
    rw [List.findSome?_cons, List.findSome?_cons, Rule.unfinished?_newline h.1 hcs, ih h.2]

theorem Token.next_newline (c : Char) (cs ds : List Char) :
    Token.next c (cs ++ '\n' :: ds) = Token.next c cs := by
  unfold Token.next
  rw [← List.cons_append, Rule.unfinishedForm?_newline (List.cons_ne_nil c cs),
    Rule.longest?_newline (List.cons_ne_nil c cs)]

theorem Rule.better_isPrefix {cs : List Char} (rules : List Rule)
    {best : Option (Rule × List Char)} (hbest : ∀ p ∈ best, p.2 <+: cs) :
    ∀ p ∈ rules.foldl (Rule.better cs) best, p.2 <+: cs := by
  induction rules generalizing best with
  | nil => exact hbest
  | cons r rules ih =>
    refine ih fun p hp => ?_
    unfold Rule.better at hp
    split at hp
    · exact hbest p hp
    · rename_i hlex
      cases hp
      exact Rule.lexeme?_isPrefix hlex
    · rename_i s longest hlex
      split at hp
      · cases hp
        exact Rule.lexeme?_isPrefix hlex
      · cases hp
        exact hbest _ rfl

/-- The lexeme of the next token stands at the front of the characters. -/
theorem Token.next_isPrefix {c : Char} {cs lexeme : List Char} {token : Token}
    (h : Token.next c cs = .ok (token, lexeme)) : lexeme <+: c :: cs := by
  unfold Token.next at h
  split at h
  · cases h
  · split at h
    · rename_i r l hlongest
      cases h
      exact Rule.better_isPrefix Rule.all (fun p hp => by cases hp) (r, lexeme) hlongest
    · cases h

theorem byteLength_cons (c : Char) (cs : List Char) :
    byteLength (c :: cs) = c.utf8Size + byteLength cs := by
  have h : ∀ (cs : List Char) (n : Nat),
      cs.foldl (fun n c => n + c.utf8Size) n = n + byteLength cs := by
    intro cs
    induction cs with
    | nil => exact fun n => rfl
    | cons d cs ih =>
      intro n
      have hd : byteLength (d :: cs) = 0 + d.utf8Size + byteLength cs := ih (0 + d.utf8Size)
      rw [List.foldl_cons, ih, hd]
      omega
  have hc : byteLength (c :: cs) = 0 + c.utf8Size + byteLength cs := h cs (0 + c.utf8Size)
  omega

theorem byteLength_toList (s : String) : byteLength s.toList = s.utf8ByteSize := by
  have h : ∀ cs : List Char, (String.ofList cs).utf8ByteSize = byteLength cs := by
    intro cs
    induction cs with
    | nil => rfl
    | cons c cs ih =>
      have hcons : String.ofList (c :: cs) = String.singleton c ++ String.ofList cs := by
        apply String.toList_inj.mp
        simp
      rw [hcons, String.utf8ByteSize_append, String.utf8ByteSize_singleton, ih, byteLength_cons]
  rw [← h, String.ofList_toList]

/-- Reading goes on from a line feed as if it began there. -/
theorem Token.readFrom_newline (ds cs : List Char) (skip offset : Nat)
    (tokens : List (Spanned Token)) (hskip : skip ≤ cs.length) :
    Token.readFrom skip offset tokens (cs ++ '\n' :: ds) =
      match Token.readFrom skip offset tokens cs with
      | .error u => .error u
      | .ok ts => Token.readFrom 0 (offset + byteLength cs) ts.reverse ('\n' :: ds) := by
  induction cs generalizing skip offset tokens with
  | nil =>
    obtain rfl : skip = 0 := Nat.le_zero.mp hskip
    simp only [Token.readFrom, List.nil_append, List.reverse_reverse]
    rfl
  | cons c cs ih =>
    rw [byteLength_cons, ← Nat.add_assoc]
    cases skip with
    | succ n => exact ih n (offset + c.utf8Size) tokens (Nat.le_of_succ_le_succ hskip)
    | zero =>
      rw [List.cons_append, Token.readFrom, Token.readFrom]
      by_cases hc : isSkipped c = true
      · rw [if_pos hc, if_pos hc]
        exact ih 0 (offset + c.utf8Size) tokens (Nat.zero_le _)
      · rw [if_neg hc, if_neg hc, Token.next_newline]
        rcases hnext : Token.next c cs with slice | ⟨token, lexeme⟩
        · rfl
        · have hlen := (Token.next_isPrefix hnext).length_le
          rw [List.length_cons] at hlen
          exact ih _ _ _ (by omega)

/-- A line feed or a colon is a separator, whatever follows. -/
theorem Token.readFrom_separator {c : Char} (hc : c = '\n' ∨ c = ':') (offset : Nat)
    (tokens : List (Spanned Token)) (ds : List Char) :
    Token.readFrom 0 offset tokens (c :: ds) =
      Token.readFrom 0 (offset + 1) (⟨.separator, ⟨offset, offset + 1⟩⟩ :: tokens) ds := by
  rcases hc with rfl | rfl
  · have hnext : Token.next '\n' ds = .ok (.separator, ['\n']) := rfl
    rw [Token.readFrom, if_neg (by decide), hnext]
    rfl
  · have hnext : Token.next ':' ds = .ok (.separator, [':']) := rfl
    rw [Token.readFrom, if_neg (by decide), hnext]
    rfl

/-- Moving the tokens to the right, behind others, changes nothing else. -/
theorem Token.readFrom_shift (n : Nat) (before : List (Spanned Token)) (cs : List Char)
    (skip offset : Nat) (tokens : List (Spanned Token)) :
    Token.readFrom skip (offset + n) (tokens.map (.move (.shift n)) ++ before) cs =
      match Token.readFrom skip offset tokens cs with
      | .error u => .error ⟨u.slice, u.span.shift n⟩
      | .ok ts => .ok (before.reverse ++ ts.map (.move (.shift n))) := by
  induction cs generalizing skip offset tokens with
  | nil => simp [Token.readFrom]
  | cons c cs ih =>
    cases skip with
    | succ k =>
      rw [Token.readFrom, Token.readFrom, Nat.add_right_comm]
      exact ih k (offset + c.utf8Size) tokens
    | zero =>
      rw [Token.readFrom, Token.readFrom]
      by_cases hc : isSkipped c = true
      · rw [if_pos hc, if_pos hc, Nat.add_right_comm]
        exact ih 0 (offset + c.utf8Size) tokens
      · rw [if_neg hc, if_neg hc]
        rcases Token.next c cs with slice | ⟨token, lexeme⟩
        · simp [Span.shift, Nat.add_right_comm]
        · dsimp only
          rw [← ih]
          simp [Span.shift, Spanned.move, Nat.add_right_comm]

/-- The tokens of two texts with a line feed between them. -/
theorem Token.read_newline (s t : String) :
    Token.read (s ++ "\n" ++ t) =
      match Token.read s with
      | .error u => .error u
      | .ok ts =>
        let n := s.utf8ByteSize
        match Token.read t with
        | .error u => .error ⟨u.slice, u.span.shift (n + 1)⟩
        | .ok us => .ok (ts ++ ⟨.separator, ⟨n, n + 1⟩⟩ :: us.map (.move (.shift (n + 1)))) := by
  have hlist : (s ++ "\n" ++ t).toList = s.toList ++ '\n' :: t.toList := by simp
  unfold Token.read
  rw [hlist, Token.readFrom_newline _ _ _ _ _ (Nat.zero_le _), byteLength_toList]
  rcases Token.readFrom 0 0 [] s.toList with u | ts
  · rfl
  · dsimp only
    rw [Token.readFrom_separator (.inl rfl), Nat.zero_add]
    have h := Token.readFrom_shift (s.utf8ByteSize + 1)
      (⟨.separator, ⟨s.utf8ByteSize, s.utf8ByteSize + 1⟩⟩ :: ts.reverse) t.toList 0 0 []
    rw [Nat.zero_add, List.map_nil, List.nil_append] at h
    rw [h]
    rcases Token.readFrom 0 0 [] t.toList with u | us
    · rfl
    · simp

end CalcBasic
