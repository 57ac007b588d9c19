import CalcBasic.Proofs.Layout
import CalcBasic.Text.Lines

/-!
# Loading

Loading a program trims its lines. What is cut off is blank, and no token holds blank characters at
its ends, so a text that can be read gives the same tokens when it is loaded.

1. No rule begins with a blank character other than a line feed (`Rule.lexeme?_blank`), and the
   lexemes at the front of a text do not depend on blank characters at its end
   (`Rule.lexeme?_padding`).
2. So a line that can be read has the same tokens without its padding (`Token.read_trim`), and a
   text has the same tokens without the padding of its lines, but for the last line feed
   (`Token.read_normalize`).
3. Tokens with the same layout are judged alike (`Program.verdict_ofBlock`).
-/

namespace CalcBasic

/-! ## Blank characters -/

namespace Text

/-- Blank characters within a line. -/
def IsPadding (bs : List Char) : Prop := ∀ b ∈ bs, isBlank b = true ∧ b ≠ '\n'

theorem isPadding_nil : IsPadding [] := nofun

theorem IsPadding.head {bs : List Char} (h : IsPadding bs) :
    ∀ b ∈ bs.head?, isBlank b = true ∧ b ≠ '\n' :=
  fun b hb => h b (List.mem_of_mem_head? hb)

/-- Blank characters lie outside the printable characters of the ASCII range. -/
theorem toNat_of_isBlank {c : Char} (h : isBlank c = true) : c.toNat ≤ 0x20 ∨ 0x85 ≤ c.toNat := by
  simp only [isBlank, Bool.or_eq_true, Bool.and_eq_true, decide_eq_true_eq, beq_iff_eq] at h
  omega

theorem isLetter_of_isBlank {c : Char} (h : isBlank c = true) : isLetter c = false := by
  have hn := toNat_of_isBlank h
  by_contra hc
  rw [Bool.not_eq_false, isLetter_iff_toNat] at hc
  omega

theorem isDigit_of_isBlank {c : Char} (h : isBlank c = true) : isDigit c = false := by
  have hn := toNat_of_isBlank h
  by_contra hc
  rw [Bool.not_eq_false, isDigit_iff_toNat] at hc
  omega

theorem isNameChar_of_isBlank {c : Char} (h : isBlank c = true) : Rule.isNameChar c = false := by
  rw [Rule.isNameChar, isLetter_of_isBlank h, isDigit_of_isBlank h]
  rfl

theorem subscript?_of_isBlank {c : Char} (h : isBlank c = true) : Rule.subscript? c = none := by
  unfold Rule.subscript?
  split
  case h_13 => rfl
  all_goals cases h

theorem ne_of_isBlank {c d : Char} (h : isBlank c = true) (hd : isBlank d = false) : c ≠ d := by
  rintro rfl
  rw [h] at hd
  cases hd

end Text

/-! ## Rules and blank characters -/

namespace Rule

open Text

/-- What keeps a rule apart from blank characters: its fixed part holds none, but for a line feed at
the front of a word. -/
def isSolid : Rule → Bool
  | fixed (a :: spelling) _ => (!isBlank a || a == '\n') && spelling.all fun c => !isBlank c
  | fixed [] _ => false
  | labelled spelling _ => !spelling.isEmpty && spelling.all fun c => !isBlank c
  | _ => true

theorem isSolid_all : ∀ r ∈ all, r.isSolid = true := by
  decide +kernel

theorem not_mem_of_all {spelling bs : List Char} (h : spelling.all (fun c => !isBlank c) = true)
    (hbs : IsPadding bs) : ∀ b ∈ bs.head?, b ∉ spelling := by
  intro b hb hmem
  have hsolid := List.all_eq_true.mp h b hmem
  rw [(hbs.head b hb).1] at hsolid
  cases hsolid

/-- No rule begins with a blank character within a line. -/
theorem lexeme?_blank {r : Rule} (hr : r.isSolid = true) {c : Char} (hc : isBlank c = true)
    (hne : c ≠ '\n') (cs : List Char) : r.lexeme? (c :: cs) = none := by
  cases r with
  | fixed spelling token =>
    rcases spelling with _ | ⟨a, spelling⟩
    · cases hr
    · have hac : a ≠ c := by
        rintro rfl
        simp [isSolid, hc, hne] at hr
      simp [lexeme?, after?, List.isPrefixOf, hac]
  | letter => simp [lexeme?, isLetter_of_isBlank hc]
  | listName =>
    have hL : c ≠ 'L' := ne_of_isBlank hc (by decide)
    simp [lexeme?, hL]
  | freeName =>
    have hfloor : c ≠ '⌊' := ne_of_isBlank hc (by decide)
    simp [lexeme?, hfloor]
  | number =>
    have hpoint : c ≠ '.' := ne_of_isBlank hc (by decide)
    simp [lexeme?, numberLexeme?, isDigit_of_isBlank hc, hpoint]
  | text =>
    have hquote : c ≠ '"' := ne_of_isBlank hc (by decide)
    simp [lexeme?, hquote]
  | labelled spelling token =>
    rcases spelling with _ | ⟨a, spelling⟩
    · cases hr
    · have hac : a ≠ c := by
        rintro rfl
        simp [isSolid, hc] at hr
      simp [lexeme?, after?, List.isPrefixOf, hac]

variable {bs : List Char} (hbs : IsPadding bs)

include hbs

theorem after?_padding {spelling : List Char} (h : spelling.all (fun c => !isBlank c) = true)
    (cs : List Char) : after? spelling (cs ++ bs) = (after? spelling cs).map (· ++ bs) := by
  unfold after?
  rw [isPrefixOf_append_of_head (not_mem_of_all h hbs)]
  by_cases hp : spelling.isPrefixOf cs = true
  · rw [if_pos hp, if_pos hp, Option.map_some,
      List.drop_append_of_le_length (List.isPrefixOf_iff_prefix.mp hp).length_le]
  · rw [if_neg hp, if_neg hp, Option.map_none]

/-- Behind the gap of a label stands the same name, and if there is one, the gap is the same. -/
theorem gap_padding (rest : List Char) :
    ((rest ++ bs).dropWhile isGap).takeWhile isNameChar =
        (rest.dropWhile isGap).takeWhile isNameChar ∧
      ((rest.dropWhile isGap).takeWhile isNameChar ≠ [] →
        (rest ++ bs).takeWhile isGap = rest.takeWhile isGap) := by
  have hname {cs : List Char} (hcs : cs ⊆ bs) : ∀ b ∈ cs.head?, isNameChar b = false :=
    fun b hb => isNameChar_of_isBlank (hbs b (hcs (List.mem_of_mem_head? hb))).1
  rcases hrest : rest.dropWhile isGap with _ | ⟨d, tail⟩
  · refine ⟨?_, fun h => absurd rfl h⟩
    rw [List.dropWhile_append, hrest]
    exact takeWhile_eq_nil_of_head (hname (List.dropWhile_suffix _).subset)
  · obtain ⟨htake, hdrop⟩ := stop_append bs hrest
    rw [hdrop, ← List.cons_append]
    exact ⟨takeWhile_append_of_head (hname (List.Subset.refl bs)) _, fun _ => htake⟩

/-- A text that is not closed before the padding is not closed in it. -/
theorem unclosed_padding {rest : List Char} (h : rest.dropWhile isTextChar = []) :
    (rest ++ bs).dropWhile isTextChar = [] := by
  rw [List.dropWhile_append, h]
  refine List.dropWhile_eq_nil_iff.mpr fun b hb => ?_
  simp [isTextChar, (hbs b hb).2, ne_of_isBlank (d := '"') (hbs b hb).1 (by decide)]

theorem numberLexeme?_padding (cs : List Char) : numberLexeme? (cs ++ bs) = numberLexeme? cs := by
  have hdigit : ∀ b ∈ bs.head?, isDigit b = false := fun b hb =>
    isDigit_of_isBlank (hbs.head b hb).1
  unfold numberLexeme?
  dsimp only
  rw [drop_takeWhile, drop_takeWhile, takeWhile_append_of_head hdigit,
    dropWhile_append_of_head hdigit]
  rcases cs.dropWhile isDigit with _ | ⟨d, rest⟩
  · rcases bs with _ | ⟨b, bs⟩
    · rfl
    · have hb : b ≠ '.' := ne_of_isBlank (hbs b List.mem_cons_self).1 (by decide)
      rw [List.nil_append]
      split
      · next h => exact absurd (List.cons.inj h).1 hb
      · rfl
  · by_cases hd : d = '.'
    · subst hd
      simp only [List.cons_append]
      rw [takeWhile_append_of_head hdigit]
    · simp [hd]

/-! A lexeme of each kind of rule ends before the padding. -/

theorem fixed_padding {spelling : List Char} (h : spelling.all (fun c => !isBlank c) = true)
    (a : Char) (token : Token) (c : Char) (cs : List Char) :
    (fixed (a :: spelling) token).lexeme? (c :: (cs ++ bs)) =
      (fixed (a :: spelling) token).lexeme? (c :: cs) := by
  have hp : (a :: spelling).isPrefixOf (c :: (cs ++ bs)) =
      (a :: spelling).isPrefixOf (c :: cs) := by
    simp only [List.isPrefixOf]
    rw [isPrefixOf_append_of_head (not_mem_of_all h hbs)]
  simp only [lexeme?, after?]
  rw [hp]
  by_cases hfront : (a :: spelling).isPrefixOf (c :: cs) = true
  · rw [if_pos hfront, if_pos hfront]
    rfl
  · rw [if_neg hfront, if_neg hfront]

theorem listName_padding (c : Char) (cs : List Char) :
    listName.lexeme? (c :: (cs ++ bs)) = listName.lexeme? (c :: cs) := by
  by_cases hc : c = 'L'
  · subst hc
    rcases cs with _ | ⟨d, cs⟩
    · rcases bs with _ | ⟨b, bs⟩
      · rfl
      · simp [lexeme?, subscript?_of_isBlank (hbs b List.mem_cons_self).1]
    · rfl
  · simp [lexeme?, hc]

theorem freeName_padding (c : Char) (cs : List Char) :
    freeName.lexeme? (c :: (cs ++ bs)) = freeName.lexeme? (c :: cs) := by
  have hname : ∀ b ∈ bs.head?, isNameChar b = false := fun b hb =>
    isNameChar_of_isBlank (hbs.head b hb).1
  by_cases hc : c = '⌊'
  · subst hc
    rcases cs with _ | ⟨d, cs⟩
    · rcases bs with _ | ⟨b, bs⟩
      · rfl
      · simp [lexeme?, isLetter_of_isBlank (hbs b List.mem_cons_self).1]
    · simp only [lexeme?, List.cons_append]
      rw [takeWhile_append_of_head hname]
  · simp [lexeme?, hc]

theorem text_padding (c : Char) (cs : List Char) :
    text.lexeme? (c :: (cs ++ bs)) = text.lexeme? (c :: cs) := by
  by_cases hc : c = '"'
  · subst hc
    simp only [lexeme?, drop_takeWhile]
    rcases hrest : cs.dropWhile isTextChar with _ | ⟨d, tail⟩
    · rw [unclosed_padding hbs hrest]
    · obtain ⟨htake, hdrop⟩ := stop_append bs hrest
      rw [htake, hdrop]
      by_cases hd : d = '"'
      · subst hd
        rfl
      · simp [hd]
  · simp [lexeme?, hc]

theorem labelled_padding {spelling : List Char} (h : spelling.all (fun c => !isBlank c) = true)
    (token : String → Token) (cs : List Char) :
    (labelled spelling token).lexeme? (cs ++ bs) = (labelled spelling token).lexeme? cs := by
  simp only [lexeme?]
  rw [after?_padding hbs h]
  cases after? spelling cs with
  | none => rfl
  | some rest =>
    obtain ⟨hname, hgap⟩ := gap_padding hbs rest
    simp only [Option.map_some, Option.bind_eq_bind, Option.bind_some, drop_takeWhile]
    rw [hname]
    by_cases hempty : ((rest.dropWhile isGap).takeWhile isNameChar).isEmpty = true
    · rw [if_pos hempty, if_pos hempty]
    · rw [if_neg hempty, if_neg hempty, hgap (by simpa using hempty)]

theorem lexeme?_padding {r : Rule} (hr : r.isSolid = true) (c : Char) (cs : List Char) :
    r.lexeme? (c :: (cs ++ bs)) = r.lexeme? (c :: cs) := by
  cases r with
  | fixed spelling token =>
    cases spelling with
    | nil => cases hr
    | cons a spelling => exact fixed_padding hbs ((Bool.and_eq_true _ _).mp hr).2 a token c cs
  | letter => rfl
  | listName => exact listName_padding hbs c cs
  | freeName => exact freeName_padding hbs c cs
  | number => exact numberLexeme?_padding hbs (c :: cs)
  | text => exact text_padding hbs c cs
  | labelled spelling token =>
    exact labelled_padding hbs ((Bool.and_eq_true _ _).mp hr).2 token (c :: cs)

/-- What is left unfinished before the padding is left unfinished with it. -/
theorem unfinished?_padding {r : Rule} (hr : r.isSolid = true) (c : Char) (cs : List Char) :
    r.unfinished? (c :: (cs ++ bs)) = none ↔ r.unfinished? (c :: cs) = none := by
  cases r with
  | text =>
    by_cases hc : c = '"'
    · subst hc
      simp only [unfinished?, drop_takeWhile]
      rcases hrest : cs.dropWhile isTextChar with _ | ⟨d, tail⟩
      · rw [unclosed_padding hbs hrest]
        simp
      · rw [(stop_append bs hrest).2]
        by_cases hd : d = '"'
        · subst hd
          rfl
        · simp [hd]
    · simp [unfinished?, hc]
  | labelled spelling token =>
    have hsolid := ((Bool.and_eq_true _ _).mp hr).2
    simp only [unfinished?]
    rw [← List.cons_append, after?_padding hbs hsolid]
    cases after? spelling (c :: cs) with
    | none => rfl
    | some rest =>
      simp only [Option.map_some, Option.bind_eq_bind, Option.bind_some, drop_takeWhile]
      rw [(gap_padding hbs rest).1]
      split <;> simp
  | fixed | letter | listName | freeName | number => exact Iff.rfl

end Rule

/-! ## Reading -/

open Text

theorem Rule.longest?_padding {bs : List Char} (hbs : IsPadding bs) (c : Char) (cs : List Char) :
    Rule.longest? (c :: (cs ++ bs)) = Rule.longest? (c :: cs) := by
  unfold Rule.longest?
  refine List.foldl_ext _ _ _ fun best r hr => ?_
  unfold Rule.better
  rw [Rule.lexeme?_padding hbs (Rule.isSolid_all r hr)]

theorem Rule.unfinishedForm?_padding {bs : List Char} (hbs : IsPadding bs) (c : Char)
    (cs : List Char) :
    Rule.unfinishedForm? (c :: (cs ++ bs)) = none ↔ Rule.unfinishedForm? (c :: cs) = none := by
  unfold Rule.unfinishedForm?
  rw [List.findSome?_eq_none_iff, List.findSome?_eq_none_iff]
  exact forall₂_congr fun r hr => Rule.unfinished?_padding hbs (Rule.isSolid_all r hr) c cs

/-- The next token is the same whether padding follows the text or not. -/
theorem Token.next_padding {bs : List Char} (hbs : IsPadding bs) (c : Char) (cs : List Char)
    {found : Token × List Char} :
    Token.next c (cs ++ bs) = .ok found ↔ Token.next c cs = .ok found := by
  have hform := Rule.unfinishedForm?_padding hbs c cs
  unfold Token.next
  rw [Rule.longest?_padding hbs]
  cases h : Rule.unfinishedForm? (c :: cs) with
  | none => rw [hform.mpr h]
  | some slice =>
    cases h' : Rule.unfinishedForm? (c :: (cs ++ bs)) with
    | none => rw [hform.mp h'] at h; cases h
    | some slice' => simp

/-- A blank character within a line is no beginning of a token. -/
theorem Token.next_blank {c : Char} (hc : isBlank c = true) (hne : c ≠ '\n') (cs : List Char)
    (found : Token × List Char) : Token.next c cs ≠ .ok found := by
  have hnone : ∀ rules : List Rule, (∀ r ∈ rules, r.isSolid = true) →
      rules.foldl (Rule.better (c :: cs)) none = none := by
    intro rules
    induction rules with
    | nil => exact fun _ => rfl
    | cons r rules ih =>
      intro h
      obtain ⟨hr, hrules⟩ := List.forall_mem_cons.mp h
      have hstep : Rule.better (c :: cs) none r = none := by
        unfold Rule.better
        rw [Rule.lexeme?_blank hr hc hne]
      rw [List.foldl_cons, hstep]
      exact ih hrules
  unfold Token.next
  rw [Rule.longest?, hnone Rule.all Rule.isSolid_all]
  split <;> simp

/-- Padding in front of a text is passed over, if the text can be read. -/
theorem Token.readFrom_padding {bs : List Char} (hbs : IsPadding bs) (offset : Nat)
    (tokens : List (Spanned Token)) {cs : List Char} {ts : List (Spanned Token)}
    (h : Token.readFrom 0 offset tokens (bs ++ cs) = .ok ts) :
    Token.readFrom 0 (offset + byteLength bs) tokens cs = .ok ts := by
  induction bs generalizing offset with
  | nil => exact h
  | cons b bs ih =>
    obtain ⟨⟨hblank, hne⟩, hbs⟩ := List.forall_mem_cons.mp hbs
    rw [byteLength_cons, ← Nat.add_assoc]
    rw [List.cons_append, Token.readFrom] at h
    by_cases hskip : isSkipped b = true
    · rw [if_pos hskip] at h
      exact ih hbs _ h
    · rw [if_neg hskip] at h
      split at h
      · cases h
      · next hnext => exact absurd hnext (Token.next_blank hblank hne _ _)

/-- Padding behind a text changes nothing, if the text can be read. -/
theorem Token.readFrom_append_padding {bs : List Char} (hbs : IsPadding bs) (cs : List Char)
    (skip offset : Nat) (hskip : skip ≤ cs.length) (tokens : List (Spanned Token))
    {ts : List (Spanned Token)} (h : Token.readFrom skip offset tokens (cs ++ bs) = .ok ts) :
    Token.readFrom skip offset tokens cs = .ok ts := by
  induction cs generalizing skip offset tokens with
  | nil =>
    obtain rfl : skip = 0 := Nat.le_zero.mp hskip
    rw [List.nil_append, ← List.append_nil bs] at h
    exact Token.readFrom_padding hbs offset tokens h
  | cons c cs ih =>
    rw [List.cons_append] at h
    cases skip with
    | succ n => exact ih n _ (Nat.le_of_succ_le_succ hskip) tokens h
    | zero =>
      rw [Token.readFrom] at h ⊢
      by_cases hc : isSkipped c = true
      · rw [if_pos hc] at h ⊢
        exact ih 0 _ (Nat.zero_le _) tokens h
      · rw [if_neg hc] at h ⊢
        rcases hnext : Token.next c (cs ++ bs) with slice | ⟨token, lexeme⟩ <;> rw [hnext] at h
        · cases h
        · rw [(Token.next_padding hbs c cs).mp hnext]
          have hlen := (Token.next_isPrefix ((Token.next_padding hbs c cs).mp hnext)).length_le
          rw [List.length_cons] at hlen
          exact ih _ _ (by omega) _ h

/-! ## Lines -/

namespace Text

/-- The text is the other one with padding around it. -/
def Pads (line inner : List Char) : Prop :=
  ∃ before after, IsPadding before ∧ IsPadding after ∧ line = before ++ inner ++ after

theorem isPadding_of_subset {line bs : List Char} (hline : '\n' ∉ line) (hbs : bs ⊆ line)
    (hblank : ∀ b ∈ bs, isBlank b = true) : IsPadding bs := by
  refine fun b hb => ⟨hblank b hb, ?_⟩
  rintro rfl
  exact hline (hbs hb)

/-- What is trimmed off a line is padding. -/
theorem pads_trimChars {line : List Char} (hline : '\n' ∉ line) : Pads line (trimChars line) := by
  have hfront := List.takeWhile_append_dropWhile (p := isBlank) (l := line)
  have hback := List.takeWhile_append_dropWhile (p := isBlank)
    (l := (line.dropWhile isBlank).reverse)
  have hinner : line.dropWhile isBlank =
      trimChars line ++ ((line.dropWhile isBlank).reverse.takeWhile isBlank).reverse := by
    rw [trimChars, trimEnd, ← List.reverse_append, hback, List.reverse_reverse]
  have hsplit : line = line.takeWhile isBlank ++ trimChars line ++
      ((line.dropWhile isBlank).reverse.takeWhile isBlank).reverse := by
    rw [List.append_assoc, ← hinner, hfront]
  refine ⟨_, _, ?_, ?_, hsplit⟩
  · exact isPadding_of_subset hline (List.takeWhile_prefix _).subset fun b => List.mem_takeWhile_imp
  · refine isPadding_of_subset hline (fun b hb => ?_) fun b hb =>
      List.mem_takeWhile_imp (List.mem_reverse.mp hb)
    rw [hsplit]
    exact List.mem_append_right _ hb

/-- A line without the carriage return of its ending. -/
def unreturned (line : List Char) : List Char := (dropReturn line.reverse).reverse

theorem exists_unreturned (line : List Char) :
    ∃ bs, IsPadding bs ∧ line = unreturned line ++ bs := by
  unfold unreturned
  rcases hline : line.reverse with _ | ⟨c, rest⟩
  · exact ⟨[], isPadding_nil, by simpa [dropReturn] using hline⟩
  · have hrest : line = rest.reverse ++ [c] := by
      rw [← List.reverse_cons, ← hline, List.reverse_reverse]
    by_cases hc : c = '\r'
    · subst hc
      refine ⟨['\r'], ?_, hrest⟩
      rintro b hb
      obtain rfl := List.mem_singleton.mp hb
      exact ⟨rfl, by decide⟩
    · refine ⟨[], isPadding_nil, ?_⟩
      have hkeep : dropReturn (c :: rest) = c :: rest := by
        unfold dropReturn
        split
        · next h => exact absurd (List.cons.inj h).1 hc
        · rfl
      rw [hkeep, List.reverse_cons, List.append_nil, hrest]

theorem linesFrom_newline {l : List Char} (hl : '\n' ∉ l) (line rest : List Char) :
    linesFrom line (l ++ '\n' :: rest) =
      (dropReturn (l.reverse ++ line)).reverse :: linesFrom [] rest := by
  induction l generalizing line with
  | nil => rfl
  | cons c l ih =>
    obtain ⟨hc, hl⟩ := not_or.mp (List.mem_cons.not.mp hl)
    have hstep : linesFrom line (c :: (l ++ '\n' :: rest)) =
        linesFrom (c :: line) (l ++ '\n' :: rest) := by
      rw [linesFrom]
      exact fun h => hc h.symm
    rw [List.cons_append, hstep, ih hl, List.reverse_cons, List.append_assoc]
    rfl

theorem linesFrom_last {l : List Char} (hl : '\n' ∉ l) (line : List Char) :
    linesFrom line l =
      if (l.reverse ++ line).isEmpty then [] else [(l.reverse ++ line).reverse] := by
  induction l generalizing line with
  | nil => rfl
  | cons c l ih =>
    obtain ⟨hc, hl⟩ := not_or.mp (List.mem_cons.not.mp hl)
    have hstep : linesFrom line (c :: l) = linesFrom (c :: line) l := by
      rw [linesFrom]
      exact fun h => hc h.symm
    rw [hstep, ih hl, List.reverse_cons, List.append_assoc]
    rfl

/-- A text without line feeds is one line. -/
theorem normalize_line {s : String} (hs : '\n' ∉ s.toList) : normalize s = trim s := by
  unfold normalize lines
  rw [linesFrom_last hs, List.append_nil]
  by_cases hempty : s.toList = []
  · rw [hempty, trim, hempty]
    rfl
  · rw [if_neg (by simpa using hempty), List.reverse_reverse]
    simp

theorem lines_ne_nil {s : String} (hs : s ≠ "") : lines s ≠ [] := by
  have hchars : s.toList ≠ [] := by simpa using hs
  unfold lines
  rw [Ne, List.map_eq_nil_iff]
  by_cases hmem : '\n' ∈ s.toList
  · obtain ⟨l, rest, heq, hl⟩ := List.eq_append_cons_of_mem hmem
    rw [heq, linesFrom_newline hl]
    exact List.cons_ne_nil _ _
  · rw [linesFrom_last hmem, List.append_nil, if_neg (by simpa using hchars)]
    exact List.cons_ne_nil _ _

/-- The first line is trimmed, and behind it stand the others, if there are any. -/
theorem normalize_newline {s : String} (hs : '\n' ∉ s.toList) (t : String) :
    normalize (s ++ "\n" ++ t) =
      if t = "" then trim (String.ofList (unreturned s.toList))
      else trim (String.ofList (unreturned s.toList)) ++ "\n" ++ normalize t := by
  have hlines : lines (s ++ "\n" ++ t) = String.ofList (unreturned s.toList) :: lines t := by
    have hlist : (s ++ "\n" ++ t).toList = s.toList ++ '\n' :: t.toList := by simp
    unfold lines
    rw [hlist, linesFrom_newline hs, List.append_nil]
    rfl
  unfold normalize
  rw [hlines, List.map_cons]
  by_cases ht : t = ""
  · subst ht
    rw [if_pos rfl]
    exact String.intercalate_singleton
  · rw [if_neg ht]
    have hne : (lines t).map trim ≠ [] := by simpa using lines_ne_nil ht
    rw [← List.singleton_append, String.intercalate_append_of_ne_nil (List.cons_ne_nil _ _) hne,
      String.intercalate_singleton]

end Text

theorem Reader.nodes_move (f : Span → Span) (ts : List (Spanned Token)) :
    Reader.nodes (ts.map (.move f)) = Reader.nodes ts := by
  simp [Reader.nodes, Spanned.move]

/-- A line that can be read has the same tokens without the padding around it. -/
theorem Token.read_pads {line inner : List Char} (hpads : Pads line inner)
    {ts : List (Spanned Token)} (h : Token.read (String.ofList line) = .ok ts) :
    ∃ us, Token.read (String.ofList inner) = .ok us ∧ Reader.nodes ts = Reader.nodes us := by
  obtain ⟨before, after, hbefore, hafter, rfl⟩ := hpads
  unfold Token.read at h ⊢
  rw [String.toList_ofList, List.append_assoc] at h
  rw [String.toList_ofList]
  have hfront := Token.readFrom_padding hbefore 0 [] h
  have hback := Token.readFrom_append_padding hafter inner 0 _ (Nat.zero_le _) [] hfront
  have hshift := Token.readFrom_shift (byteLength before) [] inner 0 0 []
  rw [List.map_nil, List.append_nil, hback] at hshift
  rcases hinner : Token.readFrom 0 0 [] inner with u | us <;> rw [hinner] at hshift
  · cases hshift
  · cases hshift
    exact ⟨us, rfl, Reader.nodes_move _ us⟩

theorem Token.read_trim {s : String} (hs : '\n' ∉ s.toList) {ts : List (Spanned Token)}
    (h : Token.read s = .ok ts) :
    ∃ us, Token.read (trim s) = .ok us ∧ Reader.nodes ts = Reader.nodes us := by
  rw [← String.ofList_toList (s := s)] at h
  exact Token.read_pads (pads_trimChars hs) h

/-- A line before its ending. -/
theorem Token.read_trim_unreturned {s : String} (hs : '\n' ∉ s.toList)
    {ts : List (Spanned Token)} (h : Token.read s = .ok ts) :
    ∃ us, Token.read (trim (String.ofList (unreturned s.toList))) = .ok us ∧
      Reader.nodes ts = Reader.nodes us := by
  obtain ⟨bs, hbs, hline⟩ := exists_unreturned s.toList
  have hpads : Pads s.toList (unreturned s.toList) := ⟨[], bs, isPadding_nil, hbs, hline⟩
  rw [← String.ofList_toList (s := s)] at h
  obtain ⟨us, hus, hnodes⟩ := Token.read_pads hpads h
  have hinner : '\n' ∉ (String.ofList (unreturned s.toList)).toList := by
    rw [String.toList_ofList]
    intro hmem
    rw [hline] at hs
    exact hs (List.mem_append_left _ hmem)
  obtain ⟨vs, hvs, hnodes'⟩ := Token.read_trim hinner hus
  exact ⟨vs, hvs, hnodes.trans hnodes'⟩

/-- The separator that stands for the last line feed of a text, if it ends with one. -/
def lastFeed (text : String) : List Token :=
  if text.toList.getLast? = some '\n' then [.separator] else []

theorem lastFeed_newline (s : String) {t : String} (ht : t ≠ "") :
    lastFeed (s ++ "\n" ++ t) = lastFeed t := by
  have hchars : t.toList ≠ [] := by simpa using ht
  unfold lastFeed
  rw [String.toList_append, List.getLast?_append_of_ne_nil _ hchars]

/-- **Loaded texts.** A text that can be read has the same tokens when it is loaded, but for the
last line feed. -/
theorem Token.read_normalize (text : String) {ts : List (Spanned Token)}
    (h : Token.read text = .ok ts) :
    ∃ us, Token.read (normalize text) = .ok us ∧
      Reader.nodes ts = Reader.nodes us ++ lastFeed text := by
  induction hn : text.toList.length using Nat.strong_induction_on generalizing text ts with
  | _ n ih =>
    by_cases hmem : '\n' ∈ text.toList
    · obtain ⟨l, rest, heq, hl⟩ := List.eq_append_cons_of_mem hmem
      obtain ⟨s, rfl⟩ : ∃ s : String, s.toList = l := ⟨String.ofList l, String.toList_ofList⟩
      obtain ⟨t, rfl⟩ : ∃ t : String, t.toList = rest := ⟨String.ofList rest, String.toList_ofList⟩
      obtain rfl : text = s ++ "\n" ++ t := String.toList_inj.mp (by simpa using heq)
      rw [Token.read_newline] at h
      rcases hs : Token.read s with u | vs <;> rw [hs] at h
      · cases h
      rcases ht : Token.read t with u | ws <;> rw [ht] at h
      · cases h
      cases h
      obtain ⟨vs', hvs', hfirst⟩ := Token.read_trim_unreturned hl hs
      rw [normalize_newline hl]
      by_cases hempty : t = ""
      · subst hempty
        cases ht
        refine ⟨vs', by rw [if_pos rfl, hvs'], ?_⟩
        simp [lastFeed, hfirst]
      · have hlength : t.toList.length < n := by
          rw [← hn, heq, List.length_append, List.length_cons]
          omega
        obtain ⟨ws', hws', hrest⟩ := ih _ hlength t ht rfl
        rw [if_neg hempty, Token.read_newline, hvs', hws', lastFeed_newline s hempty]
        refine ⟨_, rfl, ?_⟩
        simp [hfirst, Reader.nodes_move, hrest]
    · have hlast : lastFeed text = [] := if_neg fun h => hmem (List.mem_of_getLast? h)
      rw [normalize_line hmem, hlast]
      simpa only [List.append_nil] using Token.read_trim hmem h

/-- **Loading keeps the meaning of a text.** If a text can be read, so can the loaded text, with the
same tokens, but for a separator at the end if the text ends with a line feed. Both or neither are
programs; if they are, they are the same program up to places, and if not, a block is left open in
both or in neither. -/
theorem Program.parse_normalize {text : String} {ts : List (Spanned Token)}
    (h : Token.read text = .ok ts) :
    (∃ us, Token.read (normalize text) = .ok us ∧
      Reader.nodes ts =
        Reader.nodes us ++ if text.toList.getLast? = some '\n' then [.separator] else []) ∧
    verdict (parse (normalize text)) = verdict (parse text) := by
  obtain ⟨us, hus, hnodes⟩ := Token.read_normalize text h
  refine ⟨⟨us, hus, hnodes⟩, ?_⟩
  have hlike : Like ts us := by
    refine like_of_nodes (fun t ht => ?_) hnodes
    unfold lastFeed at ht
    split at ht
    · exact List.mem_singleton.mp ht
    · cases ht
  rw [parse_eq, parse_eq text, h, hus]
  exact (verdict_ofBlock _ _ hlike.past).symm

/-- Carriage returns, a blank line, a gap before a label's name and blanks within a text. -/
theorem Program.parse_normalize_returns : ∃ ts us,
    Token.read " Lbl  A \r\n\r\n\tDisp \" x \" \r\n" = .ok ts ∧
    Token.read "Lbl  A\n\nDisp \" x \"" = .ok us ∧
    Reader.nodes ts = Reader.nodes us ++ [.separator] ∧
    verdict (parse "Lbl  A\n\nDisp \" x \"") =
      verdict (parse " Lbl  A \r\n\r\n\tDisp \" x \" \r\n") := by
  have hreads : (Token.read " Lbl  A \r\n\r\n\tDisp \" x \" \r\n").toOption.isSome = true := by
    decide +kernel
  have hloaded : normalize " Lbl  A \r\n\r\n\tDisp \" x \" \r\n" =
      "Lbl  A\n\nDisp \" x \"" := by
    decide +kernel
  cases hts : Token.read " Lbl  A \r\n\r\n\tDisp \" x \" \r\n" with
  | error u =>
    rw [hts] at hreads
    cases hreads
  | ok ts =>
    obtain ⟨⟨us, hus, hnodes⟩, hverdict⟩ := parse_normalize hts
    rw [hloaded] at hus hverdict
    exact ⟨ts, us, rfl, hus, hnodes, hverdict⟩

end CalcBasic
