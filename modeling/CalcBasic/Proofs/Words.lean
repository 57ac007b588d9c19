import CalcBasic.Proofs.LineFeeds
import Mathlib.Data.List.Induction
import Mathlib.Data.List.Infix

/-!
# Words

Which texts are words of the language, and which tokens they stand for. This is said without rules
and without a scanner (`Word`), and then compared with what the rules find.

1. A word stands for one token only (`Word.unique`): its first characters tell the rule that it
   belongs to (`Rule.ofWord`).
2. What a rule finds at the front of a text is a word (`Rule.lexeme?_word`), and every word there is
   found by a rule, perhaps in a longer one (`Word.exists_lexeme?`).
3. So the rules together find the longest word at the front of a text, and find none only where none
   stands (`Rule.longest?_eq_some`, `Rule.longest?_eq_none`).
-/

namespace CalcBasic

/-- The keywords that a label's name follows. -/
def Rule.labelledForms : List (String × (String → Token)) :=
  [("Lbl", .label), ("Goto", .goto)]

/-- The text is a word of the language and stands for the token. -/
inductive Word : List Char → Token → Prop
  /-- A keyword, an operator, a mark or a separator. -/
  | fixed {spelling : String} {token : Token} (h : (spelling, token) ∈ Rule.fixedSpellings) :
      Word spelling.toList token
  | letter {c : Char} (hc : isLetter c = true) : Word [c] (.name (String.ofList [c]))
  /-- `L` and a digit from 1 to 6, whose subscript form belongs to the name. -/
  | listName {c digit : Char} (hc : Rule.subscript? c = some digit) :
      Word ['L', c] (.name (String.ofList ['L', digit]))
  | freeName {c : Char} {cs : List Char} (hc : isLetter c = true)
      (hcs : ∀ d ∈ cs, Rule.isNameChar d = true) :
      Word ('⌊' :: c :: cs) (.name (String.ofList ('⌊' :: c :: cs)))
  /-- Digits without a point. -/
  | whole {digits : List Char} (hne : digits ≠ []) (hdigits : ∀ d ∈ digits, isDigit d = true) :
      Word digits (.number (Float.ofScientific (Rule.digitsValue digits) true 0))
  /-- Digits around a point, on at least one side of it. -/
  | fraction {digits decimals : List Char} (hne : digits ≠ [] ∨ decimals ≠ [])
      (hdigits : ∀ d ∈ digits, isDigit d = true) (hdecimals : ∀ d ∈ decimals, isDigit d = true) :
      Word (digits ++ '.' :: decimals)
        (.number (Float.ofScientific (Rule.digitsValue (digits ++ decimals)) true decimals.length))
  /-- Anything but quotes and line feeds between two quotes. -/
  | text {content : List Char} (h : ∀ c ∈ content, c ≠ '"' ∧ c ≠ '\n') :
      Word ('"' :: (content ++ ['"'])) (.text (String.ofList content))
  /-- A keyword, blanks, and a name. -/
  | labelled {keyword : String} {token : String → Token} {gap name : List Char}
      (h : (keyword, token) ∈ Rule.labelledForms) (hgap : ∀ c ∈ gap, c = ' ' ∨ c = '\t')
      (hne : name ≠ []) (hname : ∀ c ∈ name, Rule.isNameChar c = true) :
      Word (keyword.toList ++ gap ++ name) (token (String.ofList name))

/-! ## Characters -/

theorem Rule.isGap_iff {c : Char} : isGap c = true ↔ c = ' ' ∨ c = '\t' := by
  simp [isGap]

theorem Rule.isTextChar_iff {c : Char} : isTextChar c = true ↔ c ≠ '"' ∧ c ≠ '\n' := by
  simp [isTextChar]

theorem Rule.isGap_of_isNameChar {c : Char} (h : isNameChar c = true) : isGap c = false := by
  by_contra hc
  rw [Bool.not_eq_false, isGap_iff] at hc
  rcases hc with rfl | rfl <;> cases h

theorem head_of_forall {p : Char → Bool} {cs : List Char} (h : ∀ c ∈ cs, p c = true) (hne : cs ≠ [])
    (ds : List Char) : ∀ c ∈ (cs ++ ds).head?, p c = true := by
  obtain ⟨c, cs, rfl⟩ := List.exists_cons_of_ne_nil hne
  rintro _ ⟨⟩
  exact h c List.mem_cons_self

namespace Rule

variable {gap name : List Char} (hgap : ∀ c ∈ gap, c = ' ' ∨ c = '\t') (hne : name ≠ [])
  (hname : ∀ c ∈ name, isNameChar c = true)

include hgap hne hname

/-- The blanks between a keyword and a name end at the name. -/
theorem gap_before_name (rest : List Char) :
    (gap ++ (name ++ rest)).takeWhile isGap = gap ∧
      (gap ++ (name ++ rest)).dropWhile isGap = name ++ rest := by
  have hhead : ∀ c ∈ (name ++ rest).head?, isGap c = false := fun c hc =>
    isGap_of_isNameChar (head_of_forall hname hne rest c hc)
  have hall : ∀ c ∈ gap, isGap c = true := fun c hc => isGap_iff.mpr (hgap c hc)
  constructor
  · rw [List.takeWhile_append_of_pos hall, takeWhile_eq_nil_of_head hhead, List.append_nil]
  · rw [List.dropWhile_append_of_pos hall, dropWhile_eq_self_of_head hhead]

end Rule

/-! ## One token for each word -/

namespace Rule

theorem numberValue_whole {digits : List Char} (h : ∀ d ∈ digits, isDigit d = true) :
    numberValue digits = Float.ofScientific (digitsValue digits) true 0 := by
  have hwhole : digits.takeWhile isDigit = digits := List.takeWhile_eq_self_iff.mpr h
  simp [numberValue, hwhole, List.drop_eq_nil_of_le (Nat.le_succ digits.length)]

theorem takeWhile_isDigit_point {digits : List Char} (h : ∀ d ∈ digits, isDigit d = true)
    (rest : List Char) : (digits ++ '.' :: rest).takeWhile isDigit = digits := by
  rw [List.takeWhile_append_of_pos h, takeWhile_eq_nil_of_head (by rintro _ ⟨⟩; decide),
    List.append_nil]

theorem numberValue_fraction {digits : List Char} (h : ∀ d ∈ digits, isDigit d = true)
    (decimals : List Char) : numberValue (digits ++ '.' :: decimals) =
      Float.ofScientific (digitsValue (digits ++ decimals)) true decimals.length := by
  have hdrop : (digits ++ '.' :: decimals).drop (digits.length + 1) = decimals := by
    simp [List.drop_append]
  unfold numberValue
  rw [takeWhile_isDigit_point h]
  dsimp only
  rw [hdrop]

/-- The rule that a word belongs to, by its first characters. -/
def ofWord : List Char → Rule
  | '"' :: _ => text
  | '⌊' :: _ => freeName
  | 'L' :: 'b' :: _ => labelled "Lbl".toList .label
  | 'G' :: 'o' :: _ => labelled "Goto".toList .goto
  | 'L' :: _ :: _ => listName
  | c :: cs =>
    if isDigit c || c == '.' then number
    else if isLetter c && cs.isEmpty then letter
    else fixed (c :: cs) ((fixedSpellings.lookup (String.ofList (c :: cs))).getD .separator)
  | [] => letter

theorem ofWord_fixed : ∀ p ∈ fixedSpellings, (ofWord p.1.toList).token p.1.toList = p.2 := by
  decide +kernel

theorem ofWord_letter {c : Char} (hc : isLetter c = true) : ofWord [c] = letter := by
  have hcode := isLetter_iff_toNat.mp hc
  have hdigit : isDigit c = false := by
    by_contra h
    have := isDigit_iff_toNat.mp (Bool.not_eq_false _ ▸ h)
    omega
  have hpoint : c ≠ '.' := by
    rintro rfl
    cases hc
  have hquote : c ≠ '"' := by
    rintro rfl
    cases hc
  have hfloor : c ≠ '⌊' := by
    rintro rfl
    cases hc
  simp [ofWord, hdigit, hpoint, hc]

theorem ofWord_digits {c : Char} {cs : List Char} (hc : isDigit c = true ∨ c = '.') :
    ofWord (c :: cs) = number := by
  have hother : ∀ d : Char, isDigit d = false → d ≠ '.' → c ≠ d := by
    rintro d hd hpoint rfl
    rcases hc with hc | hc
    · rw [hd] at hc
      cases hc
    · exact hpoint hc
  have hpoint : (isDigit c || c == '.') = true := by
    simpa using hc
  simp [ofWord, hother '"' rfl (by decide), hother '⌊' rfl (by decide), hother 'L' rfl (by decide),
    hother 'G' rfl (by decide), hpoint]

theorem ofWord_labelled {keyword : String} {token : String → Token}
    (h : (keyword, token) ∈ labelledForms) (gap name : List Char) :
    ofWord (keyword.toList ++ gap ++ name) = labelled keyword.toList token := by
  simp only [labelledForms, List.mem_cons, Prod.mk.injEq, List.not_mem_nil, or_false] at h
  rcases h with ⟨rfl, rfl⟩ | ⟨rfl, rfl⟩ <;> rfl

end Rule

/-- The rule of a word gives its token. -/
theorem Word.token_eq {l : List Char} {t : Token} (h : Word l t) : (Rule.ofWord l).token l = t := by
  cases h with
  | fixed h => exact Rule.ofWord_fixed _ h
  | letter hc =>
    rw [Rule.ofWord_letter hc]
    rfl
  | @listName c digit hc =>
    have hb : c ≠ 'b' := by
      rintro rfl
      cases hc
    have hL : Rule.subscript? 'L' = none := rfl
    simp [Rule.ofWord, Rule.token, hc, hL]
  | freeName hc hcs => rfl
  | @whole digits hne hdigits =>
    obtain ⟨c, cs, rfl⟩ := List.exists_cons_of_ne_nil hne
    rw [Rule.ofWord_digits (.inl (hdigits c List.mem_cons_self)), Rule.token,
      Rule.numberValue_whole hdigits]
  | @fraction digits decimals hne hdigits hdecimals =>
    have hrule : Rule.ofWord (digits ++ '.' :: decimals) = .number := by
      cases digits with
      | nil => exact Rule.ofWord_digits (.inr rfl)
      | cons c cs => exact Rule.ofWord_digits (.inl (hdigits c List.mem_cons_self))
    rw [hrule, Rule.token, Rule.numberValue_fraction hdigits]
  | text h => simp [Rule.ofWord, Rule.token]
  | @labelled keyword token gap name h hgap hne hname =>
    have hafter := (Rule.gap_before_name hgap hne hname []).2
    rw [List.append_nil] at hafter
    rw [Rule.ofWord_labelled h, Rule.token, List.append_assoc, List.drop_left, hafter]

/-- **A word stands for one token only.** -/
theorem Word.unique {l : List Char} {t u : Token} (ht : Word l t) (hu : Word l u) : t = u :=
  ht.token_eq.symm.trans hu.token_eq

/-! ## What the rules find -/

namespace Rule

theorem mem_all {r : Rule} : r ∈ all ↔
    r = letter ∨ r = listName ∨ r = freeName ∨ r = number ∨ r = text ∨
      (∃ p ∈ labelledForms, r = labelled p.1.toList p.2) ∨
      ∃ p ∈ fixedSpellings, r = fixed p.1.toList p.2 := by
  simp [all, labelledForms, eq_comm, or_assoc]

theorem fixed_mem_all {spelling : String} {token : Token}
    (h : (spelling, token) ∈ fixedSpellings) : fixed spelling.toList token ∈ all :=
  mem_all.mpr (.inr (.inr (.inr (.inr (.inr (.inr ⟨_, h, rfl⟩))))))

theorem labelled_mem_all {keyword : String} {token : String → Token}
    (h : (keyword, token) ∈ labelledForms) : labelled keyword.toList token ∈ all :=
  mem_all.mpr (.inr (.inr (.inr (.inr (.inr (.inl ⟨_, h, rfl⟩))))))

theorem numberLexeme?_word {cs l : List Char} (h : numberLexeme? cs = some l) :
    Word l (.number (numberValue l)) := by
  have hdigits : ∀ d ∈ cs.takeWhile isDigit, isDigit d = true := fun d hd => List.mem_takeWhile_imp hd
  simp only [numberLexeme?] at h
  split at h
  · rename_i rest _
    split at h
    · cases h
    · rename_i hne
      cases h
      have hdecimals : ∀ d ∈ rest.takeWhile isDigit, isDigit d = true := fun d hd =>
        List.mem_takeWhile_imp hd
      rw [numberValue_fraction hdigits]
      refine .fraction ?_ hdigits hdecimals
      simpa [Bool.and_eq_true, or_iff_not_imp_left] using hne
  · split at h
    · cases h
    · rename_i hne
      cases h
      rw [numberValue_whole hdigits]
      exact .whole (by simpa using hne) hdigits

/-- What a rule finds is a word, with the token that the rule gives it. -/
theorem lexeme?_word {r : Rule} (hr : r ∈ all) {cs l : List Char} (h : r.lexeme? cs = some l) :
    Word l (r.token l) := by
  rcases mem_all.mp hr with rfl | rfl | rfl | rfl | rfl | ⟨⟨keyword, token⟩, hform, rfl⟩ |
    ⟨⟨spelling, token⟩, hfixed, rfl⟩
  case inl =>
    simp only [lexeme?] at h
    split at h
    · rename_i c _
      split at h
      · rename_i hc
        cases h
        exact .letter hc
      · cases h
    · cases h
  case inr.inl =>
    simp only [lexeme?] at h
    split at h
    · rename_i c _
      obtain ⟨digit, hdigit, rfl⟩ := Option.map_eq_some_iff.mp h
      have hL : subscript? 'L' = none := rfl
      simpa [token, hdigit, hL] using Word.listName hdigit
    · cases h
  case inr.inr.inl =>
    simp only [lexeme?] at h
    split at h
    · split at h
      · rename_i hc
        cases h
        exact .freeName hc fun d hd => List.mem_takeWhile_imp hd
      · cases h
    · cases h
  case inr.inr.inr.inl => exact numberLexeme?_word h
  case inr.inr.inr.inr.inl =>
    simp only [lexeme?] at h
    split at h
    · rename_i rest
      split at h
      · cases h
        have hcontent : ∀ c ∈ rest.takeWhile isTextChar, c ≠ '"' ∧ c ≠ '\n' := fun c hc =>
          isTextChar_iff.mp (List.mem_takeWhile_imp hc)
        simpa [token] using Word.text hcontent
      · cases h
    · cases h
  case inr.inr.inr.inr.inr.inl =>
    simp only [lexeme?, Option.bind_eq_bind, Option.bind_eq_some_iff] at h
    obtain ⟨rest, -, h⟩ := h
    split at h
    · cases h
    · rename_i hne
      cases h
      have hgap : ∀ c ∈ rest.takeWhile isGap, c = ' ' ∨ c = '\t' := fun c hc =>
        isGap_iff.mp (List.mem_takeWhile_imp hc)
      have hword := Word.labelled hform hgap (mt List.isEmpty_iff.mpr hne) fun c hc =>
        List.mem_takeWhile_imp hc
      rw [← hword.token_eq, ofWord_labelled hform] at hword
      exact hword
  case inr.inr.inr.inr.inr.inr =>
    simp only [lexeme?, Option.map_eq_some_iff] at h
    obtain ⟨-, -, rfl⟩ := h
    exact .fixed hfixed

theorem after?_append (spelling rest : List Char) : after? spelling (spelling ++ rest) = some rest := by
  simp [after?]

theorem length_le_takeWhile {p : Char → Bool} {cs : List Char} (h : ∀ c ∈ cs, p c = true)
    (rest : List Char) : cs.length ≤ ((cs ++ rest).takeWhile p).length := by
  rw [List.takeWhile_append_of_pos h, List.length_append]
  exact Nat.le_add_right _ _

theorem numberLexeme?_whole {digits : List Char} (hne : digits ≠ [])
    (h : ∀ d ∈ digits, isDigit d = true) (rest : List Char) :
    ∃ l, numberLexeme? (digits ++ rest) = some l ∧ digits.length ≤ l.length := by
  have hlength := length_le_takeWhile h rest
  have hfront : (digits ++ rest).takeWhile isDigit ≠ [] :=
    List.ne_nil_of_length_pos (Nat.lt_of_lt_of_le (List.length_pos_iff.mpr hne) hlength)
  simp only [numberLexeme?]
  split
  · rw [if_neg (by simp [hfront])]
    refine ⟨_, rfl, ?_⟩
    rw [List.length_append]
    omega
  · rw [if_neg (by simp [hfront])]
    exact ⟨_, rfl, hlength⟩

theorem numberLexeme?_fraction {digits decimals : List Char} (hne : digits ≠ [] ∨ decimals ≠ [])
    (hdigits : ∀ d ∈ digits, isDigit d = true) (hdecimals : ∀ d ∈ decimals, isDigit d = true)
    (rest : List Char) : ∃ l, numberLexeme? (digits ++ '.' :: decimals ++ rest) = some l ∧
      (digits ++ '.' :: decimals).length ≤ l.length := by
  have hlength := length_le_takeWhile hdecimals rest
  have hfraction : decimals ≠ [] → (decimals ++ rest).takeWhile isDigit ≠ [] := fun h =>
    List.ne_nil_of_length_pos (Nat.lt_of_lt_of_le (List.length_pos_iff.mpr h) hlength)
  have hsome : ¬(digits.isEmpty && ((decimals ++ rest).takeWhile isDigit).isEmpty) = true := by
    rcases hne with h | h
    · simp [h]
    · simp [hfraction h]
  rw [List.append_assoc, List.cons_append]
  simp only [numberLexeme?]
  rw [takeWhile_isDigit_point hdigits, List.drop_left]
  refine ⟨_, if_neg hsome, ?_⟩
  simp only [List.length_append, List.length_cons]
  omega

end Rule

/-- A word at the front of the characters is found by a rule, perhaps in a longer one. -/
theorem Word.exists_lexeme? {l cs : List Char} {t : Token} (h : Word l t) (hl : l <+: cs) :
    ∃ r ∈ Rule.all, ∃ l', r.lexeme? cs = some l' ∧ l.length ≤ l'.length := by
  obtain ⟨rest, rfl⟩ := hl
  cases h with
  | @fixed spelling token h =>
    refine ⟨.fixed spelling.toList t, Rule.fixed_mem_all h, spelling.toList, ?_, le_rfl⟩
    rw [Rule.lexeme?, Rule.after?_append, Option.map_some]
  | @letter c hc =>
    refine ⟨.letter, Rule.mem_all.mpr (by simp), [c], ?_, le_rfl⟩
    simp [Rule.lexeme?, hc]
  | @listName c digit hc =>
    refine ⟨.listName, Rule.mem_all.mpr (by simp), ['L', c], ?_, le_rfl⟩
    simp [Rule.lexeme?, hc]
  | @freeName c cs hc hcs =>
    refine ⟨.freeName, Rule.mem_all.mpr (by simp), '⌊' :: c :: (cs ++ rest).takeWhile Rule.isNameChar,
      ?_, ?_⟩
    · simp [Rule.lexeme?, hc]
    · have := Rule.length_le_takeWhile hcs rest
      simp only [List.length_cons]
      omega
  | whole hne hdigits =>
    exact ⟨.number, Rule.mem_all.mpr (by simp), Rule.numberLexeme?_whole hne hdigits rest⟩
  | fraction hne hdigits hdecimals =>
    exact ⟨.number, Rule.mem_all.mpr (by simp),
      Rule.numberLexeme?_fraction hne hdigits hdecimals rest⟩
  | @text content h =>
    refine ⟨.text, Rule.mem_all.mpr (by simp), '"' :: content ++ ['"'], ?_, le_rfl⟩
    have hall : ∀ c ∈ content, Rule.isTextChar c = true := fun c hc => Rule.isTextChar_iff.mpr (h c hc)
    have hstop : ∀ c ∈ ('"' :: rest).head?, Rule.isTextChar c = false := by
      rintro _ ⟨⟩
      rfl
    have hfront : (content ++ '"' :: rest).takeWhile Rule.isTextChar = content := by
      rw [List.takeWhile_append_of_pos hall, takeWhile_eq_nil_of_head hstop, List.append_nil]
    simp [Rule.lexeme?, hfront]
  | @labelled keyword token gap name h hgap hne hname =>
    obtain ⟨hfront, hback⟩ := Rule.gap_before_name hgap hne hname rest
    have hlength := Rule.length_le_takeWhile hname rest
    have hsome : ¬((name ++ rest).takeWhile Rule.isNameChar).isEmpty = true := by
      rw [List.isEmpty_iff_length_eq_zero]
      have := List.length_pos_iff.mpr hne
      omega
    refine ⟨.labelled keyword.toList token, Rule.labelled_mem_all h,
      keyword.toList ++ gap ++ (name ++ rest).takeWhile Rule.isNameChar, ?_, ?_⟩
    · rw [Rule.lexeme?, List.append_assoc, List.append_assoc, Rule.after?_append]
      simp only [Option.bind_eq_bind, Option.bind_some]
      rw [drop_takeWhile, hfront, hback, if_neg hsome]
    · simp only [List.length_append]
      omega

/-! ## The longest word -/

/-- The longest word at the front of the characters, with its token. -/
structure Longest (cs lexeme : List Char) (token : Token) : Prop where
  isPrefix : lexeme <+: cs
  word : Word lexeme token
  length_le : ∀ {l : List Char} {t : Token}, Word l t → l <+: cs → l.length ≤ lexeme.length

/-- The longest word and its token are fixed by the characters. -/
theorem Longest.unique {cs l m : List Char} {t u : Token} (h : Longest cs l t)
    (h' : Longest cs m u) : l = m ∧ t = u := by
  have hlength : l.length = m.length :=
    le_antisymm (h'.length_le h.word h.isPrefix) (h.length_le h'.word h'.isPrefix)
  obtain rfl : l = m := List.IsPrefix.eq_of_length
    (List.prefix_of_prefix_length_le h.isPrefix h'.isPrefix hlength.le) hlength
  exact ⟨rfl, h.word.unique h'.word⟩

namespace Rule

variable {cs l : List Char} {r : Rule}

theorem foldl_better_concat (rules : List Rule) (r : Rule) :
    (rules ++ [r]).foldl (better cs) none = better cs (rules.foldl (better cs) none) r := by
  rw [List.foldl_append]
  rfl

/-- What is chosen is the best so far or what the rule finds. -/
theorem better_cases {best : Option (Rule × List Char)} {s : Rule}
    (h : better cs best s = some (r, l)) : best = some (r, l) ∨ r = s ∧ r.lexeme? cs = some l := by
  unfold better at h
  split at h
  · exact .inl h
  · rename_i hs
    cases h
    exact .inr ⟨rfl, hs⟩
  · rename_i hs
    split at h
    · cases h
      exact .inr ⟨rfl, hs⟩
    · exact .inl h

/-- The best of some rules is one of them, with what it finds. -/
theorem mem_of_foldl_better {rules : List Rule} (h : rules.foldl (better cs) none = some (r, l)) :
    r ∈ rules ∧ r.lexeme? cs = some l := by
  induction rules using List.reverseRecOn with
  | nil => cases h
  | append_singleton rules s ih =>
    rw [foldl_better_concat] at h
    rcases better_cases h with hbest | ⟨rfl, hl⟩
    · obtain ⟨hr, hl⟩ := ih hbest
      exact ⟨List.mem_append_left [s] hr, hl⟩
    · exact ⟨List.mem_append_right rules List.mem_cons_self, hl⟩

/-- What is chosen is as long as the best so far. -/
theorem better_some (cs : List Char) (best : Rule × List Char) (r : Rule) :
    ∃ p, better cs (some best) r = some p ∧ best.2.length ≤ p.2.length := by
  unfold better
  split
  · exact ⟨best, rfl, le_rfl⟩
  · rename_i hbest
    cases hbest
  · rename_i lexeme s longest _ hbest
    cases hbest
    by_cases hlt : longest.length < lexeme.length
    · exact ⟨(r, lexeme), if_pos hlt, hlt.le⟩
    · exact ⟨(s, longest), if_neg hlt, le_rfl⟩

/-- What is chosen is as long as what the rule finds. -/
theorem better_lexeme (hl : r.lexeme? cs = some l) (best : Option (Rule × List Char)) :
    ∃ p, better cs best r = some p ∧ l.length ≤ p.2.length := by
  unfold better
  rw [hl]
  rcases best with _ | ⟨s, longest⟩
  · exact ⟨(r, l), rfl, le_rfl⟩
  · by_cases hlt : longest.length < l.length
    · exact ⟨(r, l), if_pos hlt, le_rfl⟩
    · exact ⟨(s, longest), if_neg hlt, Nat.le_of_not_lt hlt⟩

/-- No rule finds anything longer than the best. -/
theorem le_of_foldl_better {rules : List Rule} (hr : r ∈ rules) (hl : r.lexeme? cs = some l) :
    ∃ p, rules.foldl (better cs) none = some p ∧ l.length ≤ p.2.length := by
  induction rules using List.reverseRecOn with
  | nil => cases hr
  | append_singleton rules s ih =>
    rw [foldl_better_concat]
    rcases List.mem_append.mp hr with hr | hr
    · obtain ⟨best, hbest, hle⟩ := ih hr
      obtain ⟨p, hp, hbestle⟩ := better_some cs best s
      exact ⟨p, hbest ▸ hp, hle.trans hbestle⟩
    · obtain rfl := List.mem_singleton.mp hr
      exact better_lexeme hl _

/-- The rules together find the longest word. -/
theorem longest?_eq_some (h : longest? cs = some (r, l)) : Longest cs l (r.token l) := by
  obtain ⟨hr, hl⟩ := mem_of_foldl_better h
  refine ⟨lexeme?_isPrefix hl, lexeme?_word hr hl, fun hm hprefix => ?_⟩
  obtain ⟨s, hs, m', hm', hle⟩ := hm.exists_lexeme? hprefix
  obtain ⟨p, hp, hple⟩ := le_of_foldl_better hs hm'
  obtain rfl : p = (r, l) := Option.some.inj (hp.symm.trans h)
  exact hle.trans hple

/-- They find it wherever a word stands at the front. -/
theorem longest?_ne_none {t : Token} (h : Word l t) (hl : l <+: cs) : longest? cs ≠ none := by
  obtain ⟨r, hr, l', hl', -⟩ := h.exists_lexeme? hl
  obtain ⟨p, hp, -⟩ := le_of_foldl_better hr hl'
  intro hnone
  cases hp.symm.trans hnone

end Rule


/-! ## Words by their first characters -/

/-- A keyword with a name behind it, and blanks between them. -/
def Named (keyword : String) (l : List Char) : Prop :=
  ∃ gap name, l = keyword.toList ++ gap ++ name ∧ (∀ c ∈ gap, c = ' ' ∨ c = '\t') ∧ name ≠ [] ∧
    ∀ c ∈ name, Rule.isNameChar c = true

theorem Rule.fixed_front : ∀ p ∈ fixedSpellings, p.1.toList ≠ [] ∧ ' ' ∉ p.1.toList ∧
    ∀ c ∈ p.1.toList.head?, isSkipped c = false ∧ c ≠ '"' := by
  have hall : fixedSpellings.all (fun p => !p.1.toList.isEmpty && !p.1.toList.contains ' ' &&
      p.1.toList.head?.all fun c => !isSkipped c && c != '"') = true := by decide +kernel
  simpa [List.all_eq_true, and_assoc, Option.all_eq_true] using hall

theorem Rule.labelled_front : ∀ p ∈ labelledForms, ∃ a b rest, p.1.toList = a :: b :: rest ∧
    isLetter a = true ∧ subscript? b = none ∧ isSkipped b = false ∧ isLetter b = false ∧
      isDigit b = false ∧ b ∉ ['L', '.', '⌊', '"'] := by
  simp only [labelledForms, List.forall_mem_cons, List.not_mem_nil, false_imp_iff, implies_true,
    and_true]
  exact ⟨⟨'L', 'b', ['l'], rfl, by decide⟩, ⟨'G', 'o', ['t', 'o'], rfl, by decide⟩⟩

/-- No fixed spelling begins like a keyword with a name, or like its second character and the next
one. -/
theorem Rule.labelled_apart : ∀ p ∈ labelledForms, ∀ q ∈ fixedSpellings,
    ¬q.1.toList.take 2 <+: p.1.toList.take 2 ∧ ¬q.1.toList.take 2 <+: (p.1.toList.drop 1).take 2 := by
  simp only [labelledForms, List.forall_mem_cons, List.not_mem_nil, false_imp_iff, implies_true,
    and_true]
  decide +kernel

theorem Rule.labelled_length : ∀ p ∈ labelledForms, 2 ≤ (p.1.toList.drop 1).length := by
  simp [labelledForms]

theorem Rule.labelled_injective : ∀ p ∈ labelledForms, ∀ q ∈ labelledForms,
    p.1.toList.take 2 = q.1.toList.take 2 → p = q := by
  simp [labelledForms]

theorem isDigit_of_isLetter {c : Char} (h : isLetter c = true) : isDigit c = false := by
  have hcode := isLetter_iff_toNat.mp h
  by_contra hc
  have := isDigit_iff_toNat.mp (Bool.not_eq_false _ ▸ hc)
  omega

theorem Word.ne_nil {l : List Char} {t : Token} (h : Word l t) : l ≠ [] := by
  cases h with
  | fixed h => exact (Rule.fixed_front _ h).1
  | whole hne => exact hne
  | labelled _ _ hne => simp [hne]
  | letter | listName | freeName | fraction | text => simp

/-- All that a word can be, by its first character. -/
theorem Word.cons_cases {c : Char} {l : List Char} {t : Token} (h : Word (c :: l) t) :
    (∃ p ∈ Rule.fixedSpellings, p.1.toList = c :: l) ∨
    (isLetter c = true ∧ l = []) ∨
    (c = 'L' ∧ ∃ d, l = [d] ∧ Rule.subscript? d ≠ none) ∨
    (c = '⌊' ∧ ∀ d ∈ l, Rule.isNameChar d = true) ∨
    ((isDigit c = true ∨ c = '.') ∧ ∀ d ∈ l, isDigit d = true ∨ d = '.') ∨
    (c = '"' ∧ ∃ content, l = content ++ ['"'] ∧ ∀ d ∈ content, d ≠ '"' ∧ d ≠ '\n') ∨
    ∃ p ∈ Rule.labelledForms, Named p.1 (c :: l) := by
  generalize hm : c :: l = m at h
  cases h with
  | fixed h => exact .inl ⟨_, h, rfl⟩
  | letter hc =>
    cases hm
    exact .inr (.inl ⟨hc, rfl⟩)
  | listName hc =>
    cases hm
    exact .inr (.inr (.inl ⟨rfl, _, rfl, Option.ne_none_iff_exists'.mpr ⟨_, hc⟩⟩))
  | freeName hc hcs =>
    cases hm
    refine .inr (.inr (.inr (.inl ⟨rfl, fun d hd => ?_⟩)))
    rcases List.mem_cons.mp hd with rfl | hd
    · simp [Rule.isNameChar, hc]
    · exact hcs d hd
  | whole hne hdigits =>
    subst hm
    exact .inr (.inr (.inr (.inr (.inl ⟨.inl (hdigits c List.mem_cons_self), fun d hd =>
      .inl (hdigits d (List.mem_cons_of_mem c hd))⟩))))
  | @fraction digits decimals hne hdigits hdecimals =>
    have hall : ∀ d ∈ digits ++ '.' :: decimals, isDigit d = true ∨ d = '.' := by
      intro d hd
      rcases List.mem_append.mp hd with hd | hd
      · exact .inl (hdigits d hd)
      · rcases List.mem_cons.mp hd with rfl | hd
        · exact .inr rfl
        · exact .inl (hdecimals d hd)
    rw [← hm] at hall
    exact .inr (.inr (.inr (.inr (.inl ⟨hall c List.mem_cons_self, fun d hd =>
      hall d (List.mem_cons_of_mem c hd)⟩))))
  | text h =>
    obtain ⟨rfl, rfl⟩ := List.cons.inj hm
    exact .inr (.inr (.inr (.inr (.inr (.inl ⟨rfl, _, rfl, h⟩)))))
  | labelled h hgap hne hname =>
    exact .inr (.inr (.inr (.inr (.inr (.inr ⟨_, h, _, _, rfl, hgap, hne, hname⟩)))))

theorem Named.front {p : String × (String → Token)} (hp : p ∈ Rule.labelledForms) {c : Char}
    {l : List Char} (h : Named p.1 (c :: l)) : isLetter c = true := by
  obtain ⟨gap, name, heq, -⟩ := h
  obtain ⟨a, b, rest, hab, ha, -⟩ := Rule.labelled_front p hp
  rw [hab] at heq
  rw [(List.cons.inj heq).1]
  exact ha

/-- No word begins with a character that is skipped. -/
theorem Word.not_isSkipped {c : Char} {l : List Char} {t : Token} (h : Word (c :: l) t) :
    isSkipped c = false := by
  have hother (hc : isLetter c = true ∨ isDigit c = true ∨ c ∈ ['.', '⌊', '"']) :
      isSkipped c = false := by
    by_contra hskip
    simp only [isSkipped, Bool.not_eq_false, Bool.or_eq_true, beq_iff_eq] at hskip
    rcases hskip with (rfl | rfl) | rfl <;> revert hc <;> decide
  rcases h.cons_cases with ⟨p, hp, heq⟩ | ⟨hc, -⟩ | ⟨rfl, -⟩ | ⟨rfl, -⟩ | ⟨hc | rfl, -⟩ | ⟨rfl, -⟩ |
    ⟨p, hp, hnamed⟩
  · exact ((Rule.fixed_front p hp).2.2 c (by rw [heq]; rfl)).1
  · exact hother (.inl hc)
  · rfl
  · rfl
  · exact hother (.inr (.inl hc))
  · rfl
  · rfl
  · exact hother (.inl (hnamed.front hp))

/-- A word that begins with a quote is a text. -/
theorem Word.text_of_quote {l : List Char} {t : Token} (h : Word ('"' :: l) t) :
    ∃ content, l = content ++ ['"'] ∧ ∀ d ∈ content, d ≠ '"' ∧ d ≠ '\n' := by
  rcases h.cons_cases with ⟨p, hp, heq⟩ | ⟨hc, -⟩ | ⟨hc, -⟩ | ⟨hc, -⟩ | ⟨hc | hc, -⟩ | ⟨-, hword⟩ |
    ⟨p, hp, hnamed⟩
  · exact absurd rfl ((Rule.fixed_front p hp).2.2 '"' (by rw [heq]; rfl)).2
  · cases hc
  · cases hc
  · cases hc
  · cases hc
  · cases hc
  · exact hword
  · cases hnamed.front hp

/-- A word that begins with the first two characters of a keyword with a name is one. -/
theorem Word.named_of_take {p : String × (String → Token)} (hp : p ∈ Rule.labelledForms)
    {l : List Char} {t : Token} (h : Word l t) (hl : p.1.toList.take 2 <+: l) : Named p.1 l := by
  obtain ⟨a, b, more, hab, ha, hb, -⟩ := Rule.labelled_front p hp
  have htake : p.1.toList.take 2 = [a, b] := by
    rw [hab]
    rfl
  rw [htake] at hl
  obtain ⟨rest, rfl⟩ := hl
  rcases h.cons_cases with ⟨q, hq, heq⟩ | ⟨-, hnil⟩ | ⟨-, d, hd, hsub⟩ | ⟨rfl, -⟩ | ⟨hdigit | rfl, -⟩ |
    ⟨rfl, -⟩ | ⟨q, hq, hnamed⟩
  · have hq2 : q.1.toList.take 2 = p.1.toList.take 2 := by
      rw [heq, htake]
      rfl
    exact absurd (hq2 ▸ List.prefix_rfl) (Rule.labelled_apart p hp q hq).1
  · cases hnil
  · cases hd
    exact absurd hb hsub
  · cases ha
  · rw [isDigit_of_isLetter ha] at hdigit
    cases hdigit
  · cases ha
  · cases ha
  · have hq2 : q.1.toList.take 2 = p.1.toList.take 2 := by
      obtain ⟨gap, name, heq, -⟩ := hnamed
      obtain ⟨a', b', more', hab', -⟩ := Rule.labelled_front q hq
      rw [hab'] at heq
      cases heq
      rw [hab', htake]
      rfl
    obtain rfl := Rule.labelled_injective q hq p hp hq2
    exact hnamed

/-- No word stands behind the first letter of a keyword with a name. -/
theorem Word.not_in_keyword {p : String × (String → Token)} (hp : p ∈ Rule.labelledForms)
    {l : List Char} {t : Token} (h : Word l t) (rest : List Char) :
    ¬l <+: p.1.toList.drop 1 ++ rest := by
  intro hl
  obtain ⟨a, b, more, hab, -, hsub, -, hletter, hdigit, hother⟩ := Rule.labelled_front p hp
  obtain ⟨c, l, rfl⟩ := List.exists_cons_of_ne_nil h.ne_nil
  obtain rfl : c = b := by
    rw [hab] at hl
    exact (List.cons_prefix_cons.mp hl).1
  simp only [List.mem_cons, List.not_mem_nil, or_false, not_or] at hother
  obtain ⟨hL, hpoint, hfloor, hquote⟩ := hother
  rcases h.cons_cases with ⟨q, hq, heq⟩ | ⟨hc, -⟩ | ⟨hc, -⟩ | ⟨hc, -⟩ | ⟨hc | hc, -⟩ | ⟨hc, -⟩ |
    ⟨q, hq, hnamed⟩
  · have htake : (p.1.toList.drop 1 ++ rest).take 2 = (p.1.toList.drop 1).take 2 :=
      List.take_append_of_le_length (Rule.labelled_length p hp)
    have hfront := List.IsPrefix.take hl 2
    rw [← heq, htake] at hfront
    exact (Rule.labelled_apart p hp q hq).2 hfront
  · rw [hletter] at hc
    cases hc
  · exact hL hc
  · exact hfloor hc
  · rw [hdigit] at hc
    cases hc
  · exact hpoint hc
  · exact hquote hc
  · rw [hnamed.front hq] at hletter
    cases hletter

end CalcBasic
