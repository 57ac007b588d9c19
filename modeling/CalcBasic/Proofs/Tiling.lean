import CalcBasic.Proofs.Words

/-!
# Tiling

Reading cuts a text into longest words, with nothing but skipped characters between them
(`Tiles`), and it finds such a tiling whenever there is one (`Token.read_tiles`).

1. The next token is the longest word, unless a form is left unfinished there
   (`Token.next_longest`, `Token.next_eq_ok`).
2. Where a form is left unfinished, a word may still stand: the keyword's first letter. The text has
   no tiling all the same, since no word stands behind it (`Tiling.unfinishedForm?_eq_none`).
3. So reading on from a place succeeds with the tokens of the tiling from there
   (`Token.readFrom_eq_ok_iff`).
4. A tiling, which is built word by word, is the same as tokens in order whose places are those of
   longest words and leave only skipped characters out (`Tiling.tiles`, `Tiles.tiling`).
-/

namespace CalcBasic

/-! ## Lengths in bytes -/

theorem byteLength_append (cs ds : List Char) :
    byteLength (cs ++ ds) = byteLength cs + byteLength ds := by
  induction cs with
  | nil => exact (Nat.zero_add _).symm
  | cons c cs ih => rw [List.cons_append, byteLength_cons, byteLength_cons, ih, Nat.add_assoc]

theorem byteLength_pos {cs : List Char} (h : cs ≠ []) : 0 < byteLength cs := by
  obtain ⟨c, cs, rfl⟩ := List.exists_cons_of_ne_nil h
  rw [byteLength_cons]
  have := c.utf8Size_pos
  omega

/-- Of two fronts of a text, the one with fewer bytes is the front of the other. -/
theorem prefix_of_byteLength_le {cs ds text : List Char} (hcs : cs <+: text) (hds : ds <+: text)
    (h : byteLength cs ≤ byteLength ds) : cs <+: ds := by
  rcases List.prefix_or_prefix_of_prefix hcs hds with hprefix | ⟨rest, rfl⟩
  · exact hprefix
  · rcases rest with _ | ⟨c, rest⟩
    · rw [List.append_nil]
    · have := byteLength_pos (List.cons_ne_nil c rest)
      rw [byteLength_append] at h
      omega

/-! ## The next token -/

namespace Rule

/-- Where a form is left unfinished, no word stands or a keyword lacks its name. -/
theorem unfinishedForm?_cases {cs slice : List Char} (h : unfinishedForm? cs = some slice) :
    (∃ rest, cs = '"' :: rest ∧ ∀ more, rest.dropWhile isTextChar ≠ '"' :: more) ∨
      ∃ p ∈ labelledForms, ∃ rest, cs = p.1.toList ++ rest ∧
        (rest.dropWhile isGap).takeWhile isNameChar = [] := by
  obtain ⟨r, hr, hform⟩ := List.exists_of_findSome?_eq_some h
  rcases mem_all.mp hr with rfl | rfl | rfl | rfl | rfl | ⟨p, hp, rfl⟩ | ⟨p, hp, rfl⟩
  case inr.inr.inr.inr.inl =>
    simp only [unfinished?, drop_takeWhile] at hform
    split at hform
    · rename_i rest
      split at hform
      · cases hform
      · rename_i hopen
        exact .inl ⟨rest, rfl, hopen⟩
    · cases hform
  case inr.inr.inr.inr.inr.inl =>
    simp only [unfinished?, drop_takeWhile, Option.bind_eq_bind, Option.bind_eq_some_iff] at hform
    obtain ⟨rest, hrest, hname⟩ := hform
    split at hname
    · rename_i hempty
      exact .inr ⟨p, hp, rest, after?_eq_some hrest, List.isEmpty_iff.mp hempty⟩
    · cases hname
  all_goals cases hform

end Rule

/-- The next token is the longest word. -/
theorem Token.next_longest {c : Char} {cs lexeme : List Char} {token : Token}
    (h : Token.next c cs = .ok (token, lexeme)) : Longest (c :: cs) lexeme token := by
  unfold Token.next at h
  split at h
  · cases h
  · split at h
    · rename_i hlongest
      cases h
      exact Rule.longest?_eq_some hlongest
    · cases h

/-- Where no form is left unfinished, the longest word is the next token. -/
theorem Token.next_eq_ok {c : Char} {cs lexeme : List Char} {token : Token}
    (hform : Rule.unfinishedForm? (c :: cs) = none) (h : Longest (c :: cs) lexeme token) :
    Token.next c cs = .ok (token, lexeme) := by
  rcases hlongest : Rule.longest? (c :: cs) with _ | ⟨r, l⟩
  · exact absurd hlongest (Rule.longest?_ne_none h.word h.isPrefix)
  · obtain ⟨rfl, rfl⟩ := h.unique (Rule.longest?_eq_some hlongest)
    simp only [Token.next, hform, hlongest]

/-! ## Tilings -/

/-- The tokens of a text that begins at a byte offset: longest words, with skipped characters between
them. -/
inductive Tiling : Nat → List Char → List (Spanned Token) → Prop
  | done {offset : Nat} : Tiling offset [] []
  | skip {offset : Nat} {c : Char} {cs : List Char} {ts : List (Spanned Token)}
      (hc : isSkipped c = true) (hrest : Tiling (offset + c.utf8Size) cs ts) :
      Tiling offset (c :: cs) ts
  | word {offset : Nat} {lexeme cs : List Char} {token : Token} {ts : List (Spanned Token)}
      (h : Longest (lexeme ++ cs) lexeme token)
      (hrest : Tiling (offset + byteLength lexeme) cs ts) :
      Tiling offset (lexeme ++ cs) (⟨token, ⟨offset, offset + byteLength lexeme⟩⟩ :: ts)

/-- At a character that is not skipped stands a word. -/
theorem Tiling.exists_word {offset : Nat} {c : Char} {cs : List Char} {ts : List (Spanned Token)}
    (h : Tiling offset (c :: cs) ts) (hc : isSkipped c = false) : ∃ l t, Word l t ∧ l <+: c :: cs := by
  generalize htext : c :: cs = text at h
  cases h with
  | done => cases htext
  | skip hskip =>
    cases htext
    rw [hskip] at hc
    cases hc
  | word h => exact ⟨_, _, h.word, h.isPrefix⟩

/-- A text that begins with a word and a quote is closed. -/
theorem Word.dropWhile_quote {l rest : List Char} {t : Token} (h : Word ('"' :: l) t) :
    (l ++ rest).dropWhile Rule.isTextChar = '"' :: rest := by
  obtain ⟨content, rfl, hcontent⟩ := h.text_of_quote
  have hall : ∀ c ∈ content, Rule.isTextChar c = true := fun c hc =>
    Rule.isTextChar_iff.mpr (hcontent c hc)
  have hstop : ∀ c ∈ ('"' :: rest).head?, Rule.isTextChar c = false := by
    rintro _ ⟨⟩
    rfl
  rw [List.append_assoc, List.singleton_append, List.dropWhile_append_of_pos hall,
    dropWhile_eq_self_of_head hstop]

/-- Behind a keyword with a name, the name is read. -/
theorem Named.takeWhile_ne_nil {keyword : String} {l cs rest : List Char} (h : Named keyword l)
    (heq : l ++ cs = keyword.toList ++ rest) :
    (rest.dropWhile Rule.isGap).takeWhile Rule.isNameChar ≠ [] := by
  obtain ⟨gap, name, rfl, hgap, hne, hname⟩ := h
  simp only [List.append_assoc] at heq
  obtain rfl := List.append_cancel_left heq
  rw [(Rule.gap_before_name hgap hne hname cs).2]
  exact List.ne_nil_of_length_pos
    (Nat.lt_of_lt_of_le (List.length_pos_iff.mpr hne) (Rule.length_le_takeWhile hname cs))

/-- Before a tiling, a longest word leaves no form unfinished. -/
theorem Tiling.unfinishedForm?_eq_none {offset : Nat} {lexeme cs : List Char} {token : Token}
    {ts : List (Spanned Token)} (h : Word lexeme token) (hrest : Tiling offset cs ts) :
    Rule.unfinishedForm? (lexeme ++ cs) = none := by
  obtain ⟨c, l, rfl⟩ := List.exists_cons_of_ne_nil h.ne_nil
  rcases hform : Rule.unfinishedForm? (c :: l ++ cs) with _ | slice
  · rfl
  · exfalso
    rcases Rule.unfinishedForm?_cases hform with ⟨rest, heq, hopen⟩ | ⟨p, hp, rest, heq, hname⟩
    · obtain ⟨rfl, rfl⟩ : c = '"' ∧ l ++ cs = rest := List.cons.inj heq
      exact hopen cs h.dropWhile_quote
    · obtain ⟨a, b, more, hab, -, -, hskip, -⟩ := Rule.labelled_front p hp
      rcases l with _ | ⟨d, l⟩
      -- The word is the first letter of the keyword, and no word stands behind it.
      · have hcs : cs = p.1.toList.drop 1 ++ rest := by
          rw [hab] at heq ⊢
          exact (List.cons.inj heq).2
        rw [hcs, hab] at hrest
        obtain ⟨m, u, hm, hprefix⟩ := hrest.exists_word hskip
        refine hm.not_in_keyword hp rest ?_
        rwa [hab]
      -- The word goes on with the keyword, so it has a name.
      · have htake : p.1.toList.take 2 <+: c :: d :: l := by
          rw [hab] at heq ⊢
          obtain ⟨rfl, hback⟩ := List.cons.inj heq
          obtain ⟨rfl, -⟩ := List.cons.inj hback
          exact ⟨l, rfl⟩
        exact (h.named_of_take hp htake).takeWhile_ne_nil heq hname

/-! ## Reading -/

namespace Token

/-- Reading passes over the characters of the token read last. -/
theorem readFrom_skip (front cs : List Char) (offset : Nat) (tokens : List (Spanned Token)) :
    readFrom front.length offset tokens (front ++ cs) =
      readFrom 0 (offset + byteLength front) tokens cs := by
  induction front generalizing offset with
  | nil => rfl
  | cons c front ih =>
    rw [List.length_cons, List.cons_append, readFrom, ih, byteLength_cons, Nat.add_assoc]

theorem readFrom_next {c : Char} {cs l rest : List Char} {token : Token} (hc : isSkipped c = false)
    (hnext : next c cs = .ok (token, c :: l)) (hcs : cs = l ++ rest) (offset : Nat)
    (tokens : List (Spanned Token)) :
    readFrom 0 offset tokens (c :: cs) =
      readFrom 0 (offset + byteLength (c :: l))
        (⟨token, ⟨offset, offset + byteLength (c :: l)⟩⟩ :: tokens) rest := by
  rw [readFrom, if_neg (by simp [hc]), hnext]
  dsimp only
  rw [List.length_cons, Nat.add_sub_cancel, hcs, readFrom_skip, byteLength_cons, Nat.add_assoc]

end Token

/-- The tokens of a tiling are read. -/
theorem Tiling.readFrom_eq {offset : Nat} {cs : List Char} {ts : List (Spanned Token)}
    (h : Tiling offset cs ts) (tokens : List (Spanned Token)) :
    Token.readFrom 0 offset tokens cs = .ok (tokens.reverse ++ ts) := by
  induction h generalizing tokens with
  | done => rw [Token.readFrom, List.append_nil]
  | skip hc hrest ih => rw [Token.readFrom, if_pos hc, ih]
  | @word offset lexeme cs token ts h hrest ih =>
    obtain ⟨c, l, rfl⟩ := List.exists_cons_of_ne_nil h.word.ne_nil
    have hnext : Token.next c (l ++ cs) = .ok (token, c :: l) :=
      Token.next_eq_ok (Tiling.unfinishedForm?_eq_none h.word hrest) h
    rw [List.cons_append, Token.readFrom_next h.word.not_isSkipped hnext rfl, ih, List.reverse_cons,
      List.append_assoc, List.singleton_append]

/-- What is read is a tiling. -/
theorem Tiling.of_readFrom {offset : Nat} {cs : List Char} {tokens ts : List (Spanned Token)}
    (h : Token.readFrom 0 offset tokens cs = .ok ts) :
    ∃ us, ts = tokens.reverse ++ us ∧ Tiling offset cs us := by
  induction hn : cs.length using Nat.strong_induction_on generalizing cs offset tokens with
  | _ n ih =>
    subst hn
    rcases cs with _ | ⟨c, cs⟩
    · cases h
      exact ⟨[], (List.append_nil _).symm, .done⟩
    · by_cases hc : isSkipped c = true
      · rw [Token.readFrom, if_pos hc] at h
        obtain ⟨us, rfl, hus⟩ := ih cs.length (Nat.lt_succ_self _) h rfl
        exact ⟨us, rfl, .skip hc hus⟩
      · rcases hnext : Token.next c cs with slice | ⟨token, lexeme⟩
        · rw [Token.readFrom, if_neg hc, hnext] at h
          cases h
        · have hlongest := Token.next_longest hnext
          obtain ⟨rest, hrest⟩ := hlongest.isPrefix
          obtain ⟨d, l, rfl⟩ := List.exists_cons_of_ne_nil hlongest.word.ne_nil
          obtain ⟨rfl, hcs⟩ : d = c ∧ l ++ rest = cs := List.cons.inj hrest
          rw [Token.readFrom_next (by simpa using hc) hnext hcs.symm] at h
          have hlt : rest.length < (d :: cs).length := by
            rw [← hcs, List.length_cons, List.length_append]
            omega
          obtain ⟨us, rfl, hus⟩ := ih rest.length hlt h rfl
          refine ⟨⟨token, ⟨offset, offset + byteLength (d :: l)⟩⟩ :: us, by simp, ?_⟩
          rw [← hrest] at hlongest ⊢
          exact .word hlongest hus

/-- **Reading succeeds with the tokens of a tiling.** -/
theorem Token.readFrom_eq_ok_iff {offset : Nat} {cs : List Char} {tokens ts : List (Spanned Token)} :
    Token.readFrom 0 offset tokens cs = .ok ts ↔
      ∃ us, ts = tokens.reverse ++ us ∧ Tiling offset cs us := by
  constructor
  · exact Tiling.of_readFrom
  · rintro ⟨us, rfl, hus⟩
    exact hus.readFrom_eq tokens

theorem Token.read_eq_ok_tiling {source : String} {ts : List (Spanned Token)} :
    Token.read source = .ok ts ↔ Tiling 0 source.toList ts := by
  rw [Token.read, Token.readFrom_eq_ok_iff]
  constructor
  · rintro ⟨us, rfl, hus⟩
    exact hus
  · exact fun h => ⟨ts, rfl, h⟩

/-! ## Places of the tokens -/

/-- In a text that begins at a byte offset, the token stands for the longest word at its place, whose
bytes its span holds. -/
def Tile (offset : Nat) (text : List Char) (t : Spanned Token) : Prop :=
  ∃ before lexeme rest, text = before ++ (lexeme ++ rest) ∧
    t.span = ⟨offset + byteLength before, offset + byteLength (before ++ lexeme)⟩ ∧
    Longest (lexeme ++ rest) lexeme t.node

/-- Tokens that stand in order for the longest words at their places, and leave only skipped
characters out. -/
structure Tiles (offset : Nat) (text : List Char) (ts : List (Spanned Token)) : Prop where
  nonempty : ∀ t ∈ ts, t.span.start < t.span.stop
  inOrder : ts.Pairwise fun t u => t.span.stop ≤ u.span.start
  tile : ∀ t ∈ ts, Tile offset text t
  between : ∀ before c rest, text = before ++ c :: rest →
    (∃ t ∈ ts, t.span.start ≤ offset + byteLength before ∧
      offset + byteLength before < t.span.stop) ∨ isSkipped c = true

theorem Tile.start_le {offset : Nat} {text : List Char} {t : Spanned Token} (h : Tile offset text t) :
    offset ≤ t.span.start := by
  obtain ⟨before, lexeme, rest, -, hspan, -⟩ := h
  rw [hspan]
  exact Nat.le_add_right _ _

theorem Tile.behind {offset : Nat} {front text : List Char} {t : Spanned Token}
    (h : Tile (offset + byteLength front) text t) : Tile offset (front ++ text) t := by
  obtain ⟨before, lexeme, rest, rfl, hspan, hlongest⟩ := h
  refine ⟨front ++ before, lexeme, rest, (List.append_assoc _ _ _).symm, ?_, hlongest⟩
  simp only [hspan, byteLength_append, Nat.add_assoc]

/-- A tiling puts each token in its place. -/
theorem Tiling.tiles {offset : Nat} {text : List Char} {ts : List (Spanned Token)}
    (h : Tiling offset text ts) : Tiles offset text ts := by
  induction h with
  | done => exact ⟨nofun, .nil, nofun, fun before c rest heq => by cases before <;> cases heq⟩
  | @skip offset c cs ts hc hrest ih =>
    have hsize : offset + c.utf8Size = offset + byteLength [c] := by
      rw [byteLength_cons]
      rfl
    refine ⟨ih.nonempty, ih.inOrder, fun t ht => (hsize ▸ ih.tile t ht).behind, ?_⟩
    rintro (_ | ⟨d, before⟩) e rest heq
    · cases heq
      exact .inr hc
    · obtain ⟨rfl, hcs⟩ := List.cons.inj heq
      rw [byteLength_cons, ← Nat.add_assoc]
      exact ih.between before e rest hcs
  | @word offset lexeme cs token ts hlongest hrest ih =>
    have hpos := byteLength_pos hlongest.word.ne_nil
    refine ⟨?_, ?_, ?_, ?_⟩
    · rintro t (_ | ⟨_, ht⟩)
      · exact Nat.lt_add_of_pos_right hpos
      · exact ih.nonempty t ht
    · exact List.pairwise_cons.mpr ⟨fun t ht => (ih.tile t ht).start_le, ih.inOrder⟩
    · rintro t (_ | ⟨_, ht⟩)
      · exact ⟨[], lexeme, cs, rfl, rfl, hlongest⟩
      · exact (ih.tile t ht).behind
    · intro before c rest heq
      by_cases hlt : byteLength before < byteLength lexeme
      · exact .inl ⟨_, List.mem_cons_self, Nat.le_add_right _ _, Nat.add_lt_add_left hlt offset⟩
      · obtain ⟨more, rfl⟩ := prefix_of_byteLength_le (List.prefix_append lexeme cs)
          ⟨c :: rest, heq.symm⟩ (Nat.le_of_not_lt hlt)
        rw [List.append_assoc] at heq
        rcases ih.between more c rest (List.append_cancel_left heq) with ⟨t, ht, hstart, hstop⟩ | hc
        · rw [byteLength_append, ← Nat.add_assoc]
          exact .inl ⟨t, List.mem_cons_of_mem _ ht, hstart, hstop⟩
        · exact .inr hc

/-- Behind the first tokens and their part of the text, the others are in their places. -/
theorem Tiles.behind {offset : Nat} (front : List Char) {text : List Char}
    (ts : List (Spanned Token)) {us : List (Spanned Token)}
    (h : Tiles offset (front ++ text) (ts ++ us))
    (hts : ∀ t ∈ ts, t.span.stop ≤ offset + byteLength front)
    (hus : ∀ u ∈ us, offset + byteLength front ≤ u.span.start) :
    Tiles (offset + byteLength front) text us := by
  refine ⟨fun u hu => h.nonempty u (List.mem_append_right ts hu),
    (List.pairwise_append.mp h.inOrder).2.1, fun u hu => ?_, fun before c rest heq => ?_⟩
  · obtain ⟨before, lexeme, rest, heq, hspan, hlongest⟩ := h.tile u (List.mem_append_right ts hu)
    have hle := hus u hu
    rw [hspan] at hle
    obtain ⟨before, rfl⟩ := prefix_of_byteLength_le (List.prefix_append front text)
      ⟨lexeme ++ rest, heq.symm⟩ (Nat.le_of_add_le_add_left hle)
    refine ⟨before, lexeme, rest, ?_, ?_, hlongest⟩
    · rw [List.append_assoc] at heq
      exact List.append_cancel_left heq
    · simp only [hspan, byteLength_append, Nat.add_assoc]
  · have hcover := h.between (front ++ before) c rest (by rw [heq, List.append_assoc])
    rw [byteLength_append, ← Nat.add_assoc] at hcover
    rcases hcover with ⟨t, ht, hstart, hstop⟩ | hc
    · rcases List.mem_append.mp ht with ht | hu
      · have := hts t ht
        omega
      · exact .inl ⟨t, hu, hstart, hstop⟩
    · exact .inr hc

/-- A token at the front of the text is the first one. -/
theorem Tiles.eq_cons {offset : Nat} {text : List Char} {t : Spanned Token}
    {ts : List (Spanned Token)} (h : Tiles offset text ts) (ht : t ∈ ts)
    (hstart : t.span.start ≤ offset) : ∃ us, ts = t :: us := by
  rcases ts with _ | ⟨u, us⟩
  · cases ht
  · rcases List.mem_cons.mp ht with rfl | ht
    · exact ⟨us, rfl⟩
    · have hle := (List.pairwise_cons.mp h.inOrder).1 t ht
      have hlt := h.nonempty u List.mem_cons_self
      have hge := (h.tile u List.mem_cons_self).start_le
      omega

/-- Such a token stands for the longest word there, and the others are in their places behind it. -/
theorem Tiles.word_front {offset : Nat} {text : List Char} {t : Spanned Token}
    {ts : List (Spanned Token)} (h : Tiles offset text ts) (ht : t ∈ ts)
    (hstart : t.span.start ≤ offset) :
    ∃ token lexeme rest us, text = lexeme ++ rest ∧
      ts = ⟨token, ⟨offset, offset + byteLength lexeme⟩⟩ :: us ∧
      Longest (lexeme ++ rest) lexeme token ∧ Tiles (offset + byteLength lexeme) rest us := by
  obtain ⟨us, rfl⟩ := h.eq_cons ht hstart
  obtain ⟨before, lexeme, rest, heq, hspan, hlongest⟩ := h.tile t ht
  obtain ⟨token, span⟩ := t
  dsimp only at hspan hstart hlongest
  subst hspan
  have hlength : byteLength before = 0 := by
    dsimp only at hstart
    omega
  obtain rfl : before = [] := by
    by_contra hne
    exact (byteLength_pos hne).ne' hlength
  refine ⟨token, lexeme, rest, us, heq, rfl, hlongest, ?_⟩
  rw [heq, List.nil_append] at h
  exact h.behind lexeme [_] (by simp) fun u hu => (List.pairwise_cons.mp h.inOrder).1 u hu

/-- Where no token stands at the front, the first character is skipped. -/
theorem Tiles.skip_front {offset : Nat} {c : Char} {cs : List Char} {ts : List (Spanned Token)}
    (h : Tiles offset (c :: cs) ts) (hstart : ∀ t ∈ ts, offset < t.span.start) :
    isSkipped c = true ∧ Tiles (offset + c.utf8Size) cs ts := by
  have hsize : c.utf8Size = byteLength [c] := (byteLength_cons c []).symm
  constructor
  · rcases h.between [] c cs rfl with ⟨t, ht, hle, -⟩ | hc
    · exact absurd hle (Nat.not_le_of_lt (hstart t ht))
    · exact hc
  · rw [hsize]
    refine Tiles.behind [c] [] h nofun fun t ht => ?_
    obtain ⟨before, lexeme, rest, heq, hspan, -⟩ := h.tile t ht
    have hlt := hstart t ht
    rw [hspan] at hlt ⊢
    rcases before with _ | ⟨d, before⟩
    · exact absurd hlt (Nat.lt_irrefl offset)
    · obtain ⟨rfl, -⟩ := List.cons.inj heq
      rw [← hsize]
      dsimp only
      rw [byteLength_cons]
      omega

/-- Tokens in their places are a tiling. -/
theorem Tiles.tiling {offset : Nat} {text : List Char} {ts : List (Spanned Token)}
    (h : Tiles offset text ts) : Tiling offset text ts := by
  induction hn : text.length using Nat.strong_induction_on generalizing offset text ts with
  | _ n ih =>
    subst hn
    rcases text with _ | ⟨c, cs⟩
    · rcases ts with _ | ⟨t, ts⟩
      · exact .done
      · obtain ⟨before, lexeme, rest, heq, -, hlongest⟩ := h.tile t List.mem_cons_self
        simp [hlongest.word.ne_nil] at heq
    · by_cases hfirst : ∃ t ∈ ts, t.span.start ≤ offset
      · obtain ⟨t, ht, hstart⟩ := hfirst
        obtain ⟨token, lexeme, rest, us, heq, rfl, hlongest, hrest⟩ := h.word_front ht hstart
        have hlt : rest.length < (c :: cs).length := by
          have := List.length_pos_iff.mpr hlongest.word.ne_nil
          rw [heq, List.length_append]
          omega
        rw [heq]
        exact .word hlongest (ih rest.length hlt hrest rfl)
      · obtain ⟨hc, hrest⟩ := h.skip_front fun t ht => Nat.lt_of_not_le fun hle => hfirst ⟨t, ht, hle⟩
        exact .skip hc (ih cs.length (Nat.lt_succ_self _) hrest rfl)

/-- **Tokens tile the source by longest words.** Reading succeeds with the tokens that stand in order
for the longest words at their places, with only skipped characters before, between and after them,
and it fails only where there are no such tokens. -/
theorem Token.read_tiles (source : String) :
    (∀ ts, Token.read source = .ok ts ↔ Tiles 0 source.toList ts) ∧
      ((∃ u, Token.read source = .error u) ↔ ∀ ts, ¬Tiles 0 source.toList ts) := by
  have hread : ∀ ts, Token.read source = .ok ts ↔ Tiles 0 source.toList ts := fun ts =>
    Token.read_eq_ok_tiling.trans ⟨Tiling.tiles, Tiles.tiling⟩
  refine ⟨hread, ?_⟩
  rcases h : Token.read source with u | ts
  · refine ⟨fun _ ts hts => ?_, fun _ => ⟨u, rfl⟩⟩
    cases h.symm.trans ((hread ts).mpr hts)
  · refine ⟨nofun, fun hnone => absurd ((hread ts).mp h) (hnone ts)⟩

end CalcBasic
