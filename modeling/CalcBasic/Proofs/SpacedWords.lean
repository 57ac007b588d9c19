import CalcBasic.Proofs.Tiling

/-!
# Spaced words

Words with single spaces between them are read back as their tokens, each at its place
(`Token.read_spaced`). A space ends every word (`Word.longest`): the words that hold spaces
themselves are texts, which end at their second quote, and keywords with a name, whose spaces stand
before the name.
-/

namespace CalcBasic

/-! ## A space ends a word -/

/-- No word goes on over a space behind a text that is closed. -/
theorem Word.not_text_append {l more : List Char} {t : Token} (h : Word ('"' :: l) t)
    {content : List Char} (hcontent : ∀ c ∈ content, c ≠ '"' ∧ c ≠ '\n') :
    l ++ ' ' :: more ≠ content ++ ['"'] := by
  obtain ⟨content', rfl, -⟩ := h.text_of_quote
  intro heq
  have hlength : content'.length + 1 ≤ content.length := by
    have := congrArg List.length heq
    simp only [List.length_append, List.length_cons, List.length_nil] at this
    omega
  have hfront : content' ++ ['"'] <+: content :=
    List.prefix_of_prefix_length_le ⟨' ' :: more, heq⟩ ⟨['"'], rfl⟩ (by simpa using hlength)
  exact (hcontent '"' (hfront.subset (by simp))).1 rfl

/-- No keyword with a name goes on over a space behind the name. -/
theorem Named.not_append {keyword : String} {l more : List Char} (h : Named keyword l) :
    ¬Named keyword (l ++ ' ' :: more) := by
  obtain ⟨gap, name, rfl, hgap, hne, hname⟩ := h
  rintro ⟨gap', name', heq, hgap', hne', hname'⟩
  simp only [List.append_assoc] at heq
  have hrest := List.append_cancel_left heq
  have hsplit := Rule.gap_before_name hgap hne hname (' ' :: more)
  have hsplit' := Rule.gap_before_name hgap' hne' hname' []
  rw [List.append_nil] at hsplit'
  rw [hrest, hsplit'.2] at hsplit
  have hspace : ' ' ∈ name' := by
    rw [hsplit.2]
    simp
  cases hname' ' ' hspace

/-- A word with a space behind it is not the front of a longer word. -/
theorem Word.not_append_space {l more : List Char} {t u : Token} (h : Word l t) :
    ¬Word (l ++ ' ' :: more) u := by
  obtain ⟨c, l, rfl⟩ := List.exists_cons_of_ne_nil h.ne_nil
  intro hu
  have hspace : ' ' ∈ l ++ ' ' :: more := List.mem_append_right l List.mem_cons_self
  rcases hu.cons_cases with ⟨p, hp, heq⟩ | ⟨-, hnil⟩ | ⟨-, d, hd, hsub⟩ | ⟨-, hname⟩ | ⟨-, hdigits⟩ |
    ⟨rfl, content, heq, hcontent⟩ | ⟨p, hp, hnamed⟩
  · refine (Rule.fixed_front p hp).2.1 ?_
    rw [heq]
    exact List.mem_cons_of_mem c hspace
  · simp at hnil
  · change l ++ ' ' :: more = [d] at hd
    rw [hd, List.mem_singleton] at hspace
    exact hsub (hspace ▸ rfl)
  · cases hname ' ' hspace
  · rcases hdigits ' ' hspace with hdigit | hpoint
    · cases hdigit
    · cases hpoint
  · exact h.not_text_append hcontent heq
  · obtain ⟨a, b, rest, hab, -, -, hb, -⟩ := Rule.labelled_front p hp
    have htake : p.1.toList.take 2 <+: c :: l := by
      obtain ⟨gap, name, heq, -⟩ := hnamed
      rw [hab] at heq ⊢
      obtain ⟨rfl, hback⟩ := List.cons.inj heq
      rcases l with _ | ⟨d, l⟩
      · obtain ⟨rfl, -⟩ := List.cons.inj hback
        cases hb
      · obtain ⟨rfl, -⟩ := List.cons.inj hback
        exact ⟨l, rfl⟩
    exact (h.named_of_take hp htake).not_append hnamed

/-- A word is the longest one at the front of a text in which a space or nothing follows it. -/
theorem Word.longest {l rest : List Char} {t : Token} (h : Word l t)
    (hrest : ∀ c ∈ rest.head?, c = ' ') : Longest (l ++ rest) l t := by
  refine ⟨⟨rest, rfl⟩, h, fun {m u} hm hprefix => ?_⟩
  by_contra hlt
  obtain ⟨more, rfl⟩ := List.prefix_of_prefix_length_le ⟨rest, rfl⟩ hprefix (Nat.le_of_not_le hlt)
  rcases more with _ | ⟨c, more⟩
  · exact hlt (by simp)
  · obtain ⟨tail, htail⟩ := (List.prefix_append_right_inj l).mp hprefix
    obtain rfl : c = ' ' := hrest c (by rw [← htail]; rfl)
    exact h.not_append_space hm

/-! ## Reading words back -/

/-- The tokens of words with single spaces between them, from a byte offset on. -/
def spacedTokens : Nat → List (String × Token) → List (Spanned Token)
  | _, [] => []
  | offset, (word, token) :: words =>
    ⟨token, ⟨offset, offset + word.utf8ByteSize⟩⟩ ::
      spacedTokens (offset + word.utf8ByteSize + 1) words

theorem Tiling.spaced {words : List (String × Token)}
    (h : ∀ w ∈ words, Word w.1.toList w.2) (offset : Nat) :
    Tiling offset (" ".intercalate (words.map (·.1))).toList (spacedTokens offset words) := by
  induction words generalizing offset with
  | nil => exact .done
  | cons w words ih =>
    obtain ⟨word, token⟩ := w
    have hword : Word word.toList token := h (word, token) List.mem_cons_self
    have hrest := ih (fun w hw => h w (List.mem_cons_of_mem _ hw)) (offset + word.utf8ByteSize + 1)
    rw [spacedTokens]
    rcases words with _ | ⟨w', words⟩
    · have htiling : Tiling offset (word.toList ++ []) _ := .word (hword.longest nofun) .done
      rw [byteLength_toList, List.append_nil] at htiling
      simpa [spacedTokens] using htiling
    · rw [List.map_cons, String.intercalate_cons_of_ne_nil (by simp), String.toList_append,
        String.toList_append, List.append_assoc, ← byteLength_toList]
      refine .word (hword.longest ?_) (.skip rfl (by rwa [byteLength_toList]))
      rintro _ ⟨⟩
      rfl

/-- **Reading undoes writing.** Words with single spaces between them are read as their tokens, each
with the bytes of its word. -/
theorem Token.read_spaced (words : List (String × Token)) (h : ∀ w ∈ words, Word w.1.toList w.2) :
    Token.read (" ".intercalate (words.map (·.1))) = .ok (spacedTokens 0 words) :=
  Token.read_eq_ok_tiling.mpr (.spaced h 0)

/-- Words that begin with others, hold spaces, or write numbers. -/
theorem Token.read_spaced_mixed :
    let words : List (String × Token) :=
      [("L", .name "L"), ("L1", .name "L₁"), ("Lbl A", .label "A"), ("\"- 1\"", .text "- 1"),
        ("-", .op .sub), ("->", .mark .store), (".5", .number (Float.ofScientific 5 true 1)),
        ("For(", .keyword .for_)]
    (∀ w ∈ words, Word w.1.toList w.2) ∧
      Token.read "L L1 Lbl A \"- 1\" - -> .5 For(" = .ok
        [⟨.name "L", ⟨0, 1⟩⟩, ⟨.name "L₁", ⟨2, 4⟩⟩, ⟨.label "A", ⟨5, 10⟩⟩, ⟨.text "- 1", ⟨11, 16⟩⟩,
          ⟨.op .sub, ⟨17, 18⟩⟩, ⟨.mark .store, ⟨19, 21⟩⟩,
          ⟨.number (Float.ofScientific 5 true 1), ⟨22, 24⟩⟩, ⟨.keyword .for_, ⟨25, 29⟩⟩] := by
  intro words
  have hwords : ∀ w ∈ words, Word w.1.toList w.2 := by
    simp only [words, List.forall_mem_cons, List.not_mem_nil, false_imp_iff, implies_true, and_true]
    have hlabel : Word "Lbl A".toList (.label "A") :=
      @Word.labelled "Lbl" .label [' '] ['A'] List.mem_cons_self
        (List.forall_mem_singleton.mpr (.inl rfl)) (List.cons_ne_nil _ _)
        (List.forall_mem_singleton.mpr rfl)
    have htext : Word "\"- 1\"".toList (.text "- 1") := @Word.text ['-', ' ', '1'] (by simp)
    have hnumber : Word ".5".toList (.number (Float.ofScientific 5 true 1)) :=
      @Word.fraction [] ['5'] (.inr (List.cons_ne_nil _ _)) nofun
        (List.forall_mem_singleton.mpr rfl)
    exact ⟨.letter rfl, .listName rfl, hlabel, htext, .fixed (by decide +kernel),
      .fixed (by decide +kernel), hnumber, .fixed (by decide +kernel)⟩
  exact ⟨hwords, Token.read_spaced words hwords⟩

end CalcBasic
