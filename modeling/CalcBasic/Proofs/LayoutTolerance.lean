import CalcBasic.Proofs.OmittedClosers
import CalcBasic.Proofs.Tiling
import Mathlib.Data.List.Forall2
import Mathlib.Logic.Relation

/-!
# Layout tolerance

A program stays the same, up to places, if closing marks are left out where a statement ends and if
separators are added where some stand (`Program.parse_relaid`).

1. `Relaid` is one such change of the tokens. A program that the tokens are read as is read again
   behind a change (`Program.ReadAs.step`), and so behind any number of changes
   (`Program.ReadAs.run`). Closing marks are left out as in `Looser`, and separators that are added
   make lists with the same layout (`Like`).
2. `Relined` is what becomes of a line without its final closing marks, and perhaps with a colon in
   front. A closing mark is a word of its own (`Word.not_closer`) and no word goes on over a line
   feed, so the tokens of changed lines are changed tokens (`Token.read_relined`).
-/

namespace CalcBasic

open Reader
open Stmt (past endsHere)

/-! ## Changes of the tokens -/

/-- Closing marks are left out where a statement ends, or separators are added beside others, in
front, or at the end. -/
inductive Relaid : List Token → List Token → Prop
  | drop {front closers back : List Token} (hclosers : ∀ t ∈ closers, t.isCloser = true)
      (hback : ∀ t ∈ back.head?, t = .separator) : Relaid (front ++ closers ++ back) (front ++ back)
  | insert {front seps back : List Token} (hseps : ∀ t ∈ seps, t = .separator)
      (hbeside : (∀ t ∈ front.getLast?, t = .separator) ∨ ∀ t ∈ back.head?, t = .separator) :
      Relaid (front ++ back) (front ++ seps ++ back)

namespace Relaid

variable {ts us : List Token}

/-- What is changed before a separator is changed there. -/
theorem before (h : Relaid ts us) (vs : List Token) :
    Relaid (ts ++ .separator :: vs) (us ++ .separator :: vs) := by
  have hhead (back : List Token) (hback : ∀ t ∈ back.head?, t = .separator) :
      ∀ t ∈ (back ++ .separator :: vs).head?, t = .separator := by
    cases back with
    | nil =>
      rintro t ⟨⟩
      rfl
    | cons => exact hback
  cases h with
  | drop hclosers hback =>
    rw [List.append_assoc, List.append_assoc _ _ (_ :: _)]
    exact .drop hclosers (hhead _ hback)
  | insert hseps hbeside =>
    rw [List.append_assoc, List.append_assoc _ _ (_ :: _)]
    exact .insert hseps (hbeside.imp_right (hhead _))

/-- What is changed behind a separator is changed there. -/
theorem behind (h : Relaid ts us) (vs : List Token) :
    Relaid (vs ++ .separator :: ts) (vs ++ .separator :: us) := by
  cases h with
  | @drop front closers back hclosers hback =>
    have h := @drop (vs ++ .separator :: front) closers back hclosers hback
    simpa using h
  | @insert front seps back hseps hbeside =>
    have hlast (hfront : ∀ t ∈ front.getLast?, t = .separator) :
        ∀ t ∈ (vs ++ .separator :: front).getLast?, t = .separator := by
      cases front with
      | nil => simp
      | cons u front => simpa [List.getLast?_append, List.getLast?_cons_cons] using hfront
    have h := @insert (vs ++ .separator :: front) seps back hseps (hbeside.imp_left hlast)
    simpa using h

end Relaid

/-! ## Closing marks and separators -/

namespace Looser

variable {ts us : List (Spanned Token)}

theorem refl : ∀ ts : List (Spanned Token), Looser ts ts
  | [] => .nil
  | t :: ts => .keep t.node t.span t.span (refl ts)

theorem behind (h : Looser ts us) : ∀ front, Looser (front ++ ts) (front ++ us)
  | [] => h
  | t :: front => .keep t.node t.span t.span (h.behind front)

theorem dropped (h : Looser ts us) (hends : endsHere us = true) {closers : List (Spanned Token)}
    (hclosers : ∀ t ∈ closers, t.node.isCloser = true) : Looser (closers ++ ts) us := by
  induction closers with
  | nil => exact h
  | cons t closers ih =>
    rw [List.forall_mem_cons] at hclosers
    exact .drop hclosers.1 t.span hends (ih hclosers.2)

end Looser

theorem Like.behind {ts us : List (Spanned Token)} (h : Like ts us) :
    ∀ front, Like (front ++ ts) (front ++ us)
  | [] => h
  | ⟨node, span⟩ :: front => by
    have hrest := h.behind front
    by_cases hsep : node = .separator
    · subst hsep
      exact ⟨rfl, hrest.past⟩
    · exact hrest.word hsep span span

theorem like_refl (ts : List (Spanned Token)) : Like ts ts :=
  @like_of_nodes ts ts [] nofun (List.append_nil _).symm

theorem endsHere_of_nodes {ts : List (Spanned Token)}
    (h : ∀ t ∈ (nodes ts).head?, t = .separator) : endsHere ts = true := by
  refine Stmt.endsHere_eq_true.mpr fun t ht => h _ ?_
  simp [nodes, Option.mem_def.mp ht]

/-- Tokens can be given places. -/
theorem exists_nodes_eq (ts : List Token) : ∃ us : List (Spanned Token), ts = nodes us :=
  ⟨ts.map fun t => ⟨t, ⟨0, 0⟩⟩, by simp [nodes, Function.comp_def]⟩

theorem past_separators_append {seps : List (Spanned Token)} (h : ∀ t ∈ seps, t.node = .separator)
    (ts : List (Spanned Token)) : past (seps ++ ts) = past ts :=
  List.dropWhile_append_of_pos fun t ht => by simp [h t ht]

theorem endsHere_separators {seps ts : List (Spanned Token)} (h : ∀ t ∈ seps, t.node = .separator)
    (hends : endsHere ts = true) : endsHere (seps ++ ts) = true := by
  cases seps with
  | nil => exact hends
  | cons t seps => exact Stmt.endsHere_eq_true.mpr fun u hu => h u (by simp_all)

/-- Separators may stand for others, or for none at the end. -/
theorem like_separators {seps seps' ts : List (Spanned Token)}
    (h : ∀ t ∈ seps, t.node = .separator) (h' : ∀ t ∈ seps', t.node = .separator)
    (hends : endsHere (seps ++ ts) = true) (hends' : endsHere (seps' ++ ts) = true) :
    Like (seps ++ ts) (seps' ++ ts) := by
  refine ⟨hends.trans hends'.symm, ?_⟩
  rw [past_separators_append h, past_separators_append h']
  exact (like_refl ts).past

/-! ## Programs -/

namespace Program

theorem reader_eq_ok {ts : List (Spanned Token)} {p : Program Span} :
    reader ts = .ok (p, []) ↔ Stmt.block (Stmt.reader maxNesting) ts = .ok (p.statements, []) := by
  unfold reader
  rw [bind_eq_ok]
  constructor
  · rintro ⟨ss, mid, h, hp⟩
    cases hp
    exact h
  · exact fun h => ⟨_, _, h, rfl⟩

/-- The tokens are read as the program, up to places. -/
def ReadAs (ts : List (Spanned Token)) (p : Program Unit) : Prop :=
  ∃ q : Program Span, reader ts = .ok (q, []) ∧ q.bare = p

namespace ReadAs

variable {ts us : List (Spanned Token)} {p : Program Unit}

/-- The tokens may have another layout behind the separators in front. -/
theorem relayout (h : ReadAs ts p) (hpast : Tight (past ts) (past us)) : ReadAs us p := by
  obtain ⟨q, hq, rfl⟩ := h
  have hverdict := verdict_ofBlock 0 0 hpast
  rw [ofBlock_eq_ok.mpr (reader_eq_ok.mp hq)] at hverdict
  rcases ho : ofBlock 0 (Stmt.block (Stmt.reader maxNesting) us) with e | q' <;> rw [ho] at hverdict
  · cases hverdict
  · exact ⟨q', reader_eq_ok.mpr (ofBlock_eq_ok.mp ho), (Except.ok.inj hverdict).symm⟩

/-- Closing marks may be left out where a statement ends. -/
theorem loosen (h : ReadAs ts p) (hl : Looser ts us) : ReadAs us p := by
  obtain ⟨q, hq, rfl⟩ := h
  obtain ⟨ss, rest, hss, hview, hrest⟩ :=
    Stmt.block_lax (Stmt.reader_lenient maxNesting) _ _ _ _ hl (reader_eq_ok.mp hq)
  cases hrest
  refine ⟨⟨ss⟩, reader_eq_ok.mpr hss, ?_⟩
  rw [← Stmt.bareAll_eq, ← Stmt.bareAll_eq] at hview
  exact congrArg Program.mk hview.symm

/-- **One change** keeps the program. -/
theorem step (h : ReadAs ts p) {nodes' : List Token} (hrelaid : Relaid (nodes ts) nodes') :
    ∃ us, nodes us = nodes' ∧ ReadAs us p := by
  generalize hnodes : nodes ts = ns at hrelaid
  cases hrelaid with
  | drop hclosers hback =>
    obtain ⟨_, back, rfl, hfront, rfl⟩ := nodes_eq_append.mp hnodes
    obtain ⟨front, closers, rfl, rfl, rfl⟩ := nodes_eq_append.mp hfront
    refine ⟨front ++ back, nodes_append front back, h.loosen ?_⟩
    rw [List.append_assoc]
    refine ((Looser.refl back).dropped (endsHere_of_nodes hback) fun t ht => ?_).behind front
    exact hclosers _ (List.mem_map_of_mem ht)
  | @insert _ seps _ hseps hbeside =>
    obtain ⟨front, back, rfl, rfl, rfl⟩ := nodes_eq_append.mp hnodes
    obtain ⟨seps, rfl⟩ := exists_nodes_eq seps
    have hseps : ∀ t ∈ seps, t.node = .separator := fun t ht => hseps _ (List.mem_map_of_mem ht)
    refine ⟨front ++ seps ++ back, by simp, h.relayout ?_⟩
    rcases hbeside with hlast | hback
    · rcases List.eq_nil_or_concat' front with rfl | ⟨front, t, rfl⟩
      · rw [List.nil_append, List.nil_append, past_separators_append hseps]
        exact (like_refl back).past
      · have ht : t.node = .separator := hlast _ (by simp [nodes])
        have hsep : ∀ u ∈ [t], u.node = .separator := List.forall_mem_singleton.mpr ht
        have hseps' : ∀ u ∈ t :: seps, u.node = .separator := List.forall_mem_cons.mpr ⟨ht, hseps⟩
        have hlike := @like_separators [t] (t :: seps) back hsep hseps' (by simp [endsHere, ht])
          (by simp [endsHere, ht])
        simpa using (hlike.behind front).past
    · have hends := endsHere_of_nodes hback
      have hends' := endsHere_separators hseps hends
      have hlike := @like_separators [] seps back (by simp) hseps hends hends'
      rw [List.append_assoc]
      exact (hlike.behind front).past

/-- **Any number of changes**, and other places, keep the program. -/
theorem run (h : ReadAs ts p) (hrelaid : Relation.ReflTransGen Relaid (nodes ts) (nodes us)) :
    ReadAs us p := by
  generalize hnodes : nodes ts = ns at hrelaid
  induction hrelaid using Relation.ReflTransGen.head_induction_on generalizing ts with
  | refl =>
    have hlike : Like ts us := @like_of_nodes ts us [] nofun (by simpa using hnodes)
    exact h.relayout hlike.past
  | head hstep _ ih =>
    subst hnodes
    obtain ⟨mid, hmid, hread⟩ := h.step hstep
    exact ih hread hmid

end ReadAs

end Program

/-! ## Changes of the text -/

/-- A character that is a closing mark. -/
def IsCloserChar (c : Char) : Prop := c = ')' ∨ c = '\x7d'

theorem Rule.fixed_not_closer :
    ∀ p ∈ Rule.fixedSpellings, ∀ c ∈ p.1.toList.drop 1, ¬IsCloserChar c := by
  have hall : Rule.fixedSpellings.all (fun p => (p.1.toList.drop 1).all fun c =>
      c != ')' && c != '\x7d') = true := by decide +kernel
  simpa [List.all_eq_true, IsCloserChar] using hall

theorem IsCloserChar.isSkipped {c : Char} (h : IsCloserChar c) : isSkipped c = false := by
  rcases h with rfl | rfl <;> rfl

/-- A closing mark is a word of its own. -/
theorem IsCloserChar.isCloser {c : Char} (hc : IsCloserChar c) {t : Token} (h : Word [c] t) :
    t.isCloser = true := by
  rcases hc with rfl | rfl
  · have hmark : Word ")".toList (.mark .rightParen) := .fixed (List.mem_of_elem_eq_true rfl)
    rw [h.unique hmark]
    rfl
  · have hmark : Word "\x7d".toList (.mark .rightBrace) := .fixed (List.mem_of_elem_eq_true rfl)
    rw [h.unique hmark]
    rfl

/-- No longer word ends with a closing mark. -/
theorem Word.not_closer {d : Char} {front : List Char} {c : Char} {t : Token}
    (h : Word (d :: (front ++ [c])) t) : ¬IsCloserChar c := by
  intro hc
  have hother : Rule.isNameChar c = false ∧ Rule.subscript? c = none ∧ c ≠ '.' ∧ c ≠ '"' := by
    rcases hc with rfl | rfl <;> decide
  obtain ⟨hname, hsubscript, hpoint, hquote⟩ := hother
  have hmem : c ∈ front ++ [c] := List.mem_concat_self
  rcases h.cons_cases with ⟨p, hp, heq⟩ | ⟨-, heq⟩ | ⟨-, e, heq, he⟩ | ⟨-, hall⟩ | ⟨-, hall⟩ |
    ⟨-, content, heq, -⟩ | ⟨p, -, gap, name, heq, -, hne, hall⟩
  · refine Rule.fixed_not_closer p hp c ?_ hc
    rw [heq]
    exact hmem
  · simp at heq
  · rw [heq, List.mem_singleton] at hmem
    exact he (hmem ▸ hsubscript)
  · exact absurd (hall c hmem) (by simp [hname])
  · rcases hall c hmem with hdigit | hc'
    · simp [Rule.isNameChar, hdigit] at hname
    · exact hpoint hc'
  · exact hquote (List.singleton_inj.mp (List.append_inj_right' heq rfl))
  · obtain ⟨name, e, rfl⟩ := (List.eq_nil_or_concat' name).resolve_left hne
    have hlast := congrArg List.getLast? heq
    rw [← List.cons_append, ← List.append_assoc, List.getLast?_concat,
      List.getLast?_concat] at hlast
    have he := hall e List.mem_concat_self
    rw [← Option.some.inj hlast, hname] at he
    cases he

/-- The longest word of a text is the longest one of its front, if it stands there. -/
theorem Longest.front {lexeme more rest : List Char} {token : Token}
    (h : Longest (lexeme ++ more ++ rest) lexeme token) : Longest (lexeme ++ more) lexeme token :=
  ⟨List.prefix_append lexeme more, h.word, fun hword hl =>
    h.length_le hword (hl.trans (List.prefix_append _ rest))⟩

namespace Tiling

theorem eq_nil {offset : Nat} {ts : List (Spanned Token)} (h : Tiling offset [] ts) : ts = [] := by
  generalize htext : [] = text at h
  cases h with
  | done => rfl
  | skip => cases htext
  | word h => exact absurd (List.append_eq_nil_iff.mp htext.symm).1 h.word.ne_nil

/-- The tokens of a text behind which closing marks stand. -/
theorem before_closers {offset : Nat} {cs closers : List Char} {ts : List (Spanned Token)}
    (hclosers : ∀ c ∈ closers, IsCloserChar c) (h : Tiling offset (cs ++ closers) ts) :
    ∃ us vs, ts = us ++ vs ∧ Tiling offset cs us ∧ ∀ v ∈ vs, v.node.isCloser = true := by
  generalize htext : cs ++ closers = text at h
  induction h generalizing cs closers with
  | done =>
    obtain ⟨rfl, rfl⟩ := List.append_eq_nil_iff.mp htext
    exact ⟨[], [], rfl, .done, nofun⟩
  | @skip offset c text ts hc hrest ih =>
    rcases cs with _ | ⟨d, cs⟩
    · obtain rfl : closers = c :: text := htext
      rw [(hclosers c List.mem_cons_self).isSkipped] at hc
      cases hc
    · obtain ⟨rfl, htail⟩ := List.cons.inj htext
      obtain ⟨us, vs, rfl, hus, hvs⟩ := ih hclosers htail
      exact ⟨us, vs, rfl, .skip hc hus, hvs⟩
  | @word offset lexeme text token ts hlongest hrest ih =>
    have hinside (more : List Char) (hcs : cs = lexeme ++ more) (hmore : text = more ++ closers) :
        ∃ us vs, ⟨token, ⟨offset, offset + byteLength lexeme⟩⟩ :: ts = us ++ vs ∧
          Tiling offset cs us ∧ ∀ v ∈ vs, v.node.isCloser = true := by
      obtain ⟨us, vs, rfl, hus, hvs⟩ := ih hclosers hmore.symm
      subst hcs hmore
      rw [← List.append_assoc] at hlongest
      exact ⟨_ :: us, vs, rfl, .word hlongest.front hus, hvs⟩
    obtain ⟨more, htext, hmore⟩ | ⟨more, hcs, hmore⟩ := List.append_eq_append_iff.mp htext
    -- The word goes on into the closing marks, so it is the first of them.
    · rcases List.eq_nil_or_concat' more with rfl | ⟨init, c, rfl⟩
      · rw [List.append_nil] at htext
        exact hinside [] (by rw [htext, List.append_nil]) hmore.symm
      · have hc : IsCloserChar c := hclosers c (by simp [hmore])
        rw [← List.append_assoc] at htext
        have hword := htext ▸ hlongest.word
        rcases hfront : cs ++ init with _ | ⟨d, front⟩
        · obtain ⟨rfl, rfl⟩ := List.append_eq_nil_iff.mp hfront
          have hlater : ∀ c ∈ text, IsCloserChar c := fun c hc => hclosers c (by simp [hmore, hc])
          obtain ⟨us, vs, rfl, hus, hvs⟩ := @ih [] text hlater rfl
          obtain rfl := hus.eq_nil
          exact ⟨[], _ :: vs, rfl, .done, List.forall_mem_cons.mpr ⟨hc.isCloser hword, hvs⟩⟩
        · rw [hfront] at hword
          exact absurd hc hword.not_closer
    · exact hinside more hcs hmore

end Tiling

namespace Token

theorem nodes_move (f : Span → Span) (ts : List (Spanned Token)) :
    nodes (ts.map (.move f)) = nodes ts := by
  simp [nodes, Spanned.move, Function.comp_def]

/-- A colon in front is a separator. -/
theorem read_colon {s : String} {ts : List (Spanned Token)} (h : read s = .ok ts) :
    ∃ us, read (":" ++ s) = .ok us ∧ nodes us = .separator :: nodes ts := by
  have hshift := readFrom_shift 1 [⟨.separator, ⟨0, 1⟩⟩] s.toList 0 0 []
  have hread : readFrom 0 0 [] s.toList = .ok ts := h
  rw [hread] at hshift
  refine ⟨⟨.separator, ⟨0, 1⟩⟩ :: ts.map (.move (.shift 1)), ?_, ?_⟩
  · rw [read, String.toList_append]
    change readFrom 0 0 [] (':' :: s.toList) = _
    rw [readFrom_separator (.inr rfl)]
    exact hshift
  · rw [nodes_cons, nodes_move]

/-- Without the closing marks at its end a text gives the same tokens without closing marks. -/
theorem read_before_closers {s closers : String} {ts : List (Spanned Token)}
    (hclosers : ∀ c ∈ closers.toList, IsCloserChar c) (h : read (s ++ closers) = .ok ts) :
    ∃ us vs, read s = .ok us ∧ ts = us ++ vs ∧ ∀ v ∈ vs, v.node.isCloser = true := by
  rw [read_eq_ok_tiling, String.toList_append] at h
  obtain ⟨us, vs, rfl, hus, hvs⟩ := h.before_closers hclosers
  exact ⟨us, vs, read_eq_ok_tiling.mpr hus, rfl, hvs⟩

end Token

/-- The second line is the first one without closing marks at its end, and perhaps with a colon in
front of it. -/
def Relined (line line' : String) : Prop :=
  ∃ core closers : String, line = core ++ closers ∧ (∀ c ∈ closers.toList, IsCloserChar c) ∧
    (line' = core ∨ line' = ":" ++ core)

theorem Relined.read {line line' : String} (h : Relined line line') {ts : List (Spanned Token)}
    (hts : Token.read line = .ok ts) : ∃ us, Token.read line' = .ok us ∧
      Relation.ReflTransGen Relaid (nodes ts) (nodes us) := by
  obtain ⟨core, closers, rfl, hclosers, hline⟩ := h
  obtain ⟨us, vs, hus, rfl, hvs⟩ := Token.read_before_closers hclosers hts
  have hdrop : Relaid (nodes (us ++ vs)) (nodes us) := by
    have h := @Relaid.drop (nodes us) (nodes vs) [] (by simpa [nodes] using hvs) (by simp)
    simpa using h
  rcases hline with rfl | rfl
  · exact ⟨us, hus, .single hdrop⟩
  · obtain ⟨ws, hws, hnodes⟩ := Token.read_colon hus
    have hinsert : Relaid (nodes us) (nodes ws) := by
      rw [hnodes]
      exact @Relaid.insert [] [.separator] (nodes us) (by simp) (.inl (by simp))
    exact ⟨ws, hws, .tail (.single hdrop) hinsert⟩

/-- The tokens of changed lines are changed tokens. -/
theorem Token.read_relined {lines lines' : List String} (h : List.Forall₂ Relined lines lines')
    {ts : List (Spanned Token)} (hts : Token.read ("\n".intercalate lines) = .ok ts) :
    ∃ us, Token.read ("\n".intercalate lines') = .ok us ∧
      Relation.ReflTransGen Relaid (nodes ts) (nodes us) := by
  induction h generalizing ts with
  | nil => exact ⟨ts, hts, .refl⟩
  | @cons line line' lines lines' hline hlines ih =>
    by_cases hne : lines = []
    · subst hne
      cases hlines
      rw [String.intercalate_singleton] at hts ⊢
      exact hline.read hts
    · have hne' : lines' ≠ [] := fun h => hne (List.forall₂_nil_right_iff.mp (h ▸ hlines))
      rw [String.intercalate_cons_of_ne_nil hne, Token.read_newline] at hts
      rw [String.intercalate_cons_of_ne_nil hne', Token.read_newline]
      rcases hfirst : Token.read line with u | us <;> rw [hfirst] at hts
      · cases hts
      rcases hothers : Token.read ("\n".intercalate lines) with u | vs <;> rw [hothers] at hts
      · cases hts
      cases hts
      obtain ⟨us', hus', hrelaid⟩ := hline.read hfirst
      obtain ⟨vs', hvs', hrelaids⟩ := ih hothers
      refine ⟨_, by rw [hus', hvs'], ?_⟩
      simp only [nodes_append, nodes_cons, Token.nodes_move]
      have hbefore := Relation.ReflTransGen.lift (· ++ .separator :: nodes vs)
        (fun _ _ h => Relaid.before h (nodes vs)) _ _ hrelaid
      have hbehind := Relation.ReflTransGen.lift (nodes us' ++ .separator :: ·)
        (fun _ _ h => Relaid.behind h (nodes us')) _ _ hrelaids
      exact hbefore.trans hbehind

namespace Program

/-- **Layout is tolerated.** Tokens that are read as a program are read as the same one, up to
places, if closing marks are left out where a statement ends and if separators are added beside
others, in front, or at the end. So a text means the same program without the closing marks at the
ends of its lines, and with colons in front of them. -/
theorem parse_relaid :
    (∀ (size size' : Nat) (ts us : List (Spanned Token)) (p : Program Span),
      reader.ofTokens .unmatched size ts = .ok p →
      Relation.ReflTransGen Relaid (nodes ts) (nodes us) →
        ∃ q, reader.ofTokens .unmatched size' us = .ok q ∧ q.bare = p.bare) ∧
    ∀ (lines lines' : List String) (p : Program Span),
      parse ("\n".intercalate lines) = .ok p → List.Forall₂ Relined lines lines' →
        ∃ q, parse ("\n".intercalate lines') = .ok q ∧ q.bare = p.bare := by
  constructor
  · intro size size' ts us p hp hrelaid
    have hread : ReadAs ts p.bare := ⟨p, ofTokens_eq_ok.mp hp, rfl⟩
    obtain ⟨q, hq, hbare⟩ := hread.run hrelaid
    exact ⟨q, ofTokens_eq_ok.mpr hq, hbare⟩
  · intro lines lines' p hp hlines
    obtain ⟨ts, hts, hp⟩ := ofSource_eq_ok.mp hp
    obtain ⟨us, hus, hrelaid⟩ := Token.read_relined hlines hts
    have hread : ReadAs ts p.bare := ⟨p, hp, rfl⟩
    obtain ⟨q, hq, hbare⟩ := hread.run hrelaid
    exact ⟨q, ofSource_eq_ok.mpr ⟨us, hus, hq⟩, hbare⟩

/-- A group without its closing mark behind a separator, and a loop whose lines lack theirs. -/
theorem parse_relaid_loop :
    let ts : List (Spanned Token) :=
      [⟨.mark .leftParen, ⟨0, 1⟩⟩, ⟨.name "A", ⟨1, 2⟩⟩, ⟨.mark .rightParen, ⟨2, 3⟩⟩]
    let us : List (Spanned Token) :=
      [⟨.separator, ⟨0, 1⟩⟩, ⟨.mark .leftParen, ⟨1, 2⟩⟩, ⟨.name "A", ⟨2, 3⟩⟩]
    let lines := ["For(I,1,\x7b2,(3)\x7d)", "L1(I)->L2(2)", "End"]
    let lines' := [":For(I,1,\x7b2,(3", ":L1(I)->L2(2", "End"]
    (∃ p q, reader.ofTokens .unmatched 3 ts = .ok p ∧
      Relation.ReflTransGen Relaid (nodes ts) (nodes us) ∧
      reader.ofTokens .unmatched 3 us = .ok q ∧ q.bare = p.bare) ∧
    ∃ p q, parse ("\n".intercalate lines) = .ok p ∧ List.Forall₂ Relined lines lines' ∧
      parse ("\n".intercalate lines') = .ok q ∧ q.bare = p.bare := by
  intro ts us lines lines'
  have hrelaid : Relation.ReflTransGen Relaid (nodes ts) (nodes us) := by
    have hdrop := @Relaid.drop [.mark .leftParen, .name "A"] [.mark .rightParen] []
      (List.forall_mem_singleton.mpr rfl) nofun
    have hinsert := @Relaid.insert [] [.separator] [.mark .leftParen, .name "A"]
      (List.forall_mem_singleton.mpr rfl) (.inl nofun)
    exact .tail (.single hdrop) hinsert
  have hlines : List.Forall₂ Relined lines lines' := by
    refine .cons ⟨"For(I,1,\x7b2,(3", ")\x7d)", rfl, by simp [IsCloserChar], .inr rfl⟩ ?_
    refine .cons ⟨"L1(I)->L2(2", ")", rfl, by simp [IsCloserChar], .inr rfl⟩ ?_
    exact .cons ⟨"End", "", rfl, by simp [IsCloserChar], .inl rfl⟩ .nil
  have htokens : (reader.ofTokens .unmatched 3 ts).isOk = true := by decide +kernel
  have htext : (parse ("\n".intercalate lines)).isOk = true := by decide +kernel
  constructor
  · rcases hp : reader.ofTokens .unmatched 3 ts with e | p
    · rw [hp] at htokens
      cases htokens
    · obtain ⟨q, hq, hbare⟩ := parse_relaid.1 3 3 ts us p hp hrelaid
      exact ⟨p, q, rfl, hrelaid, hq, hbare⟩
  · rcases hp : parse ("\n".intercalate lines) with e | p
    · rw [hp] at htext
      cases htext
    · obtain ⟨q, hq, hbare⟩ := parse_relaid.2 lines lines' p hp hlines
      exact ⟨p, q, rfl, hlines, hq, hbare⟩

end Program

end CalcBasic
