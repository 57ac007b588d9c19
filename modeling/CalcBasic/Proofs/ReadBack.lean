import CalcBasic.Proofs.Arena
import CalcBasic.Proofs.StmtReading

/-!
# Reading rendered programs

A well-formed program is read back from its rendered tokens, up to the places (`block_reads`). The
rendered tokens leave no doubt: behind every expression stands a token that does not hold on to it,
behind every statement a separator, and behind every block its end.

Together with what is known of every program that is read (`Program.reader_finds`), this makes
reading a faithful decoding of tokens (`reader_faithful`).
-/

namespace CalcBasic

open Reader

variable {σ : Type}

/-- The statement without its annotations. -/
def Stmt.bare (s : Stmt σ) : Stmt Unit := s.map fun _ => ()

/-- The statements without their annotations. -/
def Stmt.bareAll (ss : List (Stmt σ)) : List (Stmt Unit) := Stmt.mapAll (fun _ => ()) ss

/-- The program without its annotations. -/
def Program.bare (p : Program σ) : Program Unit := p.map fun _ => ()

/-! ## Expressions -/

namespace Expr

theorem Shaped.readable {e : Expr σ} (h : e.Shaped .whole) {room : Nat} (hroom : e.levels ≤ room) :
    Readable (reader room) bare e.render false e.bare := by
  refine reader_reads h.derives ?_
  rw [levels, need_bare]
  exact hroom

theorem Shaped.exists_head {e : Expr σ} (h : e.Shaped .whole) :
    ∃ t us, e.render = t :: us ∧ (t.begins = true ∨ ∃ sign : Sign, t = .op sign.op) := by
  obtain ⟨t, us, hrender, ht | ⟨-, hsign⟩⟩ := h.derives.exists_head
  · exact ⟨t, us, hrender, .inl ht⟩
  · exact ⟨t, us, hrender, .inr hsign⟩

end Expr

namespace Stmt

/-! ## Commands -/

section Commands

variable {us rest : List (Spanned Token)} {room : Nat}

theorem nameReader_readable (n : Name σ) : Readable nameReader (Name.map fun _ => ())
    [.name n.text] false (n.map fun _ => ()) := by
  intro us rest hus _ _
  obtain ⟨span, rfl⟩ := nodes_eq_singleton.mp hus
  exact ⟨⟨span, n.text⟩, rfl, rfl⟩

theorem head_ne_of_endsHere (hrest : endsHere rest = true) {t : Token} (ht : t ≠ .separator) :
    ∀ u ∈ rest.head?, u.node ≠ t := by
  intro u hu hnode
  obtain ⟨vs, rfl⟩ := List.head?_eq_some_iff.mp hu
  have hseparator : u.node = .separator := by simpa [endsHere] using hrest
  exact ht (hnode.symm.trans hseparator)

theorem targetReader_reads {t : Target σ} (h : t.Shaped) (hroom : t.levels ≤ room)
    (hus : nodes us = t.render) (hrest : endsHere rest = true) :
    ∃ t' stop, t'.map (fun _ => ()) = t.map (fun _ => ()) ∧
      targetReader room (us ++ rest) = .ok ((t', stop), rest) := by
  cases t with
  | whole n =>
    obtain ⟨span, rfl⟩ := nodes_eq_singleton.mp hus
    have hindex := Expr.index?_of_leaves (fun _ => Expr.reader room) n.text
      (leaves_of_endsHere hrest 6)
    exact ⟨.whole ⟨span, n.text⟩, span, rfl,
      bind_eq_ok.mpr ⟨⟨span, n.text⟩, rest, rfl, bind_eq_ok.mpr ⟨none, rest, hindex, rfl⟩⟩⟩
  | element s n e =>
    obtain ⟨span, vs, rfl, hvs⟩ := nodes_eq_cons.mp hus
    have hc : Closing .rightParen false false [.mark .rightParen] := .written
    obtain ⟨e', closed, he', hindex⟩ := Expr.index?_reads (d := fun _ => Expr.reader room) h.1
      (h.2.readable hroom) hc hvs nofun
    refine ⟨.element (span.merge e'.span) ⟨span, n.text⟩ e', closed.getD e'.span,
      congrArg (Target.element () ⟨(), n.text⟩) he', ?_⟩
    exact bind_eq_ok.mpr ⟨⟨span, n.text⟩, vs ++ rest, rfl,
      bind_eq_ok.mpr ⟨some (e', closed), rest, hindex, rfl⟩⟩

/-- Items with commas between them are read back one by one, if a statement ends behind them. -/
theorem commas_reads {α β γ : Type} {item : Reader α} {view : α → β} {f : γ → β}
    {write : γ → List Token} {xs : List γ} (hne : xs ≠ [])
    (h : ∀ x ∈ xs, Readable item view (write x) false (f x))
    (hus : nodes us = commas (xs.map write)) (hrest : endsHere rest = true) :
    ∃ ys, ys.map view = xs.map f ∧ separated item (us ++ rest) = .ok (ys, rest) := by
  have hitems : Separated (fun ts last x => Readable item view ts last (f x)) _ false xs :=
    separated_commas hne h
  exact separated_reads (hitems.map (f := f) fun _ _ _ _ hx => hx) hus nofun
    (leaves_of_endsHere hrest 0) (head_ne_of_endsHere hrest nofun)

theorem valuesReader_reads {es : List (Expr σ)} (h : ∀ e ∈ es, e.Shaped .whole)
    (hroom : ∀ e ∈ es, e.levels ≤ room) (hus : nodes us = commas (es.map Expr.render))
    (hrest : endsHere rest = true) :
    ∃ ts, ts.map Expr.bare = es.map Expr.bare ∧
      valuesReader room (us ++ rest) = .ok (ts, rest) := by
  cases es with
  | nil =>
    obtain rfl := List.map_eq_nil_iff.mp hus
    refine ⟨[], rfl, bind_eq_ok.mpr ⟨true, rest, ?_, rfl⟩⟩
    rw [List.nil_append, atEnd_eq, hrest]
  | cons e es =>
    obtain ⟨ts, hts, hread⟩ := commas_reads (List.cons_ne_nil e es)
      (fun x hx => (h x hx).readable (hroom x hx)) hus hrest
    refine ⟨ts, hts, bind_eq_ok.mpr ⟨false, us ++ rest, ?_, hread⟩⟩
    obtain ⟨t, vs, hrender, ht⟩ := (h e List.mem_cons_self).exists_head
    obtain ⟨ws, hws⟩ : ∃ ws, nodes us = t :: ws := by
      rw [hus]
      cases es <;> simp [commas, hrender]
    obtain ⟨span, us', rfl, -⟩ := nodes_eq_cons.mp hws
    rw [atEnd_eq]
    rcases ht with ht | ⟨sign, rfl⟩
    · cases t <;> first | rfl | cases ht
    · rfl

theorem valueReader_of_head (b : Reader (List (Stmt Span))) (single : Reader (Stmt Span))
    {t : Token} (ht : t.begins = true ∨ ∃ sign : Sign, t = .op sign.op) (span : Span) :
    form room b single (⟨t, span⟩ :: rest) = valueReader room (⟨t, span⟩ :: rest) := by
  rcases ht with ht | ⟨sign, rfl⟩
  · cases t <;> first | rfl | cases ht
  · rfl

/-- A value, whatever is done with it. -/
theorem valueReader_reads {e : Expr σ} (h : e.Shaped .whole) (hroom : e.levels ≤ room)
    (b : Reader (List (Stmt Span))) (single : Reader (Stmt Span)) (hus : nodes us = e.render)
    (hrest : Leaves 0 rest) :
    ∃ e', e'.bare = e.bare ∧ Expr.reader room (us ++ rest) = .ok (e', rest) ∧
      form room b single (us ++ rest) = valueReader room (us ++ rest) := by
  obtain ⟨e', he', hread⟩ := h.readable hroom us rest hus nofun hrest
  obtain ⟨t, vs, hrender, ht⟩ := h.exists_head
  rw [hrender] at hus
  obtain ⟨span, us', rfl, -⟩ := nodes_eq_cons.mp hus
  exact ⟨e', he', hread, valueReader_of_head b single ht span⟩

theorem evaluate_reads {e : Expr σ} (h : e.Shaped .whole) (hroom : e.levels ≤ room)
    (b : Reader (List (Stmt Span))) (single : Reader (Stmt Span)) (hus : nodes us = e.render)
    (hrest : endsHere rest = true) : ∃ e', e'.bare = e.bare ∧
      form room b single (us ++ rest) = .ok (.command e'.span (.evaluate e'), rest) := by
  obtain ⟨e', he', hread, hform⟩ :=
    valueReader_reads h hroom b single hus (leaves_of_endsHere hrest 0)
  refine ⟨e', he', ?_⟩
  rw [hform]
  refine bind_eq_ok.mpr ⟨e', rest, hread, bind_eq_ok.mpr ⟨none, rest, ?_, rfl⟩⟩
  exact eat?_eq_none.mpr ⟨rfl, head_ne_of_endsHere hrest nofun⟩

theorem store_reads {e : Expr σ} {t : Target σ} (he : e.Shaped .whole) (ht : t.Shaped)
    (hroom : max e.levels t.levels ≤ room) (b : Reader (List (Stmt Span)))
    (single : Reader (Stmt Span)) (hus : nodes us = e.render ++ .mark .store :: t.render)
    (hrest : endsHere rest = true) :
    ∃ e' t' span, e'.bare = e.bare ∧ t'.map (fun _ => ()) = t.map (fun _ => ()) ∧
      form room b single (us ++ rest) = .ok (.command span (.store e' t'), rest) := by
  obtain ⟨us₁, vs, rfl, hus₁, hvs⟩ := nodes_eq_append.mp hus
  obtain ⟨span, us₂, rfl, hus₂⟩ := nodes_eq_cons.mp hvs
  have hlevels := Nat.max_le.mp hroom
  obtain ⟨t', stop, ht', htarget⟩ := targetReader_reads ht hlevels.2 hus₂ hrest
  have hleaves : Leaves 0 (⟨.mark .store, span⟩ :: (us₂ ++ rest)) :=
    leaves_cons (Nat.le_refl 0) span _
  obtain ⟨e', he', hread, hform⟩ := valueReader_reads he hlevels.1 b single hus₁ hleaves
  refine ⟨e', t', e'.span.merge stop, he', ht', ?_⟩
  rw [List.append_assoc, List.cons_append, hform]
  refine bind_eq_ok.mpr ⟨e', _, hread, bind_eq_ok.mpr ⟨some span, us₂ ++ rest, ?_, ?_⟩⟩
  · exact eat?_eq_some.mpr rfl
  · exact bind_eq_ok.mpr ⟨(t', stop), rest, htarget, rfl⟩

theorem command_reads {c : Command σ} (h : c.Shaped) (hroom : c.levels ≤ room)
    (b : Reader (List (Stmt Span))) (single : Reader (Stmt Span)) (hus : nodes us = c.render)
    (hrest : endsHere rest = true) : ∃ t, t.bare = .command () (c.map fun _ => ()) ∧
      form room b single (us ++ rest) = .ok (t, rest) := by
  cases c with
  | evaluate e =>
    obtain ⟨e', he', hform⟩ := evaluate_reads h hroom b single hus hrest
    refine ⟨_, ?_, hform⟩
    exact congrArg (fun x => Stmt.command () (.evaluate x)) he'
  | store e t =>
    obtain ⟨e', t', span, he', ht', hform⟩ := store_reads h.1 h.2 hroom b single hus hrest
    refine ⟨_, ?_, hform⟩
    exact congrArg₂ (fun x y => Stmt.command () (.store x y)) he' ht'
  | display es =>
    obtain ⟨span, vs, rfl, hvs⟩ := nodes_eq_cons.mp hus
    obtain ⟨ts, hts, hread⟩ := valuesReader_reads h (largest_levels_le.mp hroom) hvs hrest
    refine ⟨.command (spanThrough span (ts.map Expr.span)) (.display ts),
      congrArg (fun x => Stmt.command () (.display x)) hts, ?_⟩
    exact bind_eq_ok.mpr ⟨ts, rest, hread, rfl⟩
  | prompt ns =>
    obtain ⟨span, vs, rfl, hvs⟩ := nodes_eq_cons.mp hus
    obtain ⟨names, hnames, hread⟩ :=
      commas_reads h (fun n _ => nameReader_readable n) hvs hrest
    refine ⟨.command (spanThrough span (names.map Name.span)) (.prompt names),
      congrArg (fun x => Stmt.command () (.prompt x)) hnames, ?_⟩
    exact bind_eq_ok.mpr ⟨names, rest, hread, rfl⟩
  | input text n =>
    cases text with
    | none =>
      obtain ⟨s₁, vs, rfl, hvs⟩ := nodes_eq_cons.mp hus
      obtain ⟨s₂, rfl⟩ := nodes_eq_singleton.mp hvs
      exact ⟨_, rfl, rfl⟩
    | some text =>
      obtain ⟨s₁, vs, rfl, hvs⟩ := nodes_eq_cons.mp hus
      obtain ⟨s₂, ws, rfl, hws⟩ := nodes_eq_cons.mp hvs
      obtain ⟨s₃, xs, rfl, hxs⟩ := nodes_eq_cons.mp hws
      obtain ⟨s₄, rfl⟩ := nodes_eq_singleton.mp hxs
      exact ⟨_, rfl, rfl⟩
  | label n | goto n | stop =>
    obtain ⟨span, rfl⟩ := nodes_eq_singleton.mp hus
    exact ⟨_, rfl, rfl⟩

/-- The rest of the head of a counting loop, from its last value on. -/
def rangeEnd (room : Nat) (counter : Name Span) (start : Expr Span) :
    Reader (Range Span × Span) := do
  let last ← Expr.reader room
  let step ← match ← Reader.eat? (.mark .comma) with
    | some _ => some <$> Expr.reader room
    | none => pure none
  let closed ← Reader.close .rightParen
  return (⟨counter, start, last, step⟩, closed.getD (step.getD last).span)

theorem rangeEnd_reads {last : Expr σ} (hlast : last.Shaped .whole) (hroom : last.levels ≤ room)
    {step : Option (Expr σ)} (hstep : ∀ e ∈ step, e.Shaped .whole ∧ e.levels ≤ room)
    (hus : nodes us = last.render ++
      ((step.map fun e => .mark .comma :: e.render).getD [] ++ [.mark .rightParen]))
    (counter : Name Span) (start : Expr Span) (rest : List (Spanned Token)) :
    ∃ last' step' stop, last'.bare = last.bare ∧ step'.map Expr.bare = step.map Expr.bare ∧
      rangeEnd room counter start (us ++ rest) =
        .ok ((⟨counter, start, last', step'⟩, stop), rest) := by
  obtain ⟨us₁, vs, rfl, hus₁, hvs⟩ := nodes_eq_append.mp hus
  cases step with
  | none =>
    obtain ⟨span, rfl⟩ := nodes_eq_singleton.mp hvs
    obtain ⟨last', hlast', hread⟩ := hlast.readable hroom us₁ (⟨.mark .rightParen, span⟩ :: rest)
      hus₁ nofun (leaves_cons (Nat.le_refl 0) _ _)
    rw [List.append_assoc]
    refine ⟨last', none, span, hlast', rfl, bind_eq_ok.mpr ⟨last', _, hread, ?_⟩⟩
    refine bind_eq_ok.mpr ⟨none, _, eat?_eq_none.mpr ⟨rfl, ?_⟩, bind_eq_ok.mpr ⟨none, _, rfl, ?_⟩⟩
    · rintro t ⟨⟩
      exact nofun
    · exact bind_eq_ok.mpr ⟨some span, rest, close_written span rest, rfl⟩
  | some step =>
    obtain ⟨hshaped, hlevels⟩ := hstep step rfl
    obtain ⟨comma, vs', rfl, hvs'⟩ := nodes_eq_cons.mp hvs
    obtain ⟨us₂, ws, rfl, hus₂, hws⟩ := nodes_eq_append.mp hvs'
    obtain ⟨span, rfl⟩ := nodes_eq_singleton.mp hws
    obtain ⟨step', hstep', hread'⟩ := hshaped.readable hlevels us₂
      (⟨.mark .rightParen, span⟩ :: rest) hus₂ nofun (leaves_cons (Nat.le_refl 0) _ _)
    obtain ⟨last', hlast', hread⟩ := hlast.readable hroom us₁
      (⟨.mark .comma, comma⟩ :: (us₂ ++ ⟨.mark .rightParen, span⟩ :: rest)) hus₁ nofun
      (leaves_cons (Nat.le_refl 0) _ _)
    simp only [List.append_assoc, List.cons_append, List.nil_append]
    refine ⟨last', some step', span, hlast', congrArg some hstep', ?_⟩
    refine bind_eq_ok.mpr ⟨last', _, hread, ?_⟩
    refine bind_eq_ok.mpr ⟨some comma, _, eat?_eq_some.mpr rfl, ?_⟩
    simp only [map_eq_pure_bind]
    refine bind_eq_ok.mpr ⟨some step', _, bind_eq_ok.mpr ⟨step', _, hread', rfl⟩, ?_⟩
    exact bind_eq_ok.mpr ⟨some span, rest, close_written span rest, rfl⟩

theorem rangeReader_reads {r : Range σ} (h : r.Shaped) (hroom : r.levels ≤ room)
    (hus : nodes us = r.render) (rest : List (Spanned Token)) :
    ∃ r' stop, r'.map (fun _ => ()) = r.map (fun _ => ()) ∧
      rangeReader room (us ++ rest) = .ok ((r', stop), rest) := by
  obtain ⟨counter, start, last, step⟩ := r
  obtain ⟨hstart, hlast, hstep⟩ := h
  have hlevels : max (max start.levels last.levels) ((step.map Expr.levels).getD 0) ≤ room := hroom
  have hsteps : ∀ e ∈ step, e.Shaped .whole ∧ e.levels ≤ room := by
    rintro e rfl
    simp only [Option.map_some, Option.getD_some] at hlevels
    exact ⟨hstep e rfl, by omega⟩
  obtain ⟨s₁, us₁, rfl, hus₁⟩ := nodes_eq_cons.mp hus
  obtain ⟨s₂, us₂, rfl, hus₂⟩ := nodes_eq_cons.mp hus₁
  obtain ⟨vs, us₃, rfl, hvs, hus₃⟩ := nodes_eq_append.mp hus₂
  obtain ⟨s₃, us₄, rfl, hus₄⟩ := nodes_eq_cons.mp hus₃
  obtain ⟨start', hstart', hread⟩ := hstart.readable (show start.levels ≤ room by omega) vs
    (⟨.mark .comma, s₃⟩ :: (us₄ ++ rest)) hvs nofun (leaves_cons (Nat.le_refl 0) _ _)
  obtain ⟨last', step', stop, hlast', hstep', hend⟩ := rangeEnd_reads hlast
    (show last.levels ≤ room by omega) hsteps hus₄ ⟨s₁, counter.text⟩ start' rest
  refine ⟨⟨⟨s₁, counter.text⟩, start', last', step'⟩, stop, ?_, ?_⟩
  · change Range.mk ⟨(), counter.text⟩ start'.bare last'.bare (step'.map Expr.bare) = _
    rw [hstart', hlast', hstep']
    rfl
  · simp only [List.append_assoc, List.cons_append]
    refine bind_eq_ok.mpr ⟨⟨s₁, counter.text⟩, _, rfl, ?_⟩
    refine bind_eq_ok.mpr ⟨(), _, expect_eq_ok.mpr ⟨s₂, rfl⟩, bind_eq_ok.mpr ⟨start', _, hread, ?_⟩⟩
    exact bind_eq_ok.mpr ⟨(), _, expect_eq_ok.mpr ⟨s₃, rfl⟩, hend⟩

end Commands

/-! ## Blocks and statements -/

theorem block_separator {r : Reader (Stmt Span)} (hr : Shrinks r) (span : Span)
    (ts : List (Spanned Token)) : block r (⟨.separator, span⟩ :: ts) = block r ts := by
  have hpast : past (⟨.separator, span⟩ :: ts) = past ts := by simp [past]
  rw [block_eq hr, block_eq hr ts, hpast]

theorem past_cons {t : Spanned Token} (h : t.node ≠ .separator) (ts : List (Spanned Token)) :
    past (t :: ts) = t :: ts := by simp [past, h]

theorem block_of_closes {r : Reader (Stmt Span)} (hr : Shrinks r) {rest : List (Spanned Token)}
    (hrest : ∀ t ∈ rest.head?, closes t.node = true) : block r rest = .ok ([], rest) := by
  rcases rest with _ | ⟨t, rest⟩
  · rfl
  · have hc := hrest t rfl
    have hne : t.node ≠ .separator := by
      intro hnode
      rw [hnode] at hc
      cases hc
    rw [block_eq hr, past_cons hne]
    simp only [hc, if_true]

/-- A statement does not begin with a separator, and not with the end of a block. -/
theorem Shaped.exists_head {s : Stmt σ} (h : s.Shaped) :
    ∃ t ts, s.render = t :: ts ∧ t ≠ .separator ∧ closes t = false := by
  have hvalue : ∀ {e : Expr σ}, e.Shaped .whole →
      ∃ t ts, e.render = t :: ts ∧ t ≠ .separator ∧ closes t = false := by
    intro e he
    obtain ⟨t, ts, hrender, ht | ⟨sign, rfl⟩⟩ := he.exists_head
    · refine ⟨t, ts, hrender, ?_, ?_⟩
      · rintro rfl
        cases ht
      · cases t <;> first | rfl | cases ht
    · exact ⟨_, ts, hrender, by rintro ⟨⟩, rfl⟩
  cases s with
  | command _ c =>
    cases c with
    | evaluate e => exact hvalue h
    | store e t =>
      obtain ⟨u, us, hrender, hu⟩ := hvalue h.1
      refine ⟨u, us ++ .mark .store :: t.render, ?_, hu⟩
      rw [render, Command.render, hrender, List.cons_append]
    | input text n => cases text <;> exact ⟨_, _, rfl, by rintro ⟨⟩, rfl⟩
    | _ => exact ⟨_, _, rfl, by rintro ⟨⟩, rfl⟩
  | _ => exact ⟨_, _, rfl, by rintro ⟨⟩, rfl⟩

/-- The statement is read back, up to the places, if a statement ends behind it. -/
def Reads (room : Nat) (s : Stmt σ) : Prop :=
  ∀ us rest, nodes us = s.render → endsHere rest = true →
    ∃ t, t.bare = s.bare ∧ reader room (us ++ rest) = .ok (t, rest)

/-- The statements are read back as a block, up to the places, if a block ends behind them. -/
def ReadsAll (room : Nat) (ss : List (Stmt σ)) : Prop :=
  ∀ us rest, nodes us = renderAll ss → (∀ t ∈ rest.head?, closes t.node = true) →
    ∃ ts, bareAll ts = bareAll ss ∧ block (reader room) (us ++ rest) = .ok (ts, rest)

theorem readsAll_cons {room : Nat} {s : Stmt σ} {ss : List (Stmt σ)} (hs : s.Shaped)
    (h : Reads room s) (hss : ReadsAll room ss) : ReadsAll room (s :: ss) := by
  intro us rest hus hrest
  have hr := reader_shrinks room
  obtain ⟨us₁, vs, rfl, hus₁, hvs⟩ := nodes_eq_append.mp hus
  obtain ⟨span, us₂, rfl, hus₂⟩ := nodes_eq_cons.mp hvs
  obtain ⟨t, ht, hread⟩ := h us₁ (⟨.separator, span⟩ :: (us₂ ++ rest)) hus₁ rfl
  obtain ⟨ts, hts, hblock⟩ := hss us₂ rest hus₂ hrest
  obtain ⟨node, ns, hrender, hne, hc⟩ := hs.exists_head
  rw [hrender] at hus₁
  obtain ⟨span', us₁', rfl, -⟩ := nodes_eq_cons.mp hus₁
  refine ⟨t :: ts, congrArg₂ List.cons ht hts, ?_⟩
  rw [List.append_assoc, List.cons_append, block_eq hr, List.cons_append, past_cons hne]
  rw [List.cons_append] at hread
  have hends : endsHere (⟨.separator, span⟩ :: (us₂ ++ rest)) = true := rfl
  simp only [hc, hread, hends, Bool.false_eq_true, if_false, if_true]
  rw [block_separator hr, hblock]
  rfl

theorem leaves_of_nodes {us : List (Spanned Token)} {t : Token} {ts : List Token}
    (hus : nodes us = t :: ts) {rank : Nat} (ht : t.hold ≤ rank) (rest : List (Spanned Token)) :
    Leaves rank (us ++ rest) := by
  obtain ⟨span, vs, rfl, -⟩ := nodes_eq_cons.mp hus
  exact leaves_cons ht span (vs ++ rest)

/-- A block with a separator before it and a closing keyword behind it. -/
theorem ReadsAll.closed {room : Nat} {ss : List (Stmt σ)} (h : ReadsAll room ss) {k : Keyword}
    (hk : closes (.keyword k) = true) {us : List (Spanned Token)} {ks : List Token}
    (hus : nodes us = .separator :: (renderAll ss ++ .keyword k :: ks))
    (rest : List (Spanned Token)) :
    ∃ ts span us', nodes us' = ks ∧ bareAll ts = bareAll ss ∧
      block (reader room) (us ++ rest) = .ok (ts, ⟨.keyword k, span⟩ :: (us' ++ rest)) := by
  obtain ⟨separator, vs, rfl, hvs⟩ := nodes_eq_cons.mp hus
  obtain ⟨us₁, ws, rfl, hus₁, hws⟩ := nodes_eq_append.mp hvs
  obtain ⟨span, us', rfl, hus'⟩ := nodes_eq_cons.mp hws
  obtain ⟨ts, hts, hblock⟩ := h us₁ (⟨.keyword k, span⟩ :: (us' ++ rest)) hus₁ (by
    rintro t ⟨⟩
    exact hk)
  refine ⟨ts, span, us', hus', hts, ?_⟩
  rw [List.cons_append, block_separator (reader_shrinks room), List.append_assoc]
  exact hblock

theorem reads_whileLoop {room : Nat} {span : σ} {e : Expr σ} (he : e.Shaped .whole)
    (hroom : e.levels ≤ room + 1) {body : List (Stmt σ)} (hbody : ReadsAll room body) :
    Reads (room + 1) (.whileLoop span e body) := by
  intro us rest hus _
  obtain ⟨s₁, us₁, rfl, hus₁⟩ := nodes_eq_cons.mp hus
  obtain ⟨vs, us₂, rfl, hvs, hus₂⟩ := nodes_eq_append.mp hus₁
  obtain ⟨e', he', hread⟩ := he.readable hroom vs (us₂ ++ rest) hvs nofun
    (leaves_of_nodes hus₂ (Nat.le_refl 0) rest)
  obtain ⟨ts, s₂, us₃, hus₃, hts, hblock⟩ := hbody.closed rfl hus₂ rest
  obtain rfl := List.map_eq_nil_iff.mp hus₃
  rw [List.cons_append, List.append_assoc]
  refine ⟨.whileLoop (s₁.merge e'.span) e' ts, congrArg₂ (Stmt.whileLoop ()) he' hts, ?_⟩
  refine bind_eq_ok.mpr ⟨e', _, hread, bind_eq_ok.mpr ⟨ts, _, hblock, ?_⟩⟩
  exact bind_eq_ok.mpr ⟨(), rest, rfl, rfl⟩

theorem reads_forLoop {room : Nat} {span : σ} {r : Range σ} (hr : r.Shaped)
    (hroom : r.levels ≤ room + 1) {body : List (Stmt σ)} (hbody : ReadsAll room body) :
    Reads (room + 1) (.forLoop span r body) := by
  intro us rest hus _
  obtain ⟨s₁, us₁, rfl, hus₁⟩ := nodes_eq_cons.mp hus
  obtain ⟨vs, us₂, rfl, hvs, hus₂⟩ := nodes_eq_append.mp hus₁
  obtain ⟨r', stop, hr', hread⟩ := rangeReader_reads hr hroom hvs (us₂ ++ rest)
  obtain ⟨ts, s₂, us₃, hus₃, hts, hblock⟩ := hbody.closed rfl hus₂ rest
  obtain rfl := List.map_eq_nil_iff.mp hus₃
  rw [List.cons_append, List.append_assoc]
  refine ⟨.forLoop (s₁.merge stop) r' ts, congrArg₂ (Stmt.forLoop ()) hr' hts, ?_⟩
  refine bind_eq_ok.mpr ⟨(r', stop), _, hread, bind_eq_ok.mpr ⟨ts, _, hblock, ?_⟩⟩
  exact bind_eq_ok.mpr ⟨(), rest, rfl, rfl⟩

/-- The header of a conditional with `Then`. -/
theorem form_if {room : Nat} {e : Expr σ} (he : e.Shaped .whole) (hroom : e.levels ≤ room)
    {us : List (Spanned Token)} {ks : List Token}
    (hus : nodes us = .keyword .if_ :: (e.render ++ .separator :: .keyword .then_ :: ks))
    (rest : List (Spanned Token)) (b : Reader (List (Stmt Span))) (single : Reader (Stmt Span)) :
    ∃ e' header us', nodes us' = ks ∧ e'.bare = e.bare ∧
      form room b single (us ++ rest) = thenPart b header e' (us' ++ rest) := by
  obtain ⟨s₁, us₁, rfl, hus₁⟩ := nodes_eq_cons.mp hus
  obtain ⟨vs, us₂, rfl, hvs, hus₂⟩ := nodes_eq_append.mp hus₁
  obtain ⟨e', he', hread⟩ := he.readable hroom vs (us₂ ++ rest) hvs nofun
    (leaves_of_nodes hus₂ (Nat.le_refl 0) rest)
  obtain ⟨s₂, us₃, rfl, hus₃⟩ := nodes_eq_cons.mp hus₂
  obtain ⟨s₃, us', rfl, hus'⟩ := nodes_eq_cons.mp hus₃
  refine ⟨e', s₁.merge e'.span, us', hus', he', ?_⟩
  rw [List.cons_append, List.append_assoc]
  change (Expr.reader room >>= _) _ = _
  rw [bind_apply, hread]
  exact guarded_eq b single _ e' _

theorem reads_ifThen {room : Nat} {span : σ} {e : Expr σ} (he : e.Shaped .whole)
    (hroom : e.levels ≤ room + 1) {body : List (Stmt σ)} (hbody : ReadsAll room body) :
    Reads (room + 1) (.ifThen span e body) := by
  intro us rest hus _
  obtain ⟨e', header, us₁, hus₁, he', hform⟩ :=
    form_if he hroom hus rest (block (reader room)) (reader room)
  obtain ⟨ts, s, us₂, hus₂, hts, hblock⟩ := hbody.closed rfl hus₁ rest
  obtain rfl := List.map_eq_nil_iff.mp hus₂
  refine ⟨.ifThen header e' ts, congrArg₂ (Stmt.ifThen ()) he' hts, hform.trans ?_⟩
  refine bind_eq_ok.mpr ⟨ts, _, hblock, bind_eq_ok.mpr ⟨none, ⟨.keyword .end_, s⟩ :: rest, ?_, ?_⟩⟩
  · refine eat?_eq_none.mpr ⟨rfl, ?_⟩
    rintro t ⟨⟩
    exact nofun
  · exact bind_eq_ok.mpr ⟨(), rest, rfl, rfl⟩

theorem reads_ifElse {room : Nat} {span : σ} {e : Expr σ} (he : e.Shaped .whole)
    (hroom : e.levels ≤ room + 1) {body otherwise : List (Stmt σ)} (hbody : ReadsAll room body)
    (hotherwise : ReadsAll room otherwise) :
    Reads (room + 1) (.ifElse span e body otherwise) := by
  intro us rest hus _
  obtain ⟨e', header, us₁, hus₁, he', hform⟩ :=
    form_if he hroom hus rest (block (reader room)) (reader room)
  obtain ⟨yes, s, us₂, hus₂, hyes, hblock⟩ := hbody.closed rfl hus₁ rest
  obtain ⟨no, s', us₃, hus₃, hno, hblock'⟩ := hotherwise.closed rfl hus₂ rest
  obtain rfl := List.map_eq_nil_iff.mp hus₃
  refine ⟨.ifElse header e' yes no, ?_, hform.trans ?_⟩
  · change Stmt.ifElse () e'.bare (bareAll yes) (bareAll no) = _
    rw [he', hyes, hno]
    rfl
  · refine bind_eq_ok.mpr ⟨yes, _, hblock, bind_eq_ok.mpr ⟨some s, _, eat?_eq_some.mpr rfl, ?_⟩⟩
    exact bind_eq_ok.mpr ⟨no, _, hblock', bind_eq_ok.mpr ⟨(), rest, rfl, rfl⟩⟩

mutual

/-- A shaped statement is read back with room for its levels. -/
theorem reads (s : Stmt σ) (room : Nat) (hs : s.Shaped) (hroom : s.levels ≤ room) :
    Reads room s := by
  cases s with
  | command span c =>
    intro us rest hus hrest
    rw [reader_eq_form]
    exact command_reads hs hroom _ _ hus hrest
  | ifThen _ e body =>
    have hlevels : max e.levels (levelsAll body + 1) ≤ room := hroom
    obtain ⟨m, rfl⟩ : ∃ m, room = m + 1 := ⟨room - 1, by omega⟩
    exact reads_ifThen hs.1 (by omega) (readsAll body m hs.2 (by omega))
  | whileLoop _ e body =>
    have hlevels : max e.levels (levelsAll body + 1) ≤ room := hroom
    obtain ⟨m, rfl⟩ : ∃ m, room = m + 1 := ⟨room - 1, by omega⟩
    exact reads_whileLoop hs.1 (by omega) (readsAll body m hs.2 (by omega))
  | forLoop _ r body =>
    have hlevels : max r.levels (levelsAll body + 1) ≤ room := hroom
    obtain ⟨m, rfl⟩ : ∃ m, room = m + 1 := ⟨room - 1, by omega⟩
    exact reads_forLoop hs.1 (by omega) (readsAll body m hs.2 (by omega))
  | ifElse _ e body otherwise =>
    have hlevels : max e.levels (max (levelsAll body) (levelsAll otherwise) + 1) ≤ room := hroom
    obtain ⟨m, rfl⟩ : ∃ m, room = m + 1 := ⟨room - 1, by omega⟩
    exact reads_ifElse hs.1 (by omega) (readsAll body m hs.2.1 (by omega))
      (readsAll otherwise m hs.2.2 (by omega))

/-- Shaped statements are read back as a block. -/
theorem readsAll (ss : List (Stmt σ)) (room : Nat) (hss : ShapedAll ss)
    (hroom : levelsAll ss ≤ room) : ReadsAll room ss := by
  cases ss with
  | nil =>
    intro us rest hus hrest
    obtain rfl := List.map_eq_nil_iff.mp hus
    exact ⟨[], rfl, block_of_closes (reader_shrinks room) hrest⟩
  | cons s ss =>
    have hlevels := Nat.max_le.mp hroom
    exact readsAll_cons hss.1 (reads s room hss.1 hlevels.1) (readsAll ss room hss.2 hlevels.2)

end

end Stmt

namespace Program

/-- A well-formed program is read back from its rendered tokens, wherever they stand. -/
theorem reader_reads {p : Program σ} (h : p.WellFormed) {ts : List (Spanned Token)}
    (hts : nodes ts = p.render) : ∃ q, reader ts = .ok (q, []) ∧ q.bare = p.bare := by
  obtain ⟨ss, hss, hblock⟩ :=
    Stmt.readsAll p.statements maxNesting h.shaped h.levels_le ts [] hts nofun
  rw [List.append_nil] at hblock
  exact ⟨⟨ss⟩, bind_eq_ok.mpr ⟨ss, [], hblock, rfl⟩, congrArg Program.mk hss⟩

/-- **Reading is a faithful decoding.**
1. Programs are the arenas that are numbered in pre-order.
2. A well-formed program is read back from its rendered tokens, up to the places.
3. A program that is read from some tokens is well-formed, and the tokens are those of the rendered
   program, in their order, but for the layout: separators, closing marks, `Then` and `End`. -/
theorem reader_faithful (size : Nat) :
    (∀ a : Arena Span, a.Preordered ↔ ∃! p : Program Span, p.arena = a) ∧
    (∀ p : Program Span, p.WellFormed → ∀ ts, nodes ts = p.render →
      ∃ q, reader.ofTokens .unmatched size ts = .ok q ∧ q.bare = p.bare) ∧
    ∀ ts q, reader.ofTokens .unmatched size ts = .ok q →
      q.WellFormed ∧ q.arena.Preordered ∧ content (nodes ts) = content q.render := by
  refine ⟨fun a => Arena.preordered_iff, fun p hp ts hts => ?_, fun ts q hq => ?_⟩
  · obtain ⟨q, hq, hbare⟩ := reader_reads hp hts
    exact ⟨q, ofTokens_eq_ok.mpr hq, hbare⟩
  · obtain ⟨hwellFormed, hholds⟩ := reader_finds (ofTokens_eq_ok.mp hq)
    exact ⟨hwellFormed, q.preordered_arena, hholds.content_eq⟩

/-- A loop over a label, read back from tokens that all have the same place. -/
theorem reader_loop : ∃ q : Program Span,
    reader.ofTokens .unmatched 0 ([.keyword .while_, .name "A", .separator, .label "B", .separator,
      .keyword .end_, .separator].map fun t => ⟨t, ⟨0, 0⟩⟩) = .ok q ∧
      q.bare = ⟨[.whileLoop () (.var () "A") [.command () (.label "B")]]⟩ :=
  (reader_faithful 0).2.1
    ⟨[.whileLoop ⟨0, 0⟩ (.var ⟨0, 0⟩ "A") [.command ⟨0, 0⟩ (.label "B")]]⟩
    ⟨⟨⟨trivial, trivial, trivial⟩, trivial⟩, by decide⟩ _ rfl

end Program

end CalcBasic
