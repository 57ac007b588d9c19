import CalcBasic.Proofs.Spans
import CalcBasic.Proofs.Tiling

/-!
# Extents of runs of tokens

The extent of some tokens goes from the first byte of the first one to the last byte of the last one.
The tokens of a source hold some bytes each and stand one behind the other, so the spans that a
reader merges make up extents (`merge_extent`), and the extents of runs of tokens stand one behind
the other inside the extent of all (`Runs.nested`).
-/

namespace CalcBasic

/-! ## Tokens in order -/

/-- Tokens that hold some bytes each and stand one behind the other. -/
structure Ordered (ts : List (Spanned Token)) : Prop where
  nonempty : ∀ t ∈ ts, t.span.start < t.span.stop
  inOrder : ts.Pairwise fun t u => t.span.stop ≤ u.span.start

theorem Token.read_ordered {source : String} {ts : List (Spanned Token)}
    (h : Token.read source = .ok ts) : Ordered ts :=
  have htiles := (Token.read_eq_ok_tiling.mp h).tiles
  ⟨htiles.nonempty, htiles.inOrder⟩

namespace Ordered

variable {ts us vs : List (Spanned Token)}

theorem sublist (h : Ordered ts) (hus : us.Sublist ts) : Ordered us :=
  ⟨fun t ht => h.nonempty t (hus.subset ht), h.inOrder.sublist hus⟩

theorem left (h : Ordered (us ++ vs)) : Ordered us := h.sublist (List.sublist_append_left us vs)

theorem right (h : Ordered (us ++ vs)) : Ordered vs := h.sublist (List.sublist_append_right us vs)

theorem tail {t : Spanned Token} (h : Ordered (t :: ts)) : Ordered ts :=
  h.sublist (List.sublist_cons_self t ts)

end Ordered

/-! ## Extents -/

/-- From the first byte of the first token to the last byte of the last one. -/
def extent (ts : List (Spanned Token)) : Span :=
  ⟨(ts.head?.map (·.span.start)).getD 0, (ts.getLast?.map (·.span.stop)).getD 0⟩

section

variable {ts us vs front : List (Spanned Token)}

theorem extent_singleton (t : Spanned Token) : extent [t] = t.span := rfl

theorem extent_append (hus : us ≠ []) (hvs : vs ≠ []) :
    extent (us ++ vs) = ⟨(extent us).start, (extent vs).stop⟩ := by
  simp only [extent, List.head?_append_of_ne_nil us hus, List.getLast?_append_of_ne_nil us hvs]

theorem Ordered.extent_lt (h : Ordered ts) (hne : ts ≠ []) : (extent ts).start < (extent ts).stop := by
  obtain ⟨t, ts, rfl⟩ := List.exists_cons_of_ne_nil hne
  have ht := h.nonempty t List.mem_cons_self
  rcases List.eq_nil_or_concat' ts with rfl | ⟨ts, u, rfl⟩
  · exact ht
  · have hu := h.nonempty u (by simp)
    have hle := (List.pairwise_cons.mp h.inOrder).1 u (by simp)
    simp only [extent, ← List.cons_append, List.getLast?_concat, Option.map_some, Option.getD_some]
    change t.span.start < u.span.stop
    omega

theorem Ordered.extent_le (h : Ordered (us ++ vs)) (hus : us ≠ []) (hvs : vs ≠ []) :
    (extent us).stop ≤ (extent vs).start := by
  obtain ⟨us, t, rfl⟩ := (List.eq_nil_or_concat' us).resolve_left hus
  obtain ⟨u, vs, rfl⟩ := List.exists_cons_of_ne_nil hvs
  have hle := (List.pairwise_append.mp h.inOrder).2.2 t (by simp) u List.mem_cons_self
  simpa [extent] using hle

theorem Ordered.start_le (h : Ordered (us ++ vs)) (hvs : vs ≠ []) :
    (extent (us ++ vs)).start ≤ (extent vs).start := by
  by_cases hus : us = []
  · rw [hus, List.nil_append]
  · have hlt := h.left.extent_lt hus
    have hle := h.extent_le hus hvs
    rw [extent_append hus hvs]
    dsimp only
    omega

theorem Ordered.le_stop (h : Ordered (us ++ vs)) (hus : us ≠ []) :
    (extent us).stop ≤ (extent (us ++ vs)).stop := by
  by_cases hvs : vs = []
  · rw [hvs, List.append_nil]
  · have hlt := h.right.extent_lt hvs
    have hle := h.extent_le hus hvs
    rw [extent_append hus hvs]
    dsimp only
    omega

/-- A part of the tokens stands inside the extent of all. -/
theorem Ordered.part_between {before part after : List (Spanned Token)}
    (h : Ordered (before ++ part ++ after)) (hpart : part ≠ []) :
    (extent part).Between (extent (before ++ part ++ after)).start
      (extent (before ++ part ++ after)).stop := by
  have hstop := h.le_stop (List.append_ne_nil_of_right_ne_nil before hpart)
  have hstop' : (extent part).stop = (extent (before ++ part)).stop := by
    by_cases hbefore : before = []
    · rw [hbefore, List.nil_append]
    · rw [extent_append hbefore hpart]
  have hstart := h.left.start_le hpart
  have hstart' : (extent (before ++ part ++ after)).start = (extent (before ++ part)).start := by
    by_cases hafter : after = []
    · rw [hafter, List.append_nil]
    · rw [extent_append (List.append_ne_nil_of_right_ne_nil before hpart) hafter]
  refine ⟨hstart'.le.trans hstart, (h.left.right.extent_lt hpart).le, hstop'.le.trans hstop⟩

/-- The span is the extent of the last tokens. -/
def EndsWith (ts : List (Spanned Token)) (s : Span) : Prop :=
  ∃ front tail, ts = front ++ tail ∧ tail ≠ [] ∧ s = extent tail

theorem endsWith_extent (hne : ts ≠ []) : EndsWith ts (extent ts) := ⟨[], ts, rfl, hne, rfl⟩

theorem EndsWith.behind {s : Span} (h : EndsWith ts s) (us : List (Spanned Token)) :
    EndsWith (us ++ ts) s := by
  obtain ⟨front, tail, rfl, hne, hs⟩ := h
  exact ⟨us ++ front, tail, (List.append_assoc _ _ _).symm, hne, hs⟩

/-- Two spans that are merged make up the extent of all tokens from the first ones to the last
ones. -/
theorem merge_extent {s : Span} (h : Ordered (us ++ vs)) (hus : us ≠ []) (hs : EndsWith vs s) :
    (extent us).merge s = extent (us ++ vs) := by
  obtain ⟨front, tail, rfl, hne, rfl⟩ := hs
  have hsub : (us ++ tail).Sublist (us ++ (front ++ tail)) :=
    (List.sublist_append_right front tail).append_left us
  have hends := h.sublist hsub
  have hfirst := hends.left.extent_lt hus
  have hlast := hends.right.extent_lt hne
  have hle := hends.extent_le hus hne
  rw [← List.append_assoc, extent_append (List.append_ne_nil_of_left_ne_nil hus front) hne]
  have hstart : (extent (us ++ front)).start = (extent us).start := by
    obtain ⟨t, us, rfl⟩ := List.exists_cons_of_ne_nil hus
    rfl
  rw [hstart]
  simp only [Span.merge, Span.mk.injEq]
  omega

theorem merge_first {t : Spanned Token} {s : Span} (h : Ordered (t :: ts)) (hs : EndsWith ts s) :
    t.span.merge s = extent (t :: ts) :=
  @merge_extent [t] ts s h (List.cons_ne_nil t []) hs

end

/-! ## Runs -/

/-- The spans are the extents of runs of tokens, one behind the other. -/
inductive Runs : List (Spanned Token) → List Span → Prop
  | nil {ts : List (Spanned Token)} : Runs ts []
  | cons {gap us vs : List (Spanned Token)} {spans : List Span} (hne : us ≠ [])
      (h : Runs vs spans) : Runs (gap ++ us ++ vs) (extent us :: spans)

namespace Runs

variable {ts us vs : List (Spanned Token)} {spans spans' : List Span}

theorem one (h : ts ≠ []) : Runs ts [extent ts] := by
  simpa using @Runs.cons [] ts [] [] h .nil

theorem behind (h : Runs vs spans) (us : List (Spanned Token)) : Runs (us ++ vs) spans := by
  cases h with
  | nil => exact .nil
  | cons hne h =>
    rw [← List.append_assoc, ← List.append_assoc]
    exact .cons hne h

theorem append (h : Runs us spans) (h' : Runs vs spans') : Runs (us ++ vs) (spans ++ spans') := by
  induction h with
  | nil => exact h'.behind _
  | cons hne _ ih =>
    rw [List.append_assoc]
    exact .cons hne ih

theorem front (h : Runs us spans) (vs : List (Spanned Token)) : Runs (us ++ vs) spans := by
  simpa using h.append (@Runs.nil vs)

/-- Each run is a part of the tokens. -/
theorem exists_part (h : Runs ts spans) : ∀ s ∈ spans, ∃ before part after,
    ts = before ++ part ++ after ∧ part ≠ [] ∧ s = extent part := by
  induction h with
  | nil => exact nofun
  | @cons gap us vs spans hne _ ih =>
    rintro s (_ | ⟨_, hs⟩)
    · exact ⟨gap, us, vs, rfl, hne, rfl⟩
    · obtain ⟨before, part, after, rfl, hpart, rfl⟩ := ih s hs
      exact ⟨gap ++ us ++ before, part, after, by simp, hpart, rfl⟩

theorem inOrder (h : Runs ts spans) (hts : Ordered ts) :
    spans.Pairwise fun s t => s.stop ≤ t.start := by
  induction h with
  | nil => exact .nil
  | @cons gap us vs spans hne h ih =>
    refine List.pairwise_cons.mpr ⟨fun s hs => ?_, ih hts.right⟩
    obtain ⟨before, part, after, rfl, hpart, rfl⟩ := h.exists_part s hs
    have hsub : (us ++ part).Sublist (gap ++ us ++ (before ++ part ++ after)) := by
      refine (List.sublist_append_right gap us).append ?_
      exact (List.sublist_append_right before part).trans (List.sublist_append_left _ after)
    exact (hts.sublist hsub).extent_le hne hpart

end Runs

/-- A node's span and those of the nodes right inside it, which stand one behind the other. -/
structure Nested (outer : Span) (inner : List Span) : Prop where
  nonempty : outer.start < outer.stop
  inside : ∀ s ∈ inner, s.Between outer.start outer.stop
  inOrder : inner.Pairwise fun s t => s.stop ≤ t.start

theorem Runs.nested {ts : List (Spanned Token)} {spans : List Span} (h : Runs ts spans)
    (hts : Ordered ts) (hne : ts ≠ []) : Nested (extent ts) spans := by
  refine ⟨hts.extent_lt hne, fun s hs => ?_, h.inOrder hts⟩
  obtain ⟨before, part, after, rfl, hpart, rfl⟩ := h.exists_part s hs
  exact hts.part_between hpart

end CalcBasic
