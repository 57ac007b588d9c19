import CalcBasic.Proofs.ByteOrder
import CalcBasic.Proofs.Discipline
import CalcBasic.Proofs.EditDistance
import CalcBasic.Proofs.Labels

/-!
# Hints for labels

A run that jumps to a label that is not there may name a label that was probably meant. Which one it
names depends on nothing but the labels of the program:

1. The search through candidates finds the first of the nearest ones (`FirstNearest`). What it has
   found after some candidates stays right with one more (`Found.step`), so it is right after all
   (`similarName?_eq_some`, `similarName?_eq_none`).
2. The names of labels are searched in ascending order, and a label that is not there is not among
   them. So one edit is the least distance that counts, and of the names at this distance the first
   in the order of bytes is found (`similarName?_sorted`).
3. The faults of a run that are about a label are those of its jumps, by a discipline on faults
   (`Program.governs_jumps`).
-/

namespace CalcBasic

variable {σ : Type}

/-! ## The first of the nearest candidates -/

/-- The candidate is within the threshold, nearer than all candidates before it, and no candidate
behind it is nearer. -/
def FirstNearest (name : String) (threshold : Nat) (candidates : List String) (n : String) :
    Prop :=
  ∃ before after, candidates = before ++ n :: after ∧ editDistance name n ≤ threshold ∧
    (∀ m ∈ before, editDistance name n < editDistance name m) ∧
    ∀ m ∈ after, editDistance name n ≤ editDistance name m

/-- What the search has found after some candidates. -/
def Found (name : String) (threshold : Nat) (seen : List String) : Option (Nat × String) → Prop
  | none => ∀ m ∈ seen, threshold < editDistance name m
  | some (least, n) => least = editDistance name n ∧ FirstNearest name threshold seen n

variable {name : String} {threshold : Nat} {seen candidates : List String}

theorem FirstNearest.mem {n : String} (h : FirstNearest name threshold candidates n) :
    n ∈ candidates := by
  obtain ⟨before, after, rfl, -⟩ := h
  exact List.mem_append_right _ List.mem_cons_self

theorem FirstNearest.le {n m : String} (h : FirstNearest name threshold candidates n)
    (hm : m ∈ candidates) : editDistance name n ≤ editDistance name m := by
  obtain ⟨before, after, rfl, -, hbefore, hafter⟩ := h
  rcases List.mem_append.mp hm with hm | hm
  · exact (hbefore m hm).le
  · rcases List.mem_cons.mp hm with rfl | hm
    · exact le_rfl
    · exact hafter m hm

/-- There is one such candidate at most: of two, the one that comes first is the nearer one. -/
theorem FirstNearest.unique {n m : String} (hn : FirstNearest name threshold candidates n)
    (hm : FirstNearest name threshold candidates m) : n = m := by
  have hnm := hn.le hm.mem
  have hmn := hm.le hn.mem
  obtain ⟨before, after, rfl, -, hbefore, -⟩ := hn
  obtain ⟨before', after', hsplit, -, hbefore', -⟩ := hm
  rcases List.append_eq_append_iff.mp hsplit with
    ⟨between, hfront, hrest⟩ | ⟨between, hfront, hrest⟩
  · cases between with
    | nil => exact (List.cons.inj hrest).1
    | cons other between =>
      obtain ⟨rfl, -⟩ := List.cons.inj hrest
      have hless := hbefore' n (hfront ▸ List.mem_append_right _ List.mem_cons_self)
      omega
  · cases between with
    | nil => exact (List.cons.inj hrest).1.symm
    | cons other between =>
      obtain ⟨rfl, -⟩ := List.cons.inj hrest
      have hless := hbefore m (hfront ▸ List.mem_append_right _ List.mem_cons_self)
      omega

/-- **One more candidate.** It is found if it is nearer than what was found so far. -/
theorem Found.step {best : Option (Nat × String)} (h : Found name threshold seen best)
    (candidate : String) :
    Found name threshold (seen ++ [candidate]) (nearerName name threshold best candidate) := by
  unfold nearerName
  by_cases hfar : threshold < editDistance name candidate
  · rw [if_pos hfar]
    cases best with
    | none => exact List.forall_mem_append.mpr ⟨h, List.forall_mem_singleton.mpr hfar⟩
    | some found =>
      obtain ⟨least, n⟩ := found
      obtain ⟨rfl, before, after, rfl, hnear, hbefore, hafter⟩ := h
      refine ⟨rfl, before, after ++ [candidate], by simp, hnear, hbefore, ?_⟩
      exact List.forall_mem_append.mpr
        ⟨hafter, List.forall_mem_singleton.mpr (hnear.trans hfar.le)⟩
  · rw [if_neg hfar]
    have hnear := Nat.not_lt.mp hfar
    cases best with
    | none => exact ⟨rfl, seen, [], rfl, hnear, fun m hm => hnear.trans_lt (h m hm), nofun⟩
    | some found =>
      obtain ⟨least, n⟩ := found
      obtain ⟨rfl, hfound⟩ := h
      dsimp only
      by_cases hnearer : editDistance name candidate < editDistance name n
      · rw [if_pos hnearer]
        exact ⟨rfl, seen, [], rfl, hnear, fun m hm => hnearer.trans_le (hfound.le hm), nofun⟩
      · rw [if_neg hnearer]
        obtain ⟨before, after, rfl, hwithin, hbefore, hafter⟩ := hfound
        refine ⟨rfl, before, after ++ [candidate], by simp, hwithin, hbefore, ?_⟩
        exact List.forall_mem_append.mpr
          ⟨hafter, List.forall_mem_singleton.mpr (Nat.not_lt.mp hnearer)⟩

/-- All candidates, by induction on those that are left. -/
theorem Found.foldl {best : Option (Nat × String)} (h : Found name threshold seen best)
    (rest : List String) :
    Found name threshold (seen ++ rest) (rest.foldl (nearerName name threshold) best) := by
  induction rest generalizing seen best with
  | nil => rwa [List.append_nil]
  | cons candidate rest ih =>
    rw [List.foldl_cons, List.append_cons]
    exact ih (h.step candidate)

theorem found_candidates (name : String) (threshold : Nat) (candidates : List String) :
    Found name threshold candidates (candidates.foldl (nearerName name threshold) none) := by
  have hstart : Found name threshold [] none := fun _ hm => absurd hm List.not_mem_nil
  exact hstart.foldl candidates

/-- **Search.** What is found is the first of the nearest candidates. -/
theorem similarName?_eq_some {n : String} : similarName? name candidates threshold = some n ↔
    FirstNearest name threshold candidates n := by
  have hfound := found_candidates name threshold candidates
  unfold similarName?
  cases h : candidates.foldl (nearerName name threshold) none with
  | none =>
    rw [h] at hfound
    refine ⟨nofun, fun hn => ?_⟩
    have hfar := hfound n hn.mem
    obtain ⟨_, _, _, hnear, _⟩ := hn
    omega
  | some best =>
    rw [h] at hfound
    rw [Option.map_some, Option.some_inj]
    constructor
    · rintro rfl
      exact hfound.2
    · exact hfound.2.unique

theorem similarName?_eq_none : similarName? name candidates threshold = none ↔
    ∀ m ∈ candidates, threshold < editDistance name m := by
  have hfound := found_candidates name threshold candidates
  unfold similarName?
  cases h : candidates.foldl (nearerName name threshold) none with
  | none =>
    rw [h] at hfound
    exact iff_of_true rfl hfound
  | some best =>
    rw [h] at hfound
    obtain ⟨_, _, _, hnear, _⟩ := id hfound.2
    exact iff_of_false nofun fun hfar => absurd (hfar _ hfound.2.mem) (Nat.not_lt.mpr hnear)

/-! ## Names in ascending order -/

/-- Among names in ascending order without the name itself, the search for a name one edit away
finds the first of these in the order of bytes. -/
theorem similarName?_sorted (hsorted : candidates.Pairwise (· < ·)) (hname : name ∉ candidates)
    {n : String} : similarName? name candidates 1 = some n ↔
      n ∈ candidates ∧ Edit name.toList n.toList ∧
        ∀ m ∈ candidates, Edit name.toList m.toList → m = n ∨ Text.bytes n < Text.bytes m := by
  have hedit : ∀ m ∈ candidates, editDistance name m ≤ 1 ↔ Edit name.toList m.toList :=
    fun m hm => editDistance_le_one_iff fun h => hname (h ▸ hm)
  have hapart : ∀ m ∈ candidates, 1 ≤ editDistance name m := fun m hm =>
    Nat.one_le_iff_ne_zero.mpr fun h => hname ((editDistance_eq_zero_iff name m).mp h ▸ hm)
  rw [similarName?_eq_some]
  constructor
  · intro hn
    obtain ⟨before, after, rfl, hnear, hbefore, -⟩ := id hn
    refine ⟨hn.mem, (hedit n hn.mem).mp hnear, fun m hm hm' => ?_⟩
    rcases List.mem_append.mp hm with hm | hm
    · have hnearer := hbefore m hm
      have hfar := hapart n hn.mem
      have hclose := (hedit m (List.mem_append_left _ hm)).mpr hm'
      omega
    · rcases List.mem_cons.mp hm with rfl | hm
      · exact .inl rfl
      · have hbehind := (List.pairwise_append.mp hsorted).2.1
        exact .inr (Text.bytes_lt_iff.mpr ((List.pairwise_cons.mp hbehind).1 m hm))
  · rintro ⟨hn, hedited, hleast⟩
    obtain ⟨before, after, rfl⟩ := List.append_of_mem hn
    have hnear := (hedit n hn).mpr hedited
    refine ⟨before, after, rfl, hnear, fun m hm => ?_, fun m hm => ?_⟩
    · -- A name before `n` that is as near would be the first one itself.
      have hmem : m ∈ before ++ n :: after := List.mem_append_left _ hm
      have hless : m < n := (List.pairwise_append.mp hsorted).2.2 m hm n List.mem_cons_self
      by_contra hfar
      rcases hleast m hmem ((hedit m hmem).mp ((Nat.not_lt.mp hfar).trans hnear)) with rfl | hfirst
      · exact lt_irrefl m hless
      · exact lt_asymm hless (Text.bytes_lt_iff.mp hfirst)
    · exact hnear.trans (hapart m (List.mem_append_right _ (List.mem_cons_of_mem _ hm)))

theorem similarName?_eq_none_iff (hname : name ∉ candidates) :
    similarName? name candidates 1 = none ↔
      ∀ m ∈ candidates, ¬ Edit name.toList m.toList := by
  rw [similarName?_eq_none]
  refine forall₂_congr fun m hm => ?_
  have hne : name ≠ m := fun h => hname (h ▸ hm)
  rw [← editDistance_le_one_iff hne, Nat.not_le]

/-! ## The names of labels -/

theorem eraseReps_cons_sublist (a : String) (names : List String) :
    (a :: names).eraseReps.Sublist (a :: names) := by
  induction names generalizing a with
  | nil => exact List.Sublist.refl _
  | cons b names ih =>
    rw [Program.eraseReps_cons_cons]
    split
    · next h => exact (ih a).trans (h ▸ List.sublist_cons_self a _)
    · exact (ih b).cons_cons a

namespace Program

variable {p : Program σ} {x n : String}

/-- Somewhere in the program, at whatever depth, stands a label statement with this name. -/
def Defines (p : Program σ) (n : String) : Prop := ∃ span, p.Contains (.command span (.label n))

theorem mem_labelNames : n ∈ p.labelNames ↔ p.Defines n := by
  rw [p.labelNames_spec.2]
  constructor
  · intro h
    obtain ⟨l, hl, rfl⟩ := List.mem_map.mp h
    obtain ⟨m, -, hname, hentry⟩ := exists_landmark p.labels_located hl
    rw [hname]
    exact ⟨m.2, contains_of_mem_chain (List.mem_of_getElem? (entryAt?_eq_command.mp hentry))⟩
  · rintro ⟨span, h⟩
    obtain ⟨pos, hpos⟩ := exists_position h
    exact List.mem_map.mpr ⟨(n, pos), mem_labels hpos, rfl⟩

theorem labelNames_sublist (p : Program σ) : p.labelNames.Sublist
    ((p.labels.map Prod.fst).mergeSort fun a b => decide (a ≤ b)) := by
  unfold labelNames
  cases (p.labels.map Prod.fst).mergeSort fun a b => decide (a ≤ b) with
  | nil => exact List.Sublist.refl _
  | cons a names => exact eraseReps_cons_sublist a names

theorem ascending_labelNames (p : Program σ) : p.labelNames.Pairwise (· < ·) := by
  have hsorted : p.labelNames.Pairwise (· ≤ ·) :=
    (Text.pairwise_mergeSort id _).sublist p.labelNames_sublist
  exact (hsorted.and p.labelNames_spec.1).imp fun h => lt_of_le_of_ne h.1 h.2

/-- In whatever order the labels are listed, they come out in the same order when sorted. -/
theorem mergeSort_eq_labelNames {keys : List String} (hnodup : keys.Nodup)
    (hkeys : ∀ n, n ∈ keys ↔ p.Defines n) :
    (keys.mergeSort fun a b => decide (a ≤ b)) = p.labelNames := by
  have hperm : keys.Perm p.labelNames :=
    (List.perm_ext_iff_of_nodup hnodup p.labelNames_spec.1).mpr fun n =>
      (hkeys n).trans mem_labelNames.symm
  exact ((List.mergeSort_perm keys _).trans hperm).eq_of_pairwise
    (fun _ _ _ _ => le_antisymm) (Text.pairwise_mergeSort id keys)
    (p.ascending_labelNames.imp le_of_lt)

/-! ## Faults of jumps -/

/-- The fault says of a label that it is not there only if it is not there, and names the label that
the search finds. -/
def Misses (p : Program σ) : Fault → Prop
  | .undefinedLabel x similar =>
    ¬ p.Defines x ∧ similar = similarName? x p.labelNames 1
  | _ => True

/-- Values, variables and the console have no faults about labels. -/
theorem governs_jumps (p : Program σ) (config : Config) :
    (Discipline.ofFaults p.Misses fun _ => p.Misses).Governs config where
  toLawful := Discipline.lawful_ofFaults (fun fault h => by cases fault <;> trivial)
    fun _ fault h => by cases fault <;> trivial
  ends _ _ h := h
  limit _ _ _ _ := trivial

theorem misses_of_find {label : String} {span : σ} {l : Located σ}
    (h : p.landing.find label span = .error l) : p.Misses l.fault := by
  rw [find_landing] at h
  cases hr : p.resolve? label with
  | some pos => rw [hr] at h; cases h
  | none =>
    rw [hr] at h
    cases h
    refine ⟨fun hdefined => ?_, rfl⟩
    have hmem := (p.labelNames_spec.2 label).mp (mem_labelNames.mpr hdefined)
    obtain ⟨entry, hentry, rfl⟩ := List.mem_map.mp hmem
    exact absurd (List.lookup_eq_none_iff.mp hr entry hentry) (by simp)

theorem misses_of_run {config : Config} {fuel : Nat} {start? : Option Position} {st st' : State}
    {l : Located σ} (h : p.runFrom config fuel start? st = (.fault l, st')) :
    p.Misses l.fault := by
  have hkeeps := (p.governs_jumps config).run Discipline.fits_ofFaults
    (fun _ _ _ hfind _ => misses_of_find hfind) fuel start?
  exact hkeeps.fault st l st' trivial h

/-- What a fault about a label says of the labels of the program. -/
structure Hints (p : Program σ) (x : String) (similar : Option String) : Prop where
  /-- The label is not there. -/
  undefined : ¬ p.Defines x
  /-- The label that is named is one edit away, and the first such label in the order of bytes. -/
  similar_eq_some : ∀ n, similar = some n ↔ p.Defines n ∧ Edit x.toList n.toList ∧
    ∀ m, p.Defines m → Edit x.toList m.toList → m = n ∨ Text.bytes n < Text.bytes m
  /-- No label is named exactly if none is one edit away. -/
  similar_eq_none : similar = none ↔ ∀ m, p.Defines m → ¬ Edit x.toList m.toList
  /-- The message names the label in a line of its own. -/
  hinted : ∀ n, similar = some n → (Fault.undefinedLabel x similar).message =
    s!"undefined label '{x}'" ++ s!"\n  hint: did you mean `{n}`?"
  unhinted : similar = none →
    (Fault.undefinedLabel x similar).message = s!"undefined label '{x}'"
  /-- The order in which the labels are listed before they are sorted makes no difference. -/
  reproducible : ∀ keys : List String, keys.Nodup → (∀ n, n ∈ keys ↔ p.Defines n) →
    similarName? x (keys.mergeSort fun a b => decide (a ≤ b)) 1 = similar

theorem hints_of_misses {similar : Option String}
    (h : p.Misses (.undefinedLabel x similar)) : p.Hints x similar := by
  obtain ⟨hundefined, rfl⟩ := h
  have hx : x ∉ p.labelNames := fun hmem => hundefined (mem_labelNames.mp hmem)
  refine ⟨hundefined, fun n => ?_, ?_, fun n hn => ?_, fun hnone => ?_, fun keys hnodup hkeys => ?_⟩
  · simp only [similarName?_sorted p.ascending_labelNames hx, mem_labelNames]
  · simp only [similarName?_eq_none_iff hx, mem_labelNames]
  · rw [hn]
    rfl
  · rw [hnone]
    exact String.append_empty
  · rw [mergeSort_eq_labelNames hnodup hkeys]

/-- **Hints.** The search through candidates finds the first of the nearest ones within the
threshold, and nothing exactly if none is within it. So when a run ends because a label is not
there, it is not there, and the message names another label exactly if one is an edit away: the
first of these in the order of bytes, in whatever order they were listed. -/
theorem undefinedLabel_hints :
    (∀ name candidates threshold,
      (∀ n, similarName? name candidates threshold = some n ↔
        FirstNearest name threshold candidates n) ∧
      (similarName? name candidates threshold = none ↔
        ∀ m ∈ candidates, threshold < editDistance name m)) ∧
    ∀ (p : Program Span) config fuel start? st st' x similar span,
      p.runFrom config fuel start? st = (.fault ⟨.undefinedLabel x similar, span⟩, st') →
        p.Hints x similar :=
  ⟨fun _ _ _ => ⟨fun _ => similarName?_eq_some, similarName?_eq_none⟩,
    fun _ _ _ _ _ _ _ _ _ hrun => hints_of_misses (misses_of_run hrun)⟩

/-- Whether a run on a fresh machine ends because the label is not there, and the program has these
labels in the order of the text. -/
def misses (x : String) (labels : List String) (p : Program Span) : Bool :=
  p.labels.map Prod.fst == labels &&
    match p.run {} 1 ⟨.fresh, { input := [] }, 0⟩ with
    | (.fault ⟨.undefinedLabel y _, _⟩, _) => y == x
    | _ => false

/-- Of three labels one edit away, two of them within a block, the first in the order of bytes is
named. -/
theorem undefinedLabel_hints_inner :
    ∃ p, parse "Goto A\nLbl C\nIf 1\nThen\nLbl AB\nLbl B\nEnd" = .ok p ∧ ∃ similar span st',
      p.runFrom {} 1 p.head? ⟨.fresh, { input := [] }, 0⟩ =
        (.fault ⟨.undefinedLabel "A" similar, span⟩, st') ∧
      p.Hints "A" similar ∧ similar = some "AB" := by
  have hcheck : (parse "Goto A\nLbl C\nIf 1\nThen\nLbl AB\nLbl B\nEnd").toOption.any
      (misses "A" ["C", "AB", "B"]) = true := by
    decide +kernel
  obtain ⟨p, hp, hmisses⟩ := exists_of_parse hcheck
  obtain ⟨hlabels, hmisses⟩ := (Bool.and_eq_true _ _).mp hmisses
  split at hmisses
  · next y similar span st' hrun =>
    obtain rfl := beq_iff_eq.mp hmisses
    have hhints := undefinedLabel_hints.2 p {} 1 p.head? _ st' _ similar span hrun
    refine ⟨p, hp, similar, span, st', hrun, hhints, ?_⟩
    have hkeys : ∀ n, n ∈ ["AB", "B", "C"] ↔ p.Defines n := fun n => by
      rw [← mem_labelNames, p.labelNames_spec.2, beq_iff_eq.mp hlabels]
      simp [or_comm, or_left_comm]
    rw [← hhints.reproducible _ (by decide) hkeys,
      List.mergeSort_of_pairwise (by decide +kernel)]
    decide +kernel
  · cases hmisses

end Program

end CalcBasic
