import CalcBasic.Proofs.ByteOrder
import CalcBasic.Proofs.ExactNumbers
import CalcBasic.Proofs.Variables

/-!
# The list of changed variables

The variables that are not as at the start are listed by name, and the list is enough to bring them
back:

1. An entry of the list is a variable with its value, and a variable is left out exactly if it has
   the value of its region at the start (`Regular.mem_modified`). No name comes twice, as a name is
   found in one map only, so the sorted list is strictly ascending (`Regular.ascending_modified`).
2. Entries with a kind that their names admit can be assigned one after the other, and give their
   names the values that they hold (`Regular.assignAll`). Names without an entry have their values
   from the start, and those are the ones that were left out, up to the sign of zero
   (`Regular.get_of_not_mem`).
-/

namespace CalcBasic

namespace Slots

variable {s t : Slots} {name : String} {v : Value}

/-! ## What is listed -/

/-- The entries of a map that are kept, as variables with their values. -/
def entries {α : Type} (m : Std.TreeMap String α) (value : α → Value)
    (keep : String → α → Bool) : List (String × Value) :=
  (m.toList.filter fun entry => keep entry.1 entry.2).map fun entry => (entry.1, value entry.2)

/-- The entries of the list, map by map. -/
def changes (s : Slots) : List (String × Value) :=
  entries s.numbers .number (fun name x => !(fresh.numbers[name]?.any (· == x))) ++
    entries s.lists .list (fun name l => !(fresh.lists[name]?.any (·.items == l.items))) ++
    s.others.toList

theorem modified_eq (s : Slots) : s.modified = s.changes.mergeSort fun a b => decide (a.1 ≤ b.1) :=
  rfl

/-- Whether a variable has another value than at the start; a free name has none there. -/
def Differs (name : String) (v : Value) : Prop :=
  (name ∉ letterNames ∧ name ∉ listNames) ∨ ∃ v₀, fresh.get name = .ok v₀ ∧ v₀.same v = false

theorem get_fresh (name : String) : fresh.get name = LockedMap.initial.get name := by
  rw [get_eq, view_fresh]

theorem differs_iff (name : String) (v : Value) : Differs name v ↔
    ∀ v₀, (Region.of name).initial? = some v₀ → v₀.same v = false := by
  rw [Differs, get_fresh, LockedMap.get, LockedMap.initial, ← Region.of_eq_letter,
    ← Region.of_eq_list]
  cases Region.of name <;> simp [Region.initial?]

theorem mem_entries {α : Type} {m : Std.TreeMap String α} {value : α → Value}
    {keep : String → α → Bool} :
    (name, v) ∈ entries m value keep ↔
      ∃ x, m[name]? = some x ∧ value x = v ∧ keep name x = true := by
  simp only [entries, List.mem_map, List.mem_filter, Prod.exists, Prod.mk.injEq,
    Std.TreeMap.mem_toList_iff_getElem?_eq_some]
  constructor
  · rintro ⟨_, x, ⟨hx, hkeep⟩, rfl, hv⟩
    exact ⟨x, hx, hv, hkeep⟩
  · rintro ⟨x, hx, hv, hkeep⟩
    exact ⟨name, x, ⟨hx, hkeep⟩, rfl, hv⟩

theorem names_entries_sublist {α : Type} (m : Std.TreeMap String α) (value : α → Value)
    (keep : String → α → Bool) : ((entries m value keep).map Prod.fst).Sublist m.keys := by
  rw [entries, List.map_map, ← Std.TreeMap.map_fst_toList_eq_keys]
  exact List.filter_sublist.map Prod.fst

theorem Regular.mem_changes (hs : s.Regular) :
    (name, v) ∈ s.changes ↔ s.get name = .ok v ∧ Differs name v := by
  simp only [changes, List.mem_append, mem_entries, Std.TreeMap.mem_toList_iff_getElem?_eq_some,
    differs_iff, get]
  obtain ⟨x, hr, hn, hl, ho⟩ | ⟨l, hr, hn, hl, ho⟩ | ⟨hr, hn, hl⟩ := hs.found name
  · cases v <;> simp [hr, hn, hl, ho, getElem?_numbers_fresh hr, Region.initial?, Value.same]
    rintro rfl
    rfl
  · cases v <;> simp [hr, hn, hl, ho, getElem?_lists_fresh hr, Region.initial?, Value.same]
    rintro rfl
    rfl
  · cases s.others[name]? <;> simp [hr, hn, hl, Region.initial?]

theorem Regular.mem_modified (hs : s.Regular) :
    (name, v) ∈ s.modified ↔ s.get name = .ok v ∧ Differs name v := by
  rw [modified_eq, List.mem_mergeSort, hs.mem_changes]

/-- The names that are listed are of their own region, so none comes twice. -/
theorem Regular.nodup_changes (hs : s.Regular) : (s.changes.map Prod.fst).Nodup := by
  have hnumbers := names_entries_sublist s.numbers .number
    fun name x => !(fresh.numbers[name]?.any (· == x))
  have hlists := names_entries_sublist s.lists .list
    fun name l => !(fresh.lists[name]?.any (·.items == l.items))
  have hletters : ∀ name ∈ s.numbers.keys, name ∈ letterNames := fun name h =>
    (hs.numbers name).mp (Std.TreeMap.mem_of_mem_keys h)
  have hbuiltin : ∀ name ∈ s.lists.keys, name ∈ listNames := fun name h =>
    (hs.lists name).mp (Std.TreeMap.mem_of_mem_keys h)
  have hfree : ∀ name ∈ s.others.keys, name ∉ letterNames ∧ name ∉ listNames := fun name h =>
    hs.others name (Std.TreeMap.mem_of_mem_keys h)
  rw [changes, List.map_append, List.map_append, Std.TreeMap.map_fst_toList_eq_keys,
    List.nodup_append, List.nodup_append]
  refine ⟨⟨hnumbers.nodup Std.TreeMap.nodup_keys, hlists.nodup Std.TreeMap.nodup_keys, ?_⟩,
    Std.TreeMap.nodup_keys, ?_⟩
  · rintro name hname _ hname' rfl
    have hletter := Region.of_eq_letter.mpr (hletters name (hnumbers.subset hname))
    have hlist := Region.of_eq_list.mpr (hbuiltin name (hlists.subset hname'))
    exact absurd (hletter.symm.trans hlist) nofun
  · rintro name hname _ hname' rfl
    rcases List.mem_append.mp hname with h | h
    · exact (hfree name hname').1 (hletters name (hnumbers.subset h))
    · exact (hfree name hname').2 (hbuiltin name (hlists.subset h))

theorem Regular.nodup_modified (hs : s.Regular) : (s.modified.map Prod.fst).Nodup :=
  ((List.mergeSort_perm _ _).map Prod.fst).nodup_iff.mpr hs.nodup_changes

theorem sorted_modified (s : Slots) : s.modified.Pairwise fun a b => a.1 ≤ b.1 :=
  Text.pairwise_mergeSort Prod.fst s.changes

theorem Regular.ascending_modified (hs : s.Regular) :
    (s.modified.map fun entry => Text.bytes entry.1).Pairwise (· < ·) := by
  have hnodup := hs.nodup_modified
  rw [List.Nodup, List.pairwise_map] at hnodup
  rw [List.pairwise_map]
  exact (s.sorted_modified.and hnodup).imp fun h =>
    Text.bytes_lt_iff.mpr (lt_of_le_of_ne h.1 h.2)

/-! ## Bringing the variables back -/

/-- The variables after the entries of a list are assigned, one after the other. -/
def assignAll (s : Slots) (entries : List (String × Value)) : Except Fault Slots :=
  entries.foldlM (fun s entry => s.assign entry.1 entry.2) s

/-- Whether a name admits values of the kind. -/
def Admits (name : String) (v : Value) : Prop :=
  ∀ kind, (Region.of name).kind? = some kind → v.kind = kind

theorem Regular.exists_assign (hs : s.Regular) (h : Admits name v) :
    ∃ t, s.assign name v = .ok t := by
  cases ha : s.assign name v with
  | ok t => exact ⟨t, rfl⟩
  | error fault =>
    obtain ⟨kind, hkind, hne, -⟩ := (assign_eq_error hs).mp ha
    exact absurd (h kind hkind) hne

/-- **Assignments.** Entries with different names can all be assigned if their names admit them;
then every name has the value of its entry, or the value it had if there is none. -/
theorem Regular.assignAll (hs : s.Regular) (entries : List (String × Value))
    (hadmits : ∀ name v, (name, v) ∈ entries → Admits name v)
    (hnodup : (entries.map Prod.fst).Nodup) :
    ∃ t, s.assignAll entries = .ok t ∧ (∀ name v, (name, v) ∈ entries → t.get name = .ok v) ∧
      ∀ name, (∀ v, (name, v) ∉ entries) → t.get name = s.get name := by
  induction entries generalizing s with
  | nil => exact ⟨s, rfl, nofun, fun _ _ => rfl⟩
  | cons entry entries ih =>
    obtain ⟨first, v⟩ := entry
    obtain ⟨hfirst, hrest⟩ := List.nodup_cons.mp hnodup
    obtain ⟨r, hr⟩ := hs.exists_assign (hadmits first v List.mem_cons_self)
    have hput := puts_of_assign hr
    obtain ⟨hself, hothers⟩ := get_puts hput
    obtain ⟨t, ht, hentries, hwithout⟩ := ih (hs.puts hput)
      (fun name v h => hadmits name v (List.mem_cons_of_mem _ h)) hrest
    refine ⟨t, ?_, fun name w h => ?_, fun name h => ?_⟩
    · rw [Slots.assignAll, List.foldlM_cons, hr]
      exact ht
    · rcases List.mem_cons.mp h with h | h
      · obtain ⟨rfl, rfl⟩ := Prod.mk.inj h
        exact (hwithout name fun _ hw => hfirst (List.mem_map.mpr ⟨_, hw, rfl⟩)).trans hself
      · exact hentries name w h
    · have hne : name ≠ first := fun he => h v (he ▸ List.mem_cons_self)
      rw [hwithout name fun w hw => h w (List.mem_cons_of_mem _ hw), hothers name hne]

theorem Regular.admits (hs : s.Regular) (h : s.get name = .ok v) : Admits name v := by
  unfold Admits
  unfold get at h
  obtain ⟨x, hr, hn, hl, ho⟩ | ⟨l, hr, hn, hl, ho⟩ | ⟨hr, hn, hl⟩ := hs.found name
  · rw [hn] at h
    cases h
    simp [hr, Region.kind?, Value.kind]
  · rw [hn, hl] at h
    cases h
    simp [hr, Region.kind?, Value.kind]
  · simp [hr, Region.kind?]

/-- A list that is equal to the one at the start is that list. -/
theorem eq_of_items_beq {l : Numbers} (h : (#[1] == l.items) = true) : l = ⟨#[1]⟩ := by
  obtain ⟨⟨items⟩⟩ := l
  cases items with
  | nil => cases h
  | cons x items =>
    cases items with
    | nil =>
      have hx : (1 == x) = true := by simpa using h
      rw [Number.one_of_beq hx]
    | cons y items => simp at h

/-- What is not listed is as at the start, up to the sign of zero. -/
theorem Regular.get_of_not_mem (hs : s.Regular) (h : ∀ v, (name, v) ∉ s.modified) :
    fresh.get name = s.get name ∨ name ∈ letterNames ∧ s.get name = .ok (.number (-0.0)) ∧
      fresh.get name = .ok (.number 0) := by
  simp only [hs.mem_modified, differs_iff, not_and] at h
  rw [get_fresh, LockedMap.get, LockedMap.initial]
  unfold get at h ⊢
  obtain ⟨x, hr, hn, hl, ho⟩ | ⟨l, hr, hn, hl, ho⟩ | ⟨hr, hn, hl⟩ := hs.found name
  · have hx : (0 == x) = true := by simpa [hr, hn, Region.initial?, Value.same] using h (.number x)
    rw [hn, hr]
    obtain rfl | rfl := Number.zero_of_beq hx
    · exact .inl rfl
    · exact .inr ⟨Region.of_eq_letter.mp hr, rfl, rfl⟩
  · have hitems : (#[1] == l.items) = true := by
      simpa [hr, hn, hl, Region.initial?, Value.same] using h (.list l)
    rw [hn, hl, hr, eq_of_items_beq hitems]
    exact .inl rfl
  · cases ho : s.others[name]? with
    | none =>
      rw [hn, hl, hr]
      exact .inl rfl
    | some v => simp [hr, hn, hl, ho, Region.initial?] at h

/-- **Snapshots.** After any calls from the start, the list of changed variables is strictly
ascending in the bytes of the names. It has an entry for a variable exactly if its name is free or
its value is not equal to the one at the start. Assigning the entries to the variables from the
start succeeds and brings back every value; only a letter with negative zero may get zero. -/
theorem modified_snapshot (cs : List Call) :
    let s := (operations.calls fresh cs).2
    (s.modified.map fun entry => Text.bytes entry.1).Pairwise (· < ·) ∧
    (∀ name v, (name, v) ∈ s.modified ↔ s.get name = .ok v ∧
      ((name ∉ letterNames ∧ name ∉ listNames) ∨
        ∃ v₀, fresh.get name = .ok v₀ ∧ v₀.same v = false)) ∧
    ∃ t, fresh.assignAll s.modified = .ok t ∧ ∀ name, t.get name = s.get name ∨
      name ∈ letterNames ∧ s.get name = .ok (.number (-0.0)) ∧ t.get name = .ok (.number 0) := by
  intro s
  have hs : s.Regular := (calls_view regular_fresh cs).1
  obtain ⟨t, ht, hentries, hwithout⟩ := regular_fresh.assignAll s.modified
    (fun name v h => hs.admits (hs.mem_modified.mp h).1) hs.nodup_modified
  refine ⟨hs.ascending_modified, fun name v => hs.mem_modified, t, ht, fun name => ?_⟩
  by_cases hlisted : ∃ v, (name, v) ∈ s.modified
  · obtain ⟨v, hv⟩ := hlisted
    exact .inl ((hentries name v hv).trans (hs.mem_modified.mp hv).1.symm)
  · have hnone := not_exists.mp hlisted
    rw [hwithout name hnone]
    exact hs.get_of_not_mem hnone

end Slots

end CalcBasic
