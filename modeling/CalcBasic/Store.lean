import CalcBasic.Fault
import Std.Data.TreeMap

/-!
# The variables

The variables stand in three maps: the letters with their numbers, the built-in lists with their
lists, and all other names with values of either kind. Which map a name belongs to is found by
looking for it, so everything rests on each map holding the names that are its own
(`Slots.Regular`). Operations keep this, and a `Store` is three maps for which it holds.

An operation that fails gives no store, so whoever called it still has the one from before.
-/

namespace CalcBasic

/-- The names of the built-in lists. -/
def listNames : List String := ["L₁", "L₂", "L₃", "L₄", "L₅", "L₆"]

/-- The names of the letters. -/
def letterNames : List String := "ABCDEFGHIJKLMNOPQRSTUVWXYZ".toList.map fun c => String.ofList [c]

/-- The variables and their values, in a map for each region. -/
structure Slots where
  numbers : Std.TreeMap String Float
  lists : Std.TreeMap String Numbers
  others : Std.TreeMap String Value

namespace Slots

/-- The variables at the start: every letter is zero, and every built-in list holds a single one. -/
def fresh : Slots where
  numbers := .ofList (letterNames.map fun n => (n, (0 : Float)))
  lists := .ofList (listNames.map fun n => (n, (⟨#[1]⟩ : Numbers)))
  others := ∅

/-- The value of a variable. -/
def get (s : Slots) (name : String) : Except Fault Value :=
  match s.numbers[name]? with
  | some x => .ok (.number x)
  | none =>
    match s.lists[name]? with
    | some l => .ok (.list l)
    | none =>
      match s.others[name]? with
      | some v => .ok v
      | none => .error (.undefinedVariable name)

/-- Gives a variable a value; a name that has a map of its own keeps its kind. -/
def assign (s : Slots) (name : String) (v : Value) : Except Fault Slots :=
  if name ∈ s.numbers then
    match v with
    | .number x => .ok { s with numbers := s.numbers.insert name x }
    | .list _ => .error (.wrongKind (.assignment name) .number .list)
  else if name ∈ s.lists then
    match v with
    | .list l => .ok { s with lists := s.lists.insert name l }
    | .number _ => .error (.wrongKind (.assignment name) .list .number)
  else .ok { s with others := s.others.insert name v }

/-- The list that a variable holds. -/
def list (s : Slots) (name : String) : Except Fault Numbers :=
  match s.lists[name]? with
  | some l => .ok l
  | none =>
    match s.others[name]? with
    | some (.list l) => .ok l
    | some (.number _) => .error (.wrongKind (.assignment name) .list .number)
    | none =>
      if name ∈ s.numbers then .error (.wrongKind (.indexed name) .list .number)
      else .error (.undefinedVariable name)

/-- The list that a variable holds, and the variables with another list in its place. -/
def listToChange (s : Slots) (name : String) : Except Fault (Numbers × (Numbers → Slots)) :=
  if name ∈ s.numbers then .error (.wrongKind (.indexed name) .list .number)
  else
    match s.lists[name]? with
    | some l => .ok (l, fun l => { s with lists := s.lists.insert name l })
    | none =>
      match s.others[name]? with
      | some (.list l) => .ok (l, fun l => { s with others := s.others.insert name (.list l) })
      | some (.number _) => .error (.wrongKind (.assignment name) .list .number)
      | none => .error (.undefinedVariable name)

/-- The number that an index is. -/
def index (name : String) : Value → Except Fault Float
  | .number x => .ok x
  | .list _ => .error (.wrongKind (.index name) .number .list)

/-- The element of a list variable at an index. -/
def element (s : Slots) (name : String) (index : Value) : Except Fault Float := do
  let x ← Slots.index name index
  let l ← s.list name
  match (Numbers.place? x l.size).bind l.get? with
  | some element => .ok element
  | none => .error (.indexOutOfRange name x l.size)

/-- Replaces the element of a list variable at an index, or adds one right behind the last. -/
def setElement (s : Slots) (name : String) (value index : Value) : Except Fault Slots :=
  match value with
  | .list _ => .error (.wrongKind (.element name) .number .list)
  | .number element => do
    let x ← Slots.index name index
    let (l, put) ← s.listToChange name
    match Numbers.place? x (l.size + 1) with
    | none => .error (.indexOutOfRange name x l.size)
    | some place => .ok (put ((l.set? element place).getD (l.push element)))

/-- The variables that have another value than at the start, in ascending order of their names. -/
def modified (s : Slots) : List (String × Value) :=
  let numbers := s.numbers.toList.filter fun (name, x) => !(fresh.numbers[name]?.any (· == x))
  let lists := s.lists.toList.filter fun (name, l) =>
    !(fresh.lists[name]?.any (·.items == l.items))
  let all := numbers.map (fun (name, x) => (name, Value.number x)) ++
    lists.map (fun (name, l) => (name, Value.list l)) ++ s.others.toList
  all.mergeSort fun a b => decide (a.1 ≤ b.1)

/-- Whether two maps hold the same names with values that are the same. -/
def sameEntries {α : Type} (same : α → α → Bool) (s t : Std.TreeMap String α) : Bool :=
  let left := s.toList
  let right := t.toList
  left.length == right.length &&
    (left.zip right).all fun (a, b) => a.1 == b.1 && same a.2 b.2

/-- Whether the same names have the same values. -/
def same (s t : Slots) : Bool :=
  sameEntries (· == ·) s.numbers t.numbers &&
    sameEntries (fun l m => l.items == m.items) s.lists t.lists &&
    sameEntries Value.same s.others t.others

/-- The variables `t` are those of `s` with a value put where the name is found, or where names that
are not found go. -/
inductive Puts (s : Slots) (name : String) : Value → Slots → Prop where
  | number {x : Float} (h : name ∈ s.numbers) :
    Puts s name (.number x) { s with numbers := s.numbers.insert name x }
  | list {l : Numbers} (hn : name ∉ s.numbers) (h : name ∈ s.lists) :
    Puts s name (.list l) { s with lists := s.lists.insert name l }
  | other {v : Value} (hn : name ∉ s.numbers) (hl : name ∉ s.lists) :
    Puts s name v { s with others := s.others.insert name v }

theorem puts_of_assign {s t : Slots} {name : String} {v : Value} (h : s.assign name v = .ok t) :
    s.Puts name v t := by
  unfold assign at h
  split at h
  · next hn =>
    cases v with
    | number x => cases h; exact .number hn
    | list l => cases h
  · next hn =>
    split at h
    · next hl =>
      cases v with
      | number x => cases h
      | list l => cases h; exact .list hn hl
    · next hl => cases h; exact .other hn hl

theorem puts_of_listToChange {s : Slots} {name : String} {l : Numbers} {put : Numbers → Slots}
    (h : s.listToChange name = .ok (l, put)) (changed : Numbers) :
    s.Puts name (.list changed) (put changed) := by
  unfold listToChange at h
  split at h
  · cases h
  · next hn =>
    split at h
    · next hl =>
      cases h
      exact .list hn (Std.TreeMap.mem_iff_isSome_getElem?.mpr (hl ▸ rfl))
    · next hl =>
      have hl : name ∉ s.lists := fun hmem => by
        rw [Std.TreeMap.mem_iff_isSome_getElem?, hl] at hmem
        cases hmem
      split at h <;> cases h
      exact .other hn hl

theorem puts_of_setElement {s t : Slots} {name : String} {value index : Value}
    (h : s.setElement name value index = .ok t) : ∃ changed, s.Puts name (.list changed) t := by
  unfold setElement at h
  cases value with
  | list l => cases h
  | number x =>
    dsimp only at h
    cases hi : Slots.index name index with
    | error fault => rw [hi] at h; cases h
    | ok place =>
      rw [hi] at h
      cases hl : s.listToChange name with
      | error fault => rw [hl] at h; cases h
      | ok found =>
        obtain ⟨l, put⟩ := found
        rw [hl] at h
        dsimp only [bind, Except.bind] at h
        split at h <;> cases h
        exact ⟨_, puts_of_listToChange hl _⟩

/-- Each map holds names of its own region, and the first two hold all of theirs. -/
structure Regular (s : Slots) : Prop where
  numbers : ∀ name, name ∈ s.numbers ↔ name ∈ letterNames
  lists : ∀ name, name ∈ s.lists ↔ name ∈ listNames
  others : ∀ name ∈ s.others, name ∉ letterNames ∧ name ∉ listNames

theorem regular_fresh : fresh.Regular := by
  refine ⟨fun name => ?_, fun name => ?_, fun name hname => ?_⟩
  · simp [fresh]
  · simp [fresh]
  · simp [fresh] at hname

theorem mem_insert_of_mem {α : Type} {m : Std.TreeMap String α} {name : String} {v : α}
    (h : name ∈ m) (other : String) : other ∈ m.insert name v ↔ other ∈ m := by
  rw [Std.TreeMap.mem_insert, Std.LawfulEqCmp.compare_eq_iff_eq]
  exact ⟨fun h' => h'.elim (fun e => e ▸ h) id, .inr⟩

/-- Putting a value where it belongs leaves the names of the regions as they are. -/
theorem Regular.puts {s t : Slots} {name : String} {v : Value} (hs : s.Regular)
    (h : s.Puts name v t) : t.Regular := by
  cases h with
  | number hn =>
    exact ⟨fun other => (mem_insert_of_mem hn other).trans (hs.numbers other), hs.lists, hs.others⟩
  | list hn hl =>
    exact ⟨hs.numbers, fun other => (mem_insert_of_mem hl other).trans (hs.lists other), hs.others⟩
  | other hn hl =>
    refine ⟨hs.numbers, hs.lists, fun other hother => ?_⟩
    rw [Std.TreeMap.mem_insert, Std.LawfulEqCmp.compare_eq_iff_eq] at hother
    obtain rfl | hother := hother
    · exact ⟨fun h => hn ((hs.numbers _).mpr h), fun h => hl ((hs.lists _).mpr h)⟩
    · exact hs.others other hother

end Slots

/-- Variables of which each stands in the map for its region. -/
structure Store extends Slots where
  regular : toSlots.Regular

namespace Store

/-- The variables at the start. -/
def fresh : Store := ⟨.fresh, Slots.regular_fresh⟩

/-- Gives a variable a value of a kind that its region admits. -/
def assign (s : Store) (name : String) (v : Value) : Except Fault Store :=
  match h : s.toSlots.assign name v with
  | .ok t => .ok ⟨t, s.regular.puts (Slots.puts_of_assign h)⟩
  | .error fault => .error fault

/-- Replaces the element of a list variable at an index, or adds one right behind the last. -/
def setElement (s : Store) (name : String) (value index : Value) : Except Fault Store :=
  match h : s.toSlots.setElement name value index with
  | .ok t => .ok ⟨t, (Slots.puts_of_setElement h).elim fun _ => s.regular.puts⟩
  | .error fault => .error fault

/-- Whether two stores hold the same names with the same values. -/
def same (s t : Store) : Bool := s.toSlots.same t.toSlots

end Store

end CalcBasic
