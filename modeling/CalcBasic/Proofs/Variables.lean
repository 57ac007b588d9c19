import CalcBasic.Store
import Mathlib.Logic.Function.Basic

/-!
# The variables as one map

The three maps of the variables behave as a single map in which the letters and the built-in lists
keep the kind of their values (`LockedMap`).

1. In regular variables a name is found in at most one of the maps, the one for its region
   (`Slots.Regular.found`). So the order in which an operation looks through the maps does not
   matter: each lookup is that of the single map (`get_eq`, `list_eq`, `listToChange_eq`).
2. Whatever changes the variables puts one value under one name (`Slots.Puts`), and this updates the
   single map (`view_puts`).
3. So calls are answered as by the single map, however many there are (`calls_view`).
-/

namespace CalcBasic

/-! ## Names and their regions -/

theorem isLetter_iff {c : Char} :
    isLetter c = true ↔ c ∈ "ABCDEFGHIJKLMNOPQRSTUVWXYZ".toList := by
  constructor
  · intro h
    have hall : ∀ k : Fin 26, Char.ofNat (65 + k) ∈ "ABCDEFGHIJKLMNOPQRSTUVWXYZ".toList := by
      decide +kernel
    obtain ⟨hlo, hhi⟩ := isLetter_iff_toNat.mp h
    have hc := hall ⟨c.toNat - 65, by omega⟩
    rwa [show 65 + (c.toNat - 65) = c.toNat by omega, Char.ofNat_toNat] at hc
  · have hall : "ABCDEFGHIJKLMNOPQRSTUVWXYZ".toList.all isLetter = true := by decide +kernel
    exact List.all_eq_true.mp hall c

theorem mem_letterNames {name : String} :
    name ∈ letterNames ↔ ∃ c, isLetter c = true ∧ name.toList = [c] := by
  unfold letterNames
  constructor
  · intro h
    obtain ⟨c, hc, rfl⟩ := List.mem_map.mp h
    exact ⟨c, isLetter_iff.mpr hc, String.toList_ofList⟩
  · rintro ⟨c, hc, hname⟩
    exact List.mem_map.mpr ⟨c, isLetter_iff.mp hc, by rw [← hname, String.ofList_toList]⟩

theorem mem_listNames {name : String} :
    name ∈ listNames ↔ ∃ c, ('₁' ≤ c && c ≤ '₆') = true ∧ name.toList = ['L', c] := by
  constructor
  · have hall : (listNames.all fun n => ['₁', '₂', '₃', '₄', '₅', '₆'].any fun c =>
        '₁' ≤ c && c ≤ '₆' && n.toList == ['L', c]) = true := by decide +kernel
    intro h
    obtain ⟨c, -, hc⟩ := List.any_eq_true.mp (List.all_eq_true.mp hall _ h)
    obtain ⟨hc, hname⟩ := (Bool.and_eq_true _ _).mp hc
    exact ⟨c, hc, beq_iff_eq.mp hname⟩
  · rintro ⟨c, hc, hname⟩
    have hall : ∀ k : Fin 6, String.ofList ['L', Char.ofNat (0x2081 + k)] ∈ listNames := by
      decide +kernel
    obtain ⟨hlo, hhi⟩ : 0x2081 ≤ c.toNat ∧ c.toNat ≤ 0x2086 := between_iff_toNat.mp hc
    have hc := hall ⟨c.toNat - 0x2081, by omega⟩
    rwa [show 0x2081 + (c.toNat - 0x2081) = c.toNat by omega, Char.ofNat_toNat, ← hname,
      String.ofList_toList] at hc

theorem Region.of_eq_letter {name : String} : Region.of name = .letter ↔ name ∈ letterNames := by
  rw [mem_letterNames]
  unfold Region.of
  split <;> rename_i h
  · simp [h]
  · rw [h]
    split <;> simp
  · rename_i h'
    simp only [reduceCtorEq, false_iff, not_exists, not_and]
    exact fun c _ => h' c

theorem Region.of_eq_list {name : String} : Region.of name = .list ↔ name ∈ listNames := by
  rw [mem_listNames]
  unfold Region.of
  split <;> rename_i h
  · rw [h]
    split <;> simp
  · rw [h]
    simp
  · simp only [reduceCtorEq, false_iff, not_exists, not_and]
    exact fun c _ => h c

/-! ## A map with kind locks -/

/-- The value that every name of a region has at the start, if it has one. -/
def Region.initial? : Region → Option Value
  | letter => some (.number 0)
  | list => some (.list ⟨#[1]⟩)
  | free => none

/-- The kind that a name of the region has to have; a free name may have any. -/
def Region.kind? : Region → Option Kind
  | letter => some .number
  | list => some .list
  | free => none

/-- A map from names to values. -/
def LockedMap : Type := String → Option Value

namespace LockedMap

/-- Every name has what its region begins with. -/
def initial : LockedMap := fun name => (Region.of name).initial?

/-- The value of a name. -/
def get (m : LockedMap) (name : String) : Except Fault Value :=
  match m name with
  | some v => .ok v
  | none => .error (.undefinedVariable name)

/-- The map with a value put under a name. -/
def put (m : LockedMap) (name : String) (v : Value) : LockedMap := Function.update m name (some v)

/-- Puts a value under a name whose region admits its kind. -/
def assign (m : LockedMap) (name : String) (v : Value) : Except Fault LockedMap :=
  match (Region.of name).kind? with
  | some kind =>
    if v.kind = kind then .ok (m.put name v) else .error (.wrongKind (.assignment name) kind v.kind)
  | none => .ok (m.put name v)

/-- The list that a name has; a letter, which never has one, has words of its own for that. -/
def list (m : LockedMap) (name : String) : Except Fault Numbers :=
  match m name with
  | some (.list l) => .ok l
  | some (.number _) =>
    let purpose := if Region.of name = .letter then .indexed name else .assignment name
    .error (.wrongKind purpose .list .number)
  | none => .error (.undefinedVariable name)

/-- The element of a name's list at an index. -/
def element (m : LockedMap) (name : String) (index : Value) : Except Fault Float := do
  let x ← Slots.index name index
  let l ← m.list name
  match (Numbers.place? x l.size).bind l.get? with
  | some element => .ok element
  | none => .error (.indexOutOfRange name x l.size)

/-- Replaces the element of a name's list at an index, or adds one right behind the last. -/
def setElement (m : LockedMap) (name : String) (value index : Value) : Except Fault LockedMap :=
  match value with
  | .list _ => .error (.wrongKind (.element name) .number .list)
  | .number element => do
    let x ← Slots.index name index
    let l ← m.list name
    match Numbers.place? x (l.size + 1) with
    | none => .error (.indexOutOfRange name x l.size)
    | some place => .ok (m.put name (.list ((l.set? element place).getD (l.push element))))

end LockedMap

/-! ## Calls -/

/-- A call of an operation on variables. -/
inductive Call where
  | get (name : String)
  | element (name : String) (index : Value)
  | assign (name : String) (v : Value)
  | setElement (name : String) (value index : Value)

/-- The operations on variables that are kept as an `S`. -/
structure Operations (S : Type) where
  get : S → String → Except Fault Value
  element : S → String → Value → Except Fault Float
  assign : S → String → Value → Except Fault S
  setElement : S → String → Value → Value → Except Fault S

namespace Operations

variable {S : Type}

/-- The answer to a change and the variables after it; a change that fails leaves them. -/
def settle (s : S) : Except Fault S → Except Fault (Option Value) × S
  | .ok t => (.ok none, t)
  | .error fault => (.error fault, s)

/-- The answer to a call and the variables after it. -/
def call (o : Operations S) (s : S) : Call → Except Fault (Option Value) × S
  | .get name => ((o.get s name).map some, s)
  | .element name index => ((o.element s name index).map fun x => some (.number x), s)
  | .assign name v => settle s (o.assign s name v)
  | .setElement name value index => settle s (o.setElement s name value index)

/-- The answers to calls made one after the other, and the variables after them. -/
def calls (o : Operations S) (s : S) : List Call → List (Except Fault (Option Value)) × S
  | [] => ([], s)
  | c :: cs =>
    let (answer, s) := o.call s c
    let (answers, s) := o.calls s cs
    (answer :: answers, s)

end Operations

/-- The operations on the three maps. -/
def Slots.operations : Operations Slots := ⟨get, element, assign, setElement⟩

/-- The operations on the map with kind locks. -/
def LockedMap.operations : Operations LockedMap := ⟨get, element, assign, setElement⟩

/-! ## The three maps as one -/

namespace Slots

variable {s t : Slots} {name : String} {v : Value}

/-- The variables as a single map. -/
def view (s : Slots) : LockedMap := fun name => (s.get name).toOption

theorem get_eq (s : Slots) (name : String) : s.get name = s.view.get name := by
  unfold LockedMap.get view get
  cases s.numbers[name]? with
  | some x => rfl
  | none =>
    cases s.lists[name]? with
    | some l => rfl
    | none => cases s.others[name]? <;> rfl

/-- In regular variables a name is found in the map for its region and in no other. -/
theorem Regular.found (hs : s.Regular) (name : String) :
    (∃ x, Region.of name = .letter ∧ s.numbers[name]? = some x ∧ s.lists[name]? = none ∧
      s.others[name]? = none) ∨
    (∃ l, Region.of name = .list ∧ s.numbers[name]? = none ∧ s.lists[name]? = some l ∧
      s.others[name]? = none) ∨
    (Region.of name = .free ∧ s.numbers[name]? = none ∧ s.lists[name]? = none) := by
  have hn : s.numbers[name]?.isSome = true ↔ Region.of name = .letter := by
    rw [← Std.TreeMap.mem_iff_isSome_getElem?, hs.numbers, Region.of_eq_letter]
  have hl : s.lists[name]?.isSome = true ↔ Region.of name = .list := by
    rw [← Std.TreeMap.mem_iff_isSome_getElem?, hs.lists, Region.of_eq_list]
  have ho : s.others[name]?.isSome = true → Region.of name = .free := by
    intro h
    have h := hs.others name (Std.TreeMap.mem_iff_isSome_getElem?.mpr h)
    rw [← Region.of_eq_letter, ← Region.of_eq_list] at h
    cases hr : Region.of name <;> simp_all
  cases hr : Region.of name <;> rw [hr] at hn hl ho <;>
    simp_all [Option.eq_none_iff_forall_ne_some]

theorem view_puts (h : s.Puts name v t) : t.view = s.view.put name v := by
  funext other
  unfold LockedMap.put view
  by_cases ho : other = name
  · subst ho
    rw [Function.update_self]
    cases h with
    | number hn => simp [get, Except.toOption]
    | list hn hl => simp [get, hn, Except.toOption]
    | other hn hl => simp [get, hn, hl, Except.toOption]
  · rw [Function.update_of_ne ho]
    cases h <;> simp [get, Std.TreeMap.getElem?_insert, Ne.symm ho]

/-! ## The operations -/

section Operations

variable (hs : s.Regular)

include hs

theorem list_eq (name : String) : s.list name = s.view.list name := by
  obtain ⟨x, hr, hn, hl, ho⟩ | ⟨l, hr, hn, hl, ho⟩ | ⟨hr, hn, hl⟩ := hs.found name
  · simp [list, LockedMap.list, view, get, hr, hn, hl, ho, Std.TreeMap.mem_iff_isSome_getElem?,
      Except.toOption]
  · simp [list, LockedMap.list, view, get, hn, hl, Except.toOption]
  · unfold list LockedMap.list view get
    rw [hn, hl]
    cases ho : s.others[name]? with
    | none => simp [hn, Std.TreeMap.mem_iff_isSome_getElem?, Except.toOption]
    | some v => cases v <;> simp [hr, Except.toOption]

/-- The list that is found to be changed is the one that is found to be read. -/
theorem listToChange_eq (name : String) :
    (s.listToChange name).map Prod.fst = s.view.list name := by
  have hmem : name ∈ s.numbers ↔ s.numbers[name]?.isSome = true :=
    Std.TreeMap.mem_iff_isSome_getElem?
  obtain ⟨x, hr, hn, hl, ho⟩ | ⟨l, hr, hn, hl, ho⟩ | ⟨hr, hn, hl⟩ := hs.found name
  · simp [listToChange, LockedMap.list, view, get, hr, hn, hmem, Except.toOption, Except.map]
  · simp [listToChange, LockedMap.list, view, get, hn, hl, hmem, Except.toOption, Except.map]
  · unfold listToChange LockedMap.list view get
    rw [if_neg (by simp [hmem, hn]), hn, hl]
    cases ho : s.others[name]? with
    | none => simp [Except.toOption, Except.map]
    | some v => cases v <;> simp [hr, Except.toOption, Except.map]

theorem element_eq (name : String) (index : Value) :
    s.element name index = s.view.element name index := by
  unfold element LockedMap.element
  exact list_eq hs name ▸ rfl

theorem assign_eq (name : String) (v : Value) :
    (s.assign name v).map view = s.view.assign name v := by
  have hn : name ∈ s.numbers ↔ Region.of name = .letter :=
    (hs.numbers name).trans Region.of_eq_letter.symm
  have hl : name ∈ s.lists ↔ Region.of name = .list :=
    (hs.lists name).trans Region.of_eq_list.symm
  cases ha : s.assign name v with
  | ok t =>
    have hput := puts_of_assign ha
    rw [Except.map, view_puts hput]
    unfold LockedMap.assign
    cases hput with
    | number h => rw [hn.mp h]; rfl
    | list h' h => rw [hl.mp h]; rfl
    | other h h' =>
      cases hr : Region.of name with
      | letter => exact absurd (hn.mpr hr) h
      | list => exact absurd (hl.mpr hr) h'
      | free => rfl
  | error fault =>
    unfold assign at ha
    unfold LockedMap.assign
    split at ha
    · next h =>
      rw [hn.mp h]
      cases v <;> cases ha
      rfl
    · split at ha
      · next h =>
        rw [hl.mp h]
        cases v <;> cases ha
        rfl
      · cases ha

theorem setElement_eq (name : String) (value index : Value) :
    (s.setElement name value index).map view = s.view.setElement name value index := by
  unfold setElement LockedMap.setElement
  cases value with
  | list l => rfl
  | number x =>
    cases Slots.index name index with
    | error fault => rfl
    | ok place =>
      rw [← listToChange_eq hs name]
      cases hl : s.listToChange name with
      | error fault => rfl
      | ok found =>
        obtain ⟨l, put⟩ := found
        dsimp only [bind, Except.bind, Except.map]
        cases Numbers.place? place (l.size + 1) with
        | none => rfl
        | some n => exact congrArg _ (view_puts (puts_of_listToChange hl _))

/-- What changes variables keeps them regular, if it does so whenever it succeeds. -/
theorem regular_settle {o : Except Fault Slots} (ho : ∀ t, o = .ok t → t.Regular) :
    (Operations.settle s o).2.Regular := by
  cases o with
  | ok t => exact ho t rfl
  | error fault => exact hs

theorem regular_call (c : Call) : (operations.call s c).2.Regular := by
  cases c with
  | get name => exact hs
  | element name index => exact hs
  | assign name v => exact regular_settle hs fun t h => hs.puts (puts_of_assign h)
  | setElement name value index =>
    refine regular_settle hs fun t h => ?_
    obtain ⟨l, hput⟩ := puts_of_setElement h
    exact hs.puts hput

end Operations

/-- The answers are the same, and so are the variables afterwards. -/
def Matches {α : Type} (a : α × Slots) (b : α × LockedMap) : Prop := a.1 = b.1 ∧ a.2.view = b.2

theorem matches_settle {o : Except Fault Slots} {o' : Except Fault LockedMap}
    (h : o.map view = o') : Matches (Operations.settle s o) (Operations.settle s.view o') := by
  subst h
  cases o with
  | ok t => exact ⟨rfl, rfl⟩
  | error fault => exact ⟨rfl, rfl⟩

theorem call_view (hs : s.Regular) (c : Call) :
    Matches (operations.call s c) (LockedMap.operations.call s.view c) := by
  cases c with
  | get name => exact ⟨congrArg (Except.map some) (s.get_eq name), rfl⟩
  | element name index => exact ⟨congrArg (Except.map _) (element_eq hs name index), rfl⟩
  | assign name v => exact matches_settle (assign_eq hs name v)
  | setElement name value index => exact matches_settle (setElement_eq hs name value index)

/-- **Calls.** Regular variables stay regular, and answer as the single map does. -/
theorem calls_view (hs : s.Regular) (cs : List Call) :
    (operations.calls s cs).2.Regular ∧
      Matches (operations.calls s cs) (LockedMap.operations.calls s.view cs) := by
  induction cs generalizing s with
  | nil => exact ⟨hs, rfl, rfl⟩
  | cons c cs ih =>
    obtain ⟨hanswer, hview⟩ := call_view hs c
    obtain ⟨hregular, hanswers, hlater⟩ := ih (regular_call hs c)
    rw [hview] at hanswers hlater
    exact ⟨hregular, congr (congrArg List.cons hanswer) hanswers, hlater⟩

theorem getElem?_ofList_map {α : Type} {names : List String} (hnames : names.Nodup) (v : α)
    (h : name ∈ names) :
    (Std.TreeMap.ofList (names.map fun n => (n, v)) compare)[name]? = some v := by
  refine Std.TreeMap.getElem?_ofList_of_mem Std.ReflCmp.compare_self ?_
    (List.mem_map_of_mem (f := fun n => (n, v)) h)
  rw [List.pairwise_map]
  exact hnames.imp fun hne heq => hne (Std.LawfulEqCmp.compare_eq_iff_eq.mp heq)

theorem nodup_letterNames : letterNames.Nodup := by decide +kernel

theorem nodup_listNames : listNames.Nodup := by decide +kernel

theorem getElem?_numbers_fresh (h : Region.of name = .letter) :
    fresh.numbers[name]? = some 0 :=
  getElem?_ofList_map nodup_letterNames _ (Region.of_eq_letter.mp h)

theorem getElem?_lists_fresh (h : Region.of name = .list) :
    fresh.lists[name]? = some ⟨#[1]⟩ :=
  getElem?_ofList_map nodup_listNames _ (Region.of_eq_list.mp h)

theorem view_fresh : fresh.view = .initial := by
  funext name
  unfold view get LockedMap.initial
  obtain ⟨x, hr, -, -, -⟩ | ⟨l, hr, hn, -, -⟩ | ⟨hr, hn, hl⟩ := regular_fresh.found name
  · rw [getElem?_numbers_fresh hr, hr]
    rfl
  · rw [hn, getElem?_lists_fresh hr, hr]
    rfl
  · have ho : fresh.others[name]? = none := Std.TreeMap.getElem?_emptyc
    rw [hn, hl, ho, hr]
    rfl

end Slots

/-! ## What the single map does -/

namespace LockedMap

variable {m : LockedMap} {name : String} {v : Value}

theorem put_self : (m.put name v) name = some v := Function.update_self ..

theorem put_of_ne {other : String} (h : other ≠ name) : (m.put name v) other = m other :=
  Function.update_of_ne h ..

theorem get_eq_error {fault : Fault} :
    m.get name = .error fault ↔ fault = .undefinedVariable name ∧ m name = none := by
  unfold get
  cases m name with
  | none => simp [eq_comm]
  | some v => simp

theorem assign_eq_error {fault : Fault} : m.assign name v = .error fault ↔
    ∃ kind, (Region.of name).kind? = some kind ∧ v.kind ≠ kind ∧
      fault = .wrongKind (.assignment name) kind v.kind := by
  unfold assign
  cases (Region.of name).kind? with
  | none => simp
  | some kind =>
    by_cases hk : v.kind = kind
    · simp [hk]
    · simp [hk, @eq_comm _ fault]

/-- A list is changed only under a name that has one. -/
theorem exists_of_setElement {m' : LockedMap} {value index : Value}
    (h : m.setElement name value index = .ok m') :
    ∃ l changed, m name = some (.list l) ∧ m' = m.put name (.list changed) := by
  unfold setElement at h
  cases value with
  | list l => cases h
  | number x =>
    cases hi : Slots.index name index with
    | error fault => rw [hi] at h; cases h
    | ok place =>
      cases hl : m.list name with
      | error fault => rw [hi, hl] at h; cases h
      | ok l =>
        rw [hi, hl] at h
        dsimp only [bind, Except.bind] at h
        refine ⟨l, ?_⟩
        split at h <;> cases h
        refine ⟨_, ?_, rfl⟩
        unfold list at hl
        split at hl <;> cases hl
        assumption

theorem assign_eq_ok {m' : LockedMap} (h : m.assign name v = .ok m') : m' = m.put name v := by
  unfold assign at h
  split at h
  · split at h <;> cases h
    rfl
  · cases h
    rfl

theorem assign_free (h : Region.of name = .free) : m.assign name v = .ok (m.put name v) := by
  unfold assign
  rw [h]
  rfl

/-- What a call does to the map: nothing, or it puts a value under a name, in an assignment or where
the name has a value. -/
theorem call_cases (m : LockedMap) (c : Call) :
    (operations.call m c).2 = m ∧ (∀ name v, c = .assign name v → Region.of name ≠ .free) ∨
      ∃ name v, (operations.call m c).2 = m.put name v ∧ (c = .assign name v ∨
        (m name ≠ none ∧ ∀ name v, c ≠ .assign name v)) := by
  cases c with
  | get name => exact .inl ⟨rfl, nofun⟩
  | element name index => exact .inl ⟨rfl, nofun⟩
  | assign name v =>
    cases h : m.assign name v with
    | ok m' =>
      refine .inr ⟨name, v, ?_, .inl rfl⟩
      rw [← assign_eq_ok h]
      exact congrArg (fun o => (Operations.settle m o).2) h
    | error fault =>
      refine .inl ⟨congrArg (fun o => (Operations.settle m o).2) h, ?_⟩
      rintro _ _ ⟨⟩ hfree
      rw [assign_free hfree] at h
      cases h
  | setElement name value index =>
    cases h : m.setElement name value index with
    | ok m' =>
      obtain ⟨l, changed, hl, rfl⟩ := exists_of_setElement h
      refine .inr ⟨name, .list changed, congrArg (fun o => (Operations.settle m o).2) h, .inr ?_⟩
      exact ⟨by simp [hl], nofun⟩
    | error fault => exact .inl ⟨congrArg (fun o => (Operations.settle m o).2) h, nofun⟩

theorem call_ne_none (c : Call) (h : m name ≠ none) : (operations.call m c).2 name ≠ none := by
  obtain ⟨hm, -⟩ | ⟨other, v, hm, -⟩ := call_cases m c
  · rwa [hm]
  · rw [hm]
    by_cases hname : name = other
    · subst hname
      simp [put_self]
    · rwa [put_of_ne hname]

/-- A free name without a value has one after a call exactly if the call assigns it. -/
theorem call_eq_none (c : Call) (hfree : Region.of name = .free) (h : m name = none) :
    (operations.call m c).2 name = none ↔ ∀ v, c ≠ .assign name v := by
  obtain ⟨hm, hc⟩ | ⟨other, v, hm, hc⟩ := call_cases m c
  · rw [hm]
    exact ⟨fun _ v hv => hc name v hv hfree, fun _ => h⟩
  · rw [hm]
    by_cases hname : name = other
    · subst hname
      obtain rfl | ⟨hm, -⟩ := hc
      · simp [put_self]
      · exact absurd h hm
    · rw [put_of_ne hname]
      refine ⟨fun _ v' hv' => ?_, fun _ => h⟩
      obtain rfl | ⟨-, hc⟩ := hc
      · cases hv'
        exact hname rfl
      · exact hc _ _ hv'

theorem calls_ne_none (cs : List Call) (h : m name ≠ none) :
    (operations.calls m cs).2 name ≠ none := by
  induction cs generalizing m with
  | nil => exact h
  | cons c cs ih => exact ih (call_ne_none c h)

theorem calls_eq_none (cs : List Call) (hfree : Region.of name = .free) (h : m name = none) :
    (operations.calls m cs).2 name = none ↔ ∀ v, Call.assign name v ∉ cs := by
  induction cs generalizing m with
  | nil => simp [Operations.calls, h]
  | cons c cs ih =>
    have hstep := call_eq_none c hfree h
    change (operations.calls (operations.call m c).2 cs).2 name = none ↔ _
    simp only [List.mem_cons, not_or, forall_and, @ne_comm Call _ c]
    rw [← hstep]
    by_cases hnone : (operations.call m c).2 name = none
    · rw [ih hnone]
      simp [hnone]
    · simp [hnone, calls_ne_none cs hnone]

/-- After calls from the start, a name has no value exactly if it is free and was not assigned. -/
theorem calls_initial_eq_none (cs : List Call) : (operations.calls initial cs).2 name = none ↔
    Region.of name = .free ∧ ∀ v, Call.assign name v ∉ cs := by
  have hinitial : initial name = (Region.of name).initial? := rfl
  cases hr : Region.of name with
  | free =>
    rw [hr] at hinitial
    simp [calls_eq_none cs hr hinitial]
  | letter | list =>
    have hsome : initial name ≠ none := by simp [hinitial, hr, Region.initial?]
    simp [calls_ne_none cs hsome]

end LockedMap

/-! ## Sequences of calls -/

namespace Slots

variable {s : Slots} {name : String} {v : Value}

theorem assign_eq_error (hs : s.Regular) {fault : Fault} :
    s.assign name v = .error fault ↔ ∃ kind, (Region.of name).kind? = some kind ∧
      v.kind ≠ kind ∧ fault = .wrongKind (.assignment name) kind v.kind := by
  rw [← LockedMap.assign_eq_error (m := s.view), ← assign_eq hs]
  cases s.assign name v with
  | ok t => simp [Except.map]
  | error e => simp [Except.map]

/-- The kinds that names do not admit are lists for the letters and numbers for the lists. -/
theorem exists_kind_ne : (∃ kind, (Region.of name).kind? = some kind ∧ v.kind ≠ kind) ↔
    name ∈ letterNames ∧ v.kind = .list ∨ name ∈ listNames ∧ v.kind = .number := by
  rw [← Region.of_eq_letter, ← Region.of_eq_list]
  cases Region.of name <;> cases v <;> simp [Region.kind?, Value.kind]

theorem get_puts {t : Slots} (h : s.Puts name v t) :
    t.get name = .ok v ∧ ∀ other, other ≠ name → t.get other = s.get other := by
  refine ⟨?_, fun other hother => ?_⟩
  · rw [get_eq, view_puts h, LockedMap.get, LockedMap.put_self]
  · rw [get_eq, view_puts h, LockedMap.get, LockedMap.put_of_ne hother, get_eq s other]
    rfl

theorem call_fails (c : Call) {fault : Fault} (h : (operations.call s c).1 = .error fault) :
    (operations.call s c).2 = s := by
  have hsettle : ∀ o, (Operations.settle s o).1 = .error fault → (Operations.settle s o).2 = s := by
    intro o ho
    cases o with
    | ok t => cases ho
    | error e => rfl
  cases c with
  | get name => rfl
  | element name index => rfl
  | assign name v => exact hsettle _ h
  | setElement name value index => exact hsettle _ h

/-- What holds of the variables after some calls. -/
structure Locked (cs : List Call) (s : Slots) : Prop where
  numbers : ∀ name, name ∈ s.numbers ↔ name ∈ letterNames
  lists : ∀ name, name ∈ s.lists ↔ name ∈ listNames
  others : ∀ name ∈ s.others, name ∉ letterNames ∧ name ∉ listNames
  /-- An assignment fails exactly if it would change the kind of a letter or of a built-in list. -/
  assign_fails : ∀ name v, (∃ fault, s.assign name v = .error fault) ↔
    name ∈ letterNames ∧ v.kind = .list ∨ name ∈ listNames ∧ v.kind = .number
  assign_fault : ∀ name v fault, s.assign name v = .error fault → fault.title = "type mismatch"
  /-- An assignment changes one variable. -/
  get_assign : ∀ name v t, s.assign name v = .ok t →
    t.get name = .ok v ∧ ∀ other, other ≠ name → t.get other = s.get other
  /-- A call that fails changes nothing. -/
  call_fails : ∀ c fault, (operations.call s c).1 = .error fault → (operations.call s c).2 = s
  /-- A variable is undefined exactly if it is free and was not assigned. -/
  get_fails : ∀ name fault, s.get name = .error fault ↔ fault = .undefinedVariable name ∧
    name ∉ letterNames ∧ name ∉ listNames ∧ ∀ v, Call.assign name v ∉ cs
  /-- A list is found to be read and to be changed under the same names and with the same faults. -/
  lookups : ∀ name, s.list name = (s.listToChange name).map Prod.fst

/-- **The variables are a map with kind locks.** Calls from the start are answered as by a single
map, and after any calls each of the three maps holds the names that are its own, so that the orders
in which they are searched make no difference. -/
theorem calls_locked (cs : List Call) :
    (operations.calls fresh cs).1 = (LockedMap.operations.calls .initial cs).1 ∧
      Locked cs (operations.calls fresh cs).2 := by
  obtain ⟨hs, hanswers, hview⟩ := calls_view regular_fresh cs
  rw [view_fresh] at hanswers hview
  refine ⟨hanswers, ?_⟩
  generalize (operations.calls fresh cs).2 = s at hs hview
  refine ⟨hs.numbers, hs.lists, hs.others, fun name v => ?_, fun name v fault h => ?_,
    fun name v t h => get_puts (puts_of_assign h), fun c fault => call_fails c,
    fun name fault => ?_, fun name => ?_⟩
  · simp only [assign_eq_error hs, exists_comm (α := Fault), ← exists_kind_ne]
    simp
  · obtain ⟨kind, -, -, rfl⟩ := (assign_eq_error hs).mp h
    rfl
  · rw [get_eq, LockedMap.get_eq_error, hview, LockedMap.calls_initial_eq_none,
      ← Region.of_eq_letter, ← Region.of_eq_list]
    cases Region.of name <;> simp
  · rw [list_eq hs, listToChange_eq hs]

end Slots

/-! ## Stores -/

namespace Store

variable {s t : Store} {name : String} {v : Value}

theorem assign_eq_ok : s.assign name v = .ok t ↔ s.toSlots.assign name v = .ok t.toSlots := by
  obtain ⟨t, ht⟩ := t
  unfold assign
  split <;> rename_i h <;> simp [h]

theorem assign_eq_error {fault : Fault} :
    s.assign name v = .error fault ↔ s.toSlots.assign name v = .error fault := by
  unfold assign
  split <;> rename_i h <;> simp [h]

end Store

end CalcBasic
