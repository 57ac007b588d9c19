import CalcBasic.Proofs.Discipline
import CalcBasic.Proofs.Tiling
import CalcBasic.Session

/-!
# Which names variables have

The variables are kept in three maps, and a name that is neither a letter nor a built-in list goes
to the third. Nothing there looks at how the name is written: that it is the name of a free variable
rests on how names come to be.

1. A token with a name has one of three forms (`Word.isName`), and the names of a program are those
   of its tokens (`Program.names_subset_of_parse`), those before an index among the names that may
   stand there (`Stmt.Shaped.indexable`). So it is for a typed line.
2. The maps stay well named when a value is put under such a name (`Slots.Named.puts`), and the
   faults of looking one up are proper (`Slots.get_proper`, `Slots.element_proper`). Under a name
   that can have no elements, looking one up must fail (`Slots.list_other`).
3. So these names are a discipline (`Discipline.naming`), and every run of a program keeps to it. A
   session is runs, resets and input, one after the other (`Session.performAll_named`).
-/

namespace CalcBasic

open Reader

variable {σ : Type}

/-! ## Names of variables -/

/-- The name of a free variable: a floor sign, a letter, and then letters and digits. -/
def IsFreeName (n : String) : Prop :=
  ∃ c cs, n.toList = '⌊' :: c :: cs ∧ isLetter c = true ∧ ∀ d ∈ cs, Rule.isNameChar d = true

/-- The name of a variable that can have elements: a built-in list or a free variable. -/
def IsListed (n : String) : Prop := n ∈ listNames ∨ IsFreeName n

/-- The name of a variable. -/
def IsName (n : String) : Prop := n ∈ letterNames ∨ IsListed n

variable {n : String}

theorem IsFreeName.region (h : IsFreeName n) : Region.of n = .free := by
  obtain ⟨c, cs, hn, -, -⟩ := h
  unfold Region.of
  rw [hn]
  cases cs <;> rfl

theorem IsListed.region_ne (h : IsListed n) : Region.of n ≠ .letter := by
  rcases h with h | h
  · rw [Region.of_eq_list.mpr h]
    nofun
  · rw [h.region]
    nofun

/-- A name in the free region is that of a free variable. -/
theorem IsName.free (h : IsName n) (hr : Region.of n = .free) : IsFreeName n := by
  rcases h with h | h | h
  · rw [Region.of_eq_letter.mpr h] at hr
    cases hr
  · rw [Region.of_eq_list.mpr h] at hr
    cases hr
  · exact h

theorem IsName.listed (h : IsName n) (hr : (Region.of n).isIndexable = true) : IsListed n := by
  rcases h with h | h
  · rw [Region.of_eq_letter.mpr h] at hr
    cases hr
  · exact h

/-! ## Names in a text -/

theorem Rule.name?_fixedSpellings : ∀ p ∈ fixedSpellings, p.2.name? = none := by
  decide

theorem Rule.mem_listNames_of_subscript? {c digit : Char} (h : subscript? c = some digit) :
    String.ofList ['L', digit] ∈ listNames := by
  unfold subscript? at h
  split at h <;> cases h <;> decide +kernel

theorem Word.isName {l : List Char} {t : Token} (h : Word l t) (hn : t.name? = some n) :
    IsName n := by
  cases h with
  | fixed h =>
    rw [Rule.name?_fixedSpellings _ h] at hn
    cases hn
  | letter hc =>
    cases hn
    exact .inl (mem_letterNames.mpr ⟨_, hc, String.toList_ofList⟩)
  | listName hc =>
    cases hn
    exact .inr (.inl (Rule.mem_listNames_of_subscript? hc))
  | freeName hc hcs =>
    cases hn
    exact .inr (.inr ⟨_, _, String.toList_ofList, hc, hcs⟩)
  | whole | fraction | text => cases hn
  | labelled h =>
    rcases List.mem_cons.mp h with h | h
    · cases h
      cases hn
    · cases List.mem_singleton.mp h
      cases hn

/-- All tokens of a text, word by word. -/
theorem Tiling.isName {offset : Nat} {cs : List Char} {ts : List (Spanned Token)}
    (h : Tiling offset cs ts) : ∀ n ∈ (nodes ts).filterMap Token.name?, IsName n := by
  intro n hn
  obtain ⟨t, ht, hname⟩ := List.mem_filterMap.mp hn
  induction h with
  | done => cases ht
  | skip _ _ ih => exact ih (List.mem_filterMap.mpr ⟨t, ht, hname⟩) ht
  | word h _ ih =>
    rcases List.mem_cons.mp ht with rfl | ht
    · exact h.word.isName hname
    · exact ih (List.mem_filterMap.mpr ⟨t, ht, hname⟩) ht

theorem Token.isName_of_read {source : String} {ts : List (Spanned Token)}
    (h : Token.read source = .ok ts) : ∀ n ∈ (nodes ts).filterMap Token.name?, IsName n :=
  (Token.read_eq_ok_tiling.mp h).isName

theorem Token.isName_of_mem_namesIn {line : String} (hn : n ∈ Token.namesIn line) : IsName n := by
  unfold Token.namesIn at hn
  cases h : Token.read line with
  | error u =>
    rw [h] at hn
    cases hn
  | ok ts =>
    rw [h] at hn
    exact Token.isName_of_read h n hn

/-! ## Names before an index -/

/-- The names that stand before an index occur among the names, and may stand there. -/
def Indexable (names indexed : List String) : Prop :=
  ∀ n ∈ indexed, n ∈ names ∧ (Region.of n).isIndexable = true

namespace Indexable

variable {names names' indexed indexed' : List String}

theorem nil : Indexable names [] := nofun

theorem mono (h : Indexable names indexed) (hsub : names ⊆ names') : Indexable names' indexed :=
  fun n hn => ⟨hsub (h n hn).1, (h n hn).2⟩

theorem cons (h : Indexable names indexed) : Indexable (n :: names) indexed :=
  h.mono (List.subset_cons_self n names)

theorem element (h : Indexable names indexed) (hn : (Region.of n).isIndexable = true) :
    Indexable (n :: names) (n :: indexed) :=
  List.forall_mem_cons.mpr ⟨⟨List.mem_cons_self, hn⟩, h.cons⟩

theorem append (h : Indexable names indexed) (h' : Indexable names' indexed') :
    Indexable (names ++ names') (indexed ++ indexed') :=
  List.forall_mem_append.mpr
    ⟨h.mono (List.subset_append_left _ _), h'.mono (List.subset_append_right _ _)⟩

end Indexable

namespace Expr

mutual

/-- In a shaped expression a name that stands before an index is one that may. -/
theorem Shaped.indexable {e : Expr σ} {ph : Phrase} (h : e.Shaped ph) :
    Indexable e.names e.indexed := by
  cases e with
  | literal | var => exact .nil
  | element _ name index => exact (Shaped.indexable h.2).element h.1
  | list _ items => exact ShapedAll.indexable h.2
  | binary _ op left right => exact (Shaped.indexable h.2.1).append (Shaped.indexable h.2.2)
  | signed _ sign operand =>
    obtain ⟨inner, -, he⟩ := h
    exact Shaped.indexable (e := operand) he
  | group _ inner => exact Shaped.indexable (e := inner) h

theorem ShapedAll.indexable {es : List (Expr σ)} (h : ShapedAll es) :
    Indexable (namesAll es) (indexedAll es) := by
  cases es with
  | nil => exact .nil
  | cons e es => exact (Shaped.indexable h.1).append (ShapedAll.indexable h.2)

end

end Expr

theorem Target.Shaped.indexable {t : Target σ} (h : t.Shaped) : Indexable t.names t.indexed := by
  cases t with
  | whole => exact .nil
  | element _ name index => exact (Expr.Shaped.indexable h.2).element h.1

theorem Command.Shaped.indexable {c : Command σ} (h : c.Shaped) :
    Indexable c.names c.indexed := by
  cases c with
  | evaluate e => exact Expr.Shaped.indexable (e := e) h
  | display es => exact Expr.ShapedAll.indexable (Expr.shapedAll_iff.mpr h)
  | store e target => exact h.1.indexable.append h.2.indexable
  | prompt | input | label | goto | stop => exact .nil

theorem Range.Shaped.indexable {r : Range σ} (h : r.Shaped) : Indexable r.names r.indexed := by
  obtain ⟨counter, start, last, step⟩ := r
  obtain ⟨hstart, hlast, hstep⟩ := h
  refine (hstart.indexable.append (hlast.indexable.append ?_)).cons
  cases step with
  | none => exact .nil
  | some e => exact (hstep e rfl).indexable

theorem Stmt.Shaped.indexable {s : Stmt σ} (h : s.Shaped) : Indexable s.names s.indexed := by
  cases s with
  | command span c => exact Command.Shaped.indexable (c := c) h
  | ifThen _ e _ | ifElse _ e _ _ | whileLoop _ e _ => exact h.1.indexable
  | forLoop _ r _ => exact h.1.indexable

/-! ## Names in a program -/

theorem Target.filterMap_name?_render (t : Target σ) :
    t.render.filterMap Token.name? = t.names := by
  cases t with
  | whole => rfl
  | element _ name index =>
    simp [render, names, List.filterMap_cons, Token.name?, index.filterMap_name?_render]

theorem Command.filterMap_name?_render (c : Command σ) :
    c.render.filterMap Token.name? = c.names := by
  cases c with
  | evaluate e => exact e.filterMap_name?_render
  | display es =>
    rw [render, List.filterMap_cons_none rfl, ← Expr.renderEach_eq, filterMap_name?_commas,
      Expr.filterMap_name?_renderEach, names]
  | store e target =>
    simp [render, names, List.filterMap_cons, Token.name?, e.filterMap_name?_render,
      target.filterMap_name?_render]
  | prompt asked =>
    rw [render, List.filterMap_cons_none rfl, filterMap_name?_commas, names, List.flatMap_map]
    exact List.map_eq_flatMap.symm
  | input text name => cases text <;> rfl
  | label | goto | stop => rfl

theorem Range.filterMap_name?_render (r : Range σ) :
    r.render.filterMap Token.name? = r.names := by
  obtain ⟨counter, start, last, step⟩ := r
  cases step <;>
    simp [render, names, List.filterMap_cons, Token.name?, Expr.filterMap_name?_render]

namespace Stmt

mutual

/-- A statement and those inside it have no names but those of its tokens. -/
theorem names_chains (s : Stmt σ) {all : List String}
    (h : s.render.filterMap Token.name? ⊆ all) :
    s.names ⊆ all ∧ Everywhere (·.names ⊆ all) s.chains := by
  cases s with
  | command span c =>
    rw [render, c.filterMap_name?_render] at h
    exact ⟨h, nofun⟩
  | ifThen span e body | whileLoop span e body =>
    simp only [render, List.filterMap_cons, List.filterMap_append, Token.name?,
      e.filterMap_name?_render, List.append_subset] at h
    exact ⟨h.1, names_chainsOf body h.2.1⟩
  | forLoop span range body =>
    simp only [render, List.filterMap_cons, List.filterMap_append, Token.name?,
      range.filterMap_name?_render, List.append_subset] at h
    exact ⟨h.1, names_chainsOf body h.2.1⟩
  | ifElse span e body otherwise =>
    simp only [render, List.filterMap_cons, List.filterMap_append, Token.name?,
      e.filterMap_name?_render, List.append_subset] at h
    refine ⟨h.1, fun c hc => ?_⟩
    rcases List.mem_append.mp hc with hc | hc
    · exact names_chainsOf body h.2.1 c hc
    · exact names_chainsOf otherwise h.2.2.1 c hc

theorem names_chainsOf (ss : List (Stmt σ)) {all : List String}
    (h : (renderAll ss).filterMap Token.name? ⊆ all) :
    Everywhere (·.names ⊆ all) (ss :: chainsOf ss) := by
  cases ss with
  | nil => simp [Everywhere, chainsOf]
  | cons s rest =>
    rw [renderAll, List.filterMap_append, List.filterMap_cons_none rfl, List.append_subset] at h
    obtain ⟨hs, hinner⟩ := names_chains s h.1
    have hrest := names_chainsOf rest h.2
    intro c hc
    rcases List.mem_cons.mp hc with rfl | hc
    · exact List.forall_mem_cons.mpr ⟨hs, hrest rest List.mem_cons_self⟩
    · rcases List.mem_append.mp hc with hc | hc
      · exact hinner c hc
      · exact hrest c (List.mem_cons_of_mem _ hc)

end

end Stmt

namespace Program

variable {source : String} {p : Program Span}

theorem names_subset_of_parse (h : parse source = .ok p) : p.names ⊆ Token.namesIn source := by
  obtain ⟨ts, hts, hread⟩ := ofSource_eq_ok.mp h
  have hcontent := (reader_finds hread).2.content_eq
  have hnames : Token.namesIn source = p.render.filterMap Token.name? := by
    unfold Token.namesIn
    rw [hts]
    dsimp only
    rw [← filterMap_name?_content, hcontent, filterMap_name?_content]
  rw [hnames]
  intro n hn
  obtain ⟨c, hc, hn⟩ := List.mem_flatMap.mp hn
  obtain ⟨s, hs, hn⟩ := List.mem_flatMap.mp hn
  exact Stmt.names_chainsOf p.statements (List.Subset.refl _) c hc s hs hn

theorem indexable_of_parse (h : parse source = .ok p) : Indexable p.names p.indexed := by
  intro n hn
  obtain ⟨c, hc, hn⟩ := List.mem_flatMap.mp hn
  obtain ⟨s, hs, hn⟩ := List.mem_flatMap.mp hn
  have hcontains : p.Contains s := ⟨c, hc, hs⟩
  exact (shaped_of_parse h hcontains).indexable.mono hcontains.names_subset n hn

end Program

/-! ## The discipline -/

/-- What is known of the names in a fault: only a free variable has no value, only lists and free
variables are looked up as lists with elements, and no letter is. -/
def Fault.Proper : Fault → Prop
  | undefinedVariable n => IsFreeName n
  | indexOutOfRange n _ _ | wrongKind (.index n) _ _ | wrongKind (.element n) _ _ => IsListed n
  | wrongKind (.indexed _) _ _ => False
  | _ => True

theorem Fault.General.proper {fault : Fault} (h : fault.General) : fault.Proper := by
  unfold Proper
  split <;> first | exact h.elim | trivial

/-- The names in the third map are those of free variables. -/
def Slots.Named (s : Slots) : Prop := ∀ n ∈ s.others, IsFreeName n

namespace Slots

variable {s t : Slots} {v i : Value}

theorem named_fresh : fresh.Named := fun n hn => by simp [fresh] at hn

theorem Named.puts (h : s.Named) (hs : s.Regular) (hn : IsName n) (hputs : s.Puts n v t) :
    t.Named := by
  cases hputs with
  | number => exact h
  | list => exact h
  | other hnumber hlist =>
    intro m hm
    rw [Std.TreeMap.mem_insert, Std.LawfulEqCmp.compare_eq_iff_eq] at hm
    rcases hm with rfl | hm
    · rw [hs.numbers, ← Region.of_eq_letter] at hnumber
      rw [hs.lists, ← Region.of_eq_list] at hlist
      refine hn.free ?_
      cases hr : Region.of n with
      | letter => exact absurd hr hnumber
      | list => exact absurd hr hlist
      | free => rfl
    · exact h m hm

section Regular

variable (hs : s.Regular)

include hs

theorem get_proper (hn : IsName n) : Fares Fault.Proper (fun _ => True) (s.get n) := by
  unfold get
  obtain ⟨x, -, hx, -, -⟩ | ⟨l, -, hx, hl, -⟩ | ⟨hr, hx, hl⟩ := hs.found n
  · rw [hx]
    trivial
  · rw [hx, hl]
    trivial
  · rw [hx, hl]
    cases s.others[n]? with
    | some v => trivial
    | none => exact hn.free hr

theorem list_proper (hn : IsListed n) : Fares Fault.Proper (fun _ => True) (s.list n) := by
  unfold list
  obtain ⟨x, hr, -⟩ | ⟨l, -, -, hl, -⟩ | ⟨hr, hx, hl⟩ := hs.found n
  · exact absurd hr hn.region_ne
  · rw [hl]
    trivial
  · have hnumber : n ∉ s.numbers := by simp [Std.TreeMap.mem_iff_isSome_getElem?, hx]
    rw [hl, if_neg hnumber]
    rcases s.others[n]? with _ | (x | l)
    · exact IsName.free (.inr hn) hr
    · exact trivial
    · trivial

theorem listToChange_proper (hn : IsListed n) :
    Fares Fault.Proper (fun _ => True) (s.listToChange n) := by
  have hproper := list_proper hs hn
  rw [list_eq hs, ← listToChange_eq hs] at hproper
  cases h : s.listToChange n with
  | ok found => trivial
  | error fault =>
    rw [h] at hproper
    exact hproper

omit hs in
theorem index_proper (hn : IsListed n) : Fares Fault.Proper (fun _ => True) (index n i) := by
  cases i with
  | number x => trivial
  | list l => exact hn

theorem element_proper (hn : IsListed n) :
    Fares Fault.Proper (fun _ => True) (s.element n i) := by
  refine (index_proper hn).bind fun x _ => (list_proper hs hn).bind fun l _ => ?_
  cases (Numbers.place? x l.size).bind l.get? with
  | some element => trivial
  | none => exact hn

theorem setElement_proper (hn : IsListed n) :
    Fares Fault.Proper (fun _ => True) (s.setElement n v i) := by
  unfold setElement
  cases v with
  | list l => exact hn
  | number x =>
    refine (index_proper hn).bind fun y _ => ?_
    refine (listToChange_proper hs hn).bind fun ⟨l, put⟩ _ => ?_
    dsimp only
    cases Numbers.place? y (l.size + 1) with
    | some place => trivial
    | none => exact hn

/-- Under any other name there is no list to be found. -/
theorem list_other (h : s.Named) (hn : ¬ IsListed n) :
    Fares (fun fault => ¬ fault.Proper) (fun _ => False) (s.list n) := by
  unfold list
  obtain ⟨x, -, hx, hl, ho⟩ | ⟨l, hr, -⟩ | ⟨-, hx, hl⟩ := hs.found n
  · have hnumber : n ∈ s.numbers := by simp [Std.TreeMap.mem_iff_isSome_getElem?, hx]
    rw [hl, ho, if_pos hnumber]
    exact id
  · exact absurd (.inl (Region.of_eq_list.mp hr)) hn
  · have hnumber : n ∉ s.numbers := by simp [Std.TreeMap.mem_iff_isSome_getElem?, hx]
    rw [hl, if_neg hnumber]
    cases ho : s.others[n]? with
    | none => exact fun hfree => hn (.inr hfree)
    | some v =>
      have hmem : n ∈ s.others := by simp [Std.TreeMap.mem_iff_isSome_getElem?, ho]
      exact absurd (.inr (h n hmem)) hn

omit hs in
theorem index_other (hn : ¬ IsListed n) :
    Fares (fun fault => ¬ fault.Proper) (fun _ => True) (index n i) := by
  cases i with
  | number x => trivial
  | list l => exact hn

theorem element_other (h : s.Named) (hn : ¬ IsListed n) :
    Fares (fun fault => ¬ fault.Proper) (fun _ => False) (s.element n i) :=
  (index_other hn).bind fun _ _ => (list_other hs h hn).bind fun _ hl => hl.elim

theorem setElement_other (h : s.Named) (hn : ¬ IsListed n) :
    Fares (fun fault => ¬ fault.Proper) (fun _ => False) (s.setElement n v i) := by
  have hlist := list_other hs h hn
  rw [list_eq hs, ← listToChange_eq hs] at hlist
  unfold setElement
  cases v with
  | list l => exact hn
  | number x =>
    refine (index_other hn).bind fun y _ => ?_
    cases hl : s.listToChange n with
    | ok found =>
      rw [hl] at hlist
      exact hlist.elim
    | error fault =>
      rw [hl] at hlist
      exact hlist

end Regular

end Slots

namespace Store

variable {s : Store} {v i : Value}

theorem assign_named (hs : s.Named) (hn : IsName n) :
    Fares Fault.Proper (·.Named) (s.assign n v) := by
  cases h : s.assign n v with
  | ok t => exact hs.puts s.regular hn (Slots.puts_of_assign (assign_eq_ok.mp h))
  | error fault =>
    obtain ⟨kind, -, -, rfl⟩ := (Slots.assign_eq_error s.regular).mp (assign_eq_error.mp h)
    exact trivial

theorem setElement_named (hs : s.Named) (hn : IsListed n) :
    Fares Fault.Proper (·.Named) (s.setElement n v i) := by
  have hproper := Slots.setElement_proper (v := v) (i := i) s.regular hn
  cases h : s.setElement n v i with
  | ok t =>
    obtain ⟨changed, hputs⟩ := Slots.puts_of_setElement (setElement_eq_ok.mp h)
    exact hs.puts s.regular (.inr hn) hputs
  | error fault =>
    rw [setElement_eq_error.mp h] at hproper
    exact hproper

theorem element_other (hs : s.Named) (hn : ¬ IsListed n) :
    ∃ fault, s.element n i = .error fault ∧ ¬ fault.Proper := by
  have hother := Slots.element_other (i := i) s.regular hs hn
  cases h : s.element n i with
  | ok x =>
    rw [h] at hother
    exact hother.elim
  | error fault =>
    rw [h] at hother
    exact ⟨fault, rfl, hother⟩

theorem setElement_other (hs : s.Named) (hn : ¬ IsListed n) :
    ∃ fault, s.setElement n v i = .error fault ∧ ¬ fault.Proper := by
  have hother := Slots.setElement_other (v := v) (i := i) s.regular hs hn
  cases h : s.setElement n v i with
  | ok t =>
    rw [Store.setElement_eq_ok.mp h] at hother
    exact hother.elim
  | error fault =>
    rw [Store.setElement_eq_error.mp h] at hother
    exact ⟨fault, rfl, hother⟩

end Store

theorem Expr.isName_of_parse {line : String} {e : Expr Span} (h : Expr.parse line = .ok e) :
    (∀ n ∈ e.names, IsName n) ∧ ∀ n ∈ e.indexed, IsListed n := by
  have hnames : ∀ n ∈ e.names, IsName n := fun n hn =>
    Token.isName_of_mem_namesIn (names_subset_of_parse h hn)
  obtain ⟨ts, -, hread⟩ := ofSource_eq_ok.mp h
  obtain ⟨used, -, hshaped, -⟩ := reader_holds maxNesting _ _ _ hread
  refine ⟨hnames, fun n hn => ?_⟩
  obtain ⟨hmem, hindexable⟩ := hshaped.indexable n hn
  exact (hnames n hmem).listed hindexable

theorem Program.isName_of_parse {source : String} {p : Program Span}
    (h : Program.parse source = .ok p) :
    (∀ n ∈ p.names, IsName n) ∧ ∀ n ∈ p.indexed, IsListed n := by
  have hnames : ∀ n ∈ p.names, IsName n := fun n hn =>
    Token.isName_of_mem_namesIn (names_subset_of_parse h hn)
  refine ⟨hnames, fun n hn => ?_⟩
  obtain ⟨hmem, hindexable⟩ := indexable_of_parse h n hn
  exact (hnames n hmem).listed hindexable

namespace Discipline

/-- The names of variables are what they are in a text. -/
def naming : Discipline where
  keeps s := s.Named
  admits := Fault.Proper
  ends _ := Fault.Proper
  knows := IsName
  indexes := IsListed

/-- **Names.** Values, variables and typed lines keep to the names that a text can have. -/
theorem governs_naming (config : Config) : naming.Governs config where
  get s _ _ hn := Slots.get_proper s.regular hn
  element s _ _ _ hn := Slots.element_proper s.regular hn
  assign _ _ _ hs hn := Store.assign_named hs hn
  setElement _ _ _ _ hs hn := Store.setElement_named hs hn
  general _ h := h.proper
  typed _ _ h := ⟨(Expr.isName_of_parse h).1, (Expr.isName_of_parse h).2⟩
  ends _ _ h := h
  limit _ _ _ _ := trivial

theorem keeps_naming {source : String} {p : Program Span} (h : Program.parse source = .ok p)
    (config : Config) (fuel : Nat) (start? : Option Position) :
    naming.Keeps (p.runFrom config fuel start?) fun _ => True := by
  have hnames := Program.isName_of_parse h
  refine (governs_naming config).run ⟨hnames.1, hnames.2⟩ (fun label span l hfind st => ?_) fuel
    start?
  rw [Program.find_landing] at hfind
  cases hr : p.resolve? label <;> rw [hr] at hfind <;> cases hfind
  trivial

end Discipline

/-! ## Sessions -/

/-- What is done with a session: the program of a source is run from a position, the variables are
reset, or input is added. -/
inductive Deed where
  | run (source : String) (start? : Option Position)
  | reset
  | feed (input : List Input)

namespace Session

/-- Does it, and gives the outcome of a run; a source that is no program is not run. -/
def perform (s : Session) : Deed → Option (Outcome Span Unit) × Session
  | .run source start? =>
    match Program.parse source with
    | .ok p => (s.runFrom p start?).map some id
    | .error _ => (none, s)
  | .reset => (none, s.reset)
  | .feed input => (none, s.feed input)

/-- Does one thing after the other, and gives the outcomes of the runs. -/
def performAll (s : Session) : List Deed → List (Outcome Span Unit) × Session
  | [] => ([], s)
  | deed :: deeds =>
    let (outcome?, s) := s.perform deed
    let (outcomes, s) := s.performAll deeds
    (outcome?.toList ++ outcomes, s)

variable {s : Session} {source : String} {p : Program Span} {start? : Option Position}

theorem perform_run_ok (h : Program.parse source = .ok p) :
    s.perform (.run source start?) = (s.runFrom p start?).map some id := by
  rw [perform, h]

theorem perform_run_error {e : SourceError} (h : Program.parse source = .error e) :
    s.perform (.run source start?) = (none, s) := by
  rw [perform, h]

/-- **Step.** Whatever is done with a session whose variables have proper names, they have proper
names again, and a fault of a run has proper names. -/
theorem perform_named (h : s.state.store.Named) (deed : Deed) :
    (s.perform deed).2.state.store.Named ∧
      ∀ l, Outcome.fault l ∈ (s.perform deed).1 → l.fault.Proper := by
  cases deed with
  | reset => exact ⟨Slots.named_fresh, fun _ hl => absurd hl (Option.not_mem_none _)⟩
  | feed input => exact ⟨h, fun _ hl => absurd hl (Option.not_mem_none _)⟩
  | run source start? =>
    cases hp : Program.parse source with
    | error e =>
      rw [perform_run_error hp]
      exact ⟨h, fun _ hl => absurd hl (Option.not_mem_none _)⟩
    | ok p =>
      rw [perform_run_ok hp]
      have hkeeps := Discipline.keeps_naming hp s.config s.fuel start?
      refine ⟨hkeeps.store s.state h, fun l hl => ?_⟩
      have hrun : p.runFrom s.config s.fuel start? s.state =
          (.fault l, (p.runFrom s.config s.fuel start? s.state).2) :=
        Prod.ext (Option.some.inj hl) rfl
      exact hkeeps.fault s.state l _ h hrun

/-- A whole session, by induction on what is done. -/
theorem performAll_named (h : s.state.store.Named) (deeds : List Deed) :
    (s.performAll deeds).2.state.store.Named ∧
      ∀ l, Outcome.fault l ∈ (s.performAll deeds).1 → l.fault.Proper := by
  induction deeds generalizing s with
  | nil => exact ⟨h, fun _ hl => absurd hl List.not_mem_nil⟩
  | cons deed deeds ih =>
    obtain ⟨hstep, hfault⟩ := perform_named h deed
    obtain ⟨hrest, hfaults⟩ := ih hstep
    refine ⟨hrest, fun l hl => ?_⟩
    rcases List.mem_append.mp hl with hl | hl
    · exact hfault l (Option.mem_toList.mp hl)
    · exact hfaults l hl

/-- **Names in a session.** Whatever is done with a session from the start, with whatever input:

* the third map has free variables only;
* faults are proper: a fault that a variable has no value is about a free variable, a fault about a
  list or its elements is about a built-in list or a free variable, and none says that a letter is
  no list;
* in every program, and in every line that can be typed, the names that stand before an index are
  those of built-in lists and free variables;
* under any other name, reading and storing an element would fail with a fault that is not
  proper. -/
theorem names_disciplined (config : Config) (fuel : Nat) (console : Console)
    (deeds : List Deed) :
    let after := (Session.start config fuel console).performAll deeds
    (∀ n ∈ after.2.state.store.others, IsFreeName n) ∧
    (∀ l, Outcome.fault l ∈ after.1 → l.fault.Proper) ∧
    (∀ source p, Program.parse source = .ok p →
      (∀ n ∈ p.names, IsName n) ∧ ∀ n ∈ p.indexed, IsListed n) ∧
    (∀ line e, Expr.parse line = .ok e →
      (∀ n ∈ e.names, IsName n) ∧ ∀ n ∈ e.indexed, IsListed n) ∧
    ∀ (s : Store) (n : String) (v i : Value), (∀ m ∈ s.others, IsFreeName m) → ¬ IsListed n →
      (∃ fault, s.element n i = .error fault ∧ ¬ fault.Proper) ∧
      ∃ fault, s.setElement n v i = .error fault ∧ ¬ fault.Proper := by
  obtain ⟨hnamed, hfaults⟩ := performAll_named (s := .start config fuel console)
    Slots.named_fresh deeds
  refine ⟨hnamed, hfaults, fun _ _ hp => Program.isName_of_parse hp,
    fun _ _ he => Expr.isName_of_parse he, fun s n v i hs hn =>
      ⟨Store.element_other hs hn, Store.setElement_other hs hn⟩⟩

/-- The faults among the outcomes. -/
def faults (outcomes : List (Outcome Span Unit)) : List Fault :=
  outcomes.filterMap fun
    | .fault l => some l.fault
    | _ => none

theorem exists_of_mem_faults {outcomes : List (Outcome Span Unit)} {fault : Fault}
    (h : fault ∈ faults outcomes) : ∃ l, Outcome.fault l ∈ outcomes ∧ l.fault = fault := by
  obtain ⟨outcome, hmem, hfault⟩ := List.mem_filterMap.mp h
  cases outcome with
  | fault l => exact ⟨l, hmem, Option.some.inj hfault⟩
  | done | unfinished => cases hfault

/-- A typed line brings in a variable that no program has, and a reset takes the value of one that
had it. Both faults are about free variables. -/
theorem names_disciplined_typed :
    let deeds := [.feed (["\x7b1,2\x7d", "⌊Q+1"].map .line),
      .run "Prompt ⌊AB,A" (some ⟨0, 0⟩), .run "Disp ⌊AB(1)" (some ⟨0, 0⟩), .reset,
      .run "Disp ⌊AB(1)" (some ⟨0, 0⟩)]
    let after := (Session.start {} 1 { input := [] }).performAll deeds
    faults after.1 = [.undefinedVariable "⌊Q", .undefinedVariable "⌊AB"] ∧
      ∀ n ∈ ["⌊Q", "⌊AB"], IsFreeName n := by
  intro deeds after
  have hfaults : faults after.1 = [.undefinedVariable "⌊Q", .undefinedVariable "⌊AB"] := by
    decide +kernel
  refine ⟨hfaults, fun n hn => ?_⟩
  have hfault : .undefinedVariable n ∈ faults after.1 := by
    rw [hfaults]
    exact List.mem_map_of_mem hn
  obtain ⟨l, hl, hlfault⟩ := exists_of_mem_faults hfault
  have hproper := (names_disciplined {} 1 { input := [] } deeds).2.1 l hl
  rw [hlfault] at hproper
  exact hproper

end Session

end CalcBasic
