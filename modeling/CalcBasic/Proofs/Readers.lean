import CalcBasic.Token.Reader

/-!
# Readers side by side

Two readers that differ in one respect only, such as the room for nesting, are compared on the same
tokens. The first one is known to give a result; `Follows` says what is then known of the result, and
when the second one gives it too.
-/

namespace CalcBasic.Reader

variable {α β : Type}

theorem bind_apply (r : Reader α) (f : α → Reader β) (ts : List (Spanned Token)) :
    (r >>= f) ts = match r ts with
      | .ok (x, rest) => f x rest
      | .error c => .error c := by
  change (StateT.bind r f) ts = _
  unfold StateT.bind
  cases r ts <;> rfl

@[simp] theorem pure_apply (x : α) (ts : List (Spanned Token)) :
    (pure x : Reader α) ts = .ok (x, ts) := rfl

@[simp] theorem get_apply (ts : List (Spanned Token)) :
    (get : Reader (List (Spanned Token))) ts = .ok (ts, ts) := rfl

theorem bind_eq_ok {r : Reader α} {f : α → Reader β} {ts rest : List (Spanned Token)} {y : β} :
    (r >>= f) ts = .ok (y, rest) ↔
      ∃ x mid, r ts = .ok (x, mid) ∧ f x mid = .ok (y, rest) := by
  rw [bind_apply]
  rcases hr : r ts with c | ⟨x, mid⟩
  · constructor
    · nofun
    · rintro ⟨_, _, h, _⟩
      cases h
  · constructor
    · intro h
      exact ⟨x, mid, rfl, h⟩
    · rintro ⟨_, _, h, hf⟩
      cases h
      exact hf

theorem ofTokens_eq_ok {r : Reader α} {leftover : Token → Cause} {size : Nat}
    {ts : List (Spanned Token)} {x : α} :
    r.ofTokens leftover size ts = .ok x ↔ r ts = .ok (x, []) := by
  unfold ofTokens
  rcases r ts with c | ⟨y, _ | ⟨t, rest⟩⟩ <;> simp

theorem ofSource_eq_ok {r : Reader α} {leftover : Token → Cause} {source : String} {x : α} :
    r.ofSource leftover source = .ok x ↔
      ∃ ts, Token.read source = .ok ts ∧ r ts = .ok (x, []) := by
  unfold ofSource
  cases Token.read source with
  | error u => simp
  | ok ts => simp [ofTokens_eq_ok]

/-- What the first reader gives has the property `Q`, and where it has also the property `P` the
second reader gives the same. -/
def Follows (r₁ r₂ : Reader α) (Q P : α → Prop) : Prop :=
  ∀ ts x rest, r₁ ts = .ok (x, rest) → Q x ∧ (P x → r₂ ts = .ok (x, rest))

namespace Follows

variable {r r₁ r₂ : Reader α} {f₁ f₂ : α → Reader β} {Q P Q' P' : α → Prop} {R S : β → Prop}

theorem pure {x : α} (hx : Q x) : Follows (pure x) (pure x) Q P := by
  intro ts y rest h
  cases h
  exact ⟨hx, fun _ => rfl⟩

theorem fail {cause : Cause} {r : Reader α} : Follows (fail cause) r Q P := nofun

theorem unexpected {what : Expected} {r : Reader α} : Follows (unexpected what) r Q P := nofun

theorem mono (h : Follows r₁ r₂ Q P) (hQ : ∀ x, Q x → Q' x) (hP : ∀ x, Q x → P' x → P x) :
    Follows r₁ r₂ Q' P' := by
  intro ts x rest hr
  obtain ⟨hq, hp⟩ := h ts x rest hr
  exact ⟨hQ x hq, fun hp' => hp (hP x hq hp')⟩

/-- A result that is used further has to follow from the final one. -/
theorem bind (h : Follows r₁ r₂ Q P)
    (hf : ∀ x, Q x → Follows (f₁ x) (f₂ x) (fun y => R y ∧ (S y → P x)) S) :
    Follows (r₁ >>= f₁) (r₂ >>= f₂) R S := by
  intro ts y rest hy
  obtain ⟨x, mid, hx, hy⟩ := bind_eq_ok.mp hy
  obtain ⟨hq, hp⟩ := h ts x mid hx
  obtain ⟨⟨hr, hback⟩, hs⟩ := hf x hq mid y rest hy
  exact ⟨hr, fun hsy => bind_eq_ok.mpr ⟨x, mid, hp (hback hsy), hs hsy⟩⟩

/-- A reader that both have in common. -/
theorem bind_same (hf : ∀ x, Follows (f₁ x) (f₂ x) R S) :
    Follows (r >>= f₁) (r >>= f₂) R S := by
  intro ts y rest hy
  obtain ⟨x, mid, hx, hy⟩ := bind_eq_ok.mp hy
  obtain ⟨hr, hs⟩ := hf x mid y rest hy
  exact ⟨hr, fun hsy => bind_eq_ok.mpr ⟨x, mid, hx, hs hsy⟩⟩

theorem commaItems (h : Follows r₁ r₂ Q P) : ∀ (fuel : Nat) (items : List α),
    (∀ x ∈ items, Q x) →
    Follows (commaItems r₁ items fuel) (commaItems r₂ items fuel)
      (fun xs => (∀ x ∈ xs, Q x) ∧ ∀ x ∈ items, x ∈ xs) (fun xs => ∀ x ∈ xs, P x) := by
  intro fuel
  induction fuel with
  | zero =>
    intro items hitems
    exact .pure ⟨fun x hx => hitems x (List.mem_reverse.mp hx), fun x hx => List.mem_reverse.mpr hx⟩
  | succ fuel ih =>
    intro items hitems
    refine .bind_same fun comma => ?_
    cases comma with
    | none =>
      exact .pure
        ⟨fun x hx => hitems x (List.mem_reverse.mp hx), fun x hx => List.mem_reverse.mpr hx⟩
    | some span =>
      refine .bind h fun x hx => ?_
      refine (ih (x :: items) (List.forall_mem_cons.mpr ⟨hx, hitems⟩)).mono ?_ fun _ _ hp => hp
      rintro xs ⟨hall, hsub⟩
      exact ⟨⟨hall, fun y hy => hsub y (List.mem_cons_of_mem x hy)⟩,
        fun hp => hp x (hsub x List.mem_cons_self)⟩

theorem separated (h : Follows r₁ r₂ Q P) :
    Follows (separated r₁) (separated r₂) (fun xs => xs ≠ [] ∧ ∀ x ∈ xs, Q x)
      (fun xs => ∀ x ∈ xs, P x) := by
  refine .bind h fun x hx => .bind_same fun ts => ?_
  refine (commaItems h _ [x] (List.forall_mem_singleton.mpr hx)).mono ?_ fun _ _ hp => hp
  rintro xs ⟨hall, hsub⟩
  have hmem : x ∈ xs := hsub x List.mem_cons_self
  exact ⟨⟨List.ne_nil_of_mem hmem, hall⟩, fun hp => hp x hmem⟩

theorem ofSource (h : Follows r₁ r₂ Q P) {leftover : Token → Cause} {source : String} {x : α}
    (hx : r₁.ofSource leftover source = .ok x) :
    Q x ∧ (P x → r₂.ofSource leftover source = .ok x) := by
  obtain ⟨ts, hts, hr⟩ := ofSource_eq_ok.mp hx
  obtain ⟨hq, hp⟩ := h ts x [] hr
  exact ⟨hq, fun hpx => ofSource_eq_ok.mpr ⟨ts, hts, hp hpx⟩⟩

/-- What holds of a reader at every smaller room holds of it one level deeper. -/
theorem nested {inner : Nat → Reader α} {Q P : Nat → α → Prop} (room₁ room₂ : Nat)
    (h : ∀ m₁, room₁ = m₁ + 1 → ∀ m₂, Follows (inner m₁) (inner m₂) (Q m₁) (P m₂)) :
    Follows (nested inner room₁) (nested inner room₂) (fun x => ∃ m, room₁ = m + 1 ∧ Q m x)
      (fun x => ∃ m, room₂ = m + 1 ∧ P m x) := by
  cases room₁ with
  | zero => exact Follows.fail
  | succ m₁ =>
    intro ts x rest hx
    refine ⟨⟨m₁, rfl, (h m₁ rfl 0 ts x rest hx).1⟩, ?_⟩
    rintro ⟨m₂, rfl, hp⟩
    exact (h m₁ rfl m₂ ts x rest hx).2 hp

end Follows

end CalcBasic.Reader
