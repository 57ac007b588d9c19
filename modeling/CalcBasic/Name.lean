/-!
# Variable names

The names of variables fall into three regions. The letters `A` to `Z` always hold a number, the six
built-in lists `L₁` to `L₆` always hold a list, and every other name is free: it holds nothing
until it is assigned, and then a value of either kind.
-/

namespace CalcBasic

/-- A capital letter of the alphabet. -/
def isLetter (c : Char) : Bool := 'A' ≤ c && c ≤ 'Z'

/-- A decimal digit. -/
def isDigit (c : Char) : Bool := '0' ≤ c && c ≤ '9'

theorem between_iff_toNat {a b c : Char} :
    (a ≤ c && c ≤ b) = true ↔ a.toNat ≤ c.toNat ∧ c.toNat ≤ b.toNat := by
  simp only [Bool.and_eq_true, decide_eq_true_eq, Char.le_def, UInt32.le_iff_toNat_le]
  rfl

theorem isLetter_iff_toNat {c : Char} : isLetter c = true ↔ 65 ≤ c.toNat ∧ c.toNat ≤ 90 :=
  between_iff_toNat

theorem isDigit_iff_toNat {c : Char} : isDigit c = true ↔ 48 ≤ c.toNat ∧ c.toNat ≤ 57 :=
  between_iff_toNat

/-- The part of the namespace that a name belongs to. -/
inductive Region where
  | letter
  | list
  | free
deriving DecidableEq, Repr

/-- The region of a name. -/
def Region.of (name : String) : Region :=
  match name.toList with
  | [c] => if isLetter c then .letter else .free
  | ['L', c] => if '₁' ≤ c && c ≤ '₆' then .list else .free
  | _ => .free

/-- Whether single elements of the variable can be named: every name but a letter's can stand
before an index. -/
def Region.isIndexable : Region → Bool
  | .letter => false
  | .list | .free => true

end CalcBasic
