import CalcBasic.Decimal.Binary
import CalcBasic.Number

/-!
# Values

A value is a number or a list of numbers. Truth is a number: one for true, zero for false, and every
number but zero counts as true. Elements of a list are counted from one.
-/

namespace CalcBasic

/-- The two kinds of values. -/
inductive Kind where
  | number
  | list
deriving DecidableEq, Repr

/-- The kind in words. -/
def Kind.text : Kind → String
  | number => "number"
  | list => "list"

/-- A list of numbers whose elements are counted from one. -/
structure Numbers where
  items : Array Float
deriving DecidableEq, Repr

namespace Numbers

/-- The number of elements. -/
def size (l : Numbers) : Nat := l.items.size

/-- The element at a place. -/
def get? (l : Numbers) : Nat → Option Float
  | 0 => none
  | i + 1 => l.items[i]?

/-- Replaces the element at a place, if there is one. -/
def set? (l : Numbers) (x : Float) : Nat → Option Numbers
  | 0 => none
  | i + 1 => if i < l.size then some ⟨l.items.setIfInBounds i x⟩ else none

/-- Adds an element at the end. -/
def push (l : Numbers) (x : Float) : Numbers := ⟨l.items.push x⟩

/-- The place that an index names among the places up to `upper`: it has to be a whole number. -/
def place? (index : Float) (upper : Nat) : Option Nat :=
  (Decimal.natural? index).filter fun n => 1 ≤ n && n ≤ upper

/-- The list as it is shown. -/
def text (l : Numbers) : String :=
  "\x7b" ++ ", ".intercalate (l.items.toList.map Number.text) ++ "\x7d"

end Numbers

/-- A value. -/
inductive Value where
  | number (x : Float)
  | list (l : Numbers)
deriving DecidableEq, Repr

/-- Whether a number counts as true. -/
def isTrue (x : Float) : Bool := x != 0

/-- The number for a truth value. -/
def truth (b : Bool) : Float := if b then 1 else 0

namespace Value

/-- The kind of a value. -/
def kind : Value → Kind
  | number _ => .number
  | list _ => .list

/-- The value as it is shown. -/
def text : Value → String
  | number x => Number.text x
  | list l => l.text

/-- Equality as numbers have it: zero has one value under two signs, and NaN equals nothing. -/
def same : Value → Value → Bool
  | number x, number y => x == y
  | list l, list m => l.items == m.items
  | _, _ => false

end Value

end CalcBasic
