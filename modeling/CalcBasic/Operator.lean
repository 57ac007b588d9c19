/-!
# Operators

Thirteen operators stand between two operands. Each belongs to one of six levels; a higher level
binds tighter, and operators of one level associate to the left. Two signs stand before one
operand and bind tighter than the products but looser than the powers.
-/

namespace CalcBasic

/-- An operator between two operands. -/
inductive Op where
  | or | and
  | eq | ne | lt | le | gt | ge
  | add | sub
  | mul | div
  | pow
deriving DecidableEq, Repr

/-- How tight an operator binds, from the loosest. -/
inductive Level where
  | disjunction
  | conjunction
  | comparison
  | sum
  | product
  | power
deriving DecidableEq, Repr

namespace Op

/-- The level of an operator. -/
def level : Op → Level
  | or => .disjunction
  | and => .conjunction
  | eq | ne | lt | le | gt | ge => .comparison
  | add | sub => .sum
  | mul | div => .product
  | pow => .power

/-- The two operators on truth values. -/
def isLogical : Op → Bool
  | or | and => true
  | _ => false

/-- The sign by which messages name an operator. -/
def symbol : Op → String
  | or => "or"
  | and => "and"
  | eq => "="
  | ne => "≠"
  | lt => "<"
  | le => "≤"
  | gt => ">"
  | ge => "≥"
  | add => "+"
  | sub => "-"
  | mul => "*"
  | div => "/"
  | pow => "^"

end Op

/-- A sign before one operand. -/
inductive Sign where
  | plus
  | minus
deriving DecidableEq, Repr

namespace Sign

/-- The sign as messages write it. -/
def symbol : Sign → String
  | plus => "+"
  | minus => "-"

end Sign

end CalcBasic
