import CalcBasic.Expr
import CalcBasic.Store

/-!
# Evaluating expressions

An expression has a value in a store, or a fault at the innermost expression that ran into it.
Evaluating changes nothing. The operators on truth values evaluate both sides before they look at
either; every other operator wants its left operand to be a number before it looks at the right.
-/

namespace CalcBasic

/-- The result of an operator. -/
def Op.apply (x y : Float) : Op → Float
  | or => truth (isTrue x || isTrue y)
  | and => truth (isTrue x && isTrue y)
  | eq => truth (x == y)
  | ne => truth (x != y)
  | lt => truth (x < y)
  | le => truth (x ≤ y)
  | gt => truth (x > y)
  | ge => truth (x ≥ y)
  | add => x + y
  | sub => x - y
  | mul => x * y
  | div => x / y
  | pow => x.pow y

/-- A number with a sign. -/
def Sign.apply (x : Float) : Sign → Float
  | plus => x
  | minus => -x

/-- The number that a value is, where a number is wanted at a place. -/
def Value.expectNumber {σ : Type} (purpose : Purpose) (span : σ) :
    Value → Except (Located σ) Float
  | number x => .ok x
  | list _ => .error ⟨.wrongKind purpose .number .list, span⟩

namespace Expr

variable {σ : Type}

mutual

/-- The value of an expression. -/
def eval (s : Store) : Expr σ → Except (Located σ) Value
  | literal _ x => .ok (.number x)
  | var span name => Fault.locate span (s.get name)
  | element span name index => do
    let i ← index.eval s
    .number <$> Fault.locate span (s.element name i)
  | list _ items => (fun xs => .list ⟨xs⟩) <$> evalItems s #[] items
  | binary span op left right => do
    let l ← left.eval s
    if op.isLogical then
      let r ← right.eval s
      let x ← l.expectNumber (.operand op) span
      let y ← r.expectNumber (.operand op) span
      return .number (op.apply x y)
    else
      let x ← l.expectNumber (.operand op) left.span
      let r ← right.eval s
      let y ← r.expectNumber (.operand op) right.span
      return .number (op.apply x y)
  | signed _ sign operand => do
    let v ← operand.eval s
    let x ← v.expectNumber (.signed sign) operand.span
    return .number (sign.apply x)
  | group _ inner => inner.eval s

/-- The numbers that some items are, behind those found so far. -/
def evalItems (s : Store) (found : Array Float) : List (Expr σ) → Except (Located σ) (Array Float)
  | [] => .ok found
  | item :: items => do
    let v ← item.eval s
    let x ← v.expectNumber .listItem item.span
    evalItems s (found.push x) items

end

/-- The value of an expression that has to be a number. -/
def evalNumber (s : Store) (purpose : Purpose) (e : Expr σ) : Except (Located σ) Float := do
  let v ← e.eval s
  v.expectNumber purpose e.span

end Expr

end CalcBasic
