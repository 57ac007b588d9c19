import CalcBasic.Expr
import CalcBasic.Token.Reader

/-!
# Reading expressions

The grammar has a level for each kind of operator; from the loosest: `or`, `and`, the comparisons,
sums, products, signs, powers, and at the bottom the primaries. Operators associate to the left. A
sign stands before a power, so `-2^2` is `-(2^2)`, and may also stand before an exponent.

Nesting is bounded by an amount of room. Every expression that is opened takes one level, and so do
every sign and every further operator of a chain, because a chain leans to the left and grows by one
node with each operator. `Expr.read` recurses on the room; at a fixed room the levels are plain
functions of what can be read one level deeper.
-/

namespace CalcBasic.Expr

/-- What is read one level deeper. -/
inductive Goal where
  | whole
  /-- What stands to the right of an operator of the level. -/
  | operand (level : Level)
  /-- More operators of the level after a left operand. -/
  | chain (level : Level) (left : Expr Span)

/-- An operator between its two operands. -/
def join (left : Expr Span) (op : Op) (right : Expr Span) : Expr Span :=
  .binary (left.span.merge right.span) op left right

/-- Takes an operator of the level, if one stands here. -/
def operator? (level : Level) : Reader (Option Op)
  | ⟨.op o, span⟩ :: rest =>
    if o.level = level then .ok (some o, rest) else .ok (none, ⟨.op o, span⟩ :: rest)
  | ts => .ok (none, ts)

/-- Takes a sign, if one stands here. -/
def sign? : Reader (Option (Sign × Span))
  | ⟨.op .add, span⟩ :: rest => .ok (some (.plus, span), rest)
  | ⟨.op .sub, span⟩ :: rest => .ok (some (.minus, span), rest)
  | ts => .ok (none, ts)

section Levels

variable (deeper : Goal → Reader (Expr Span))

/-- The index after a name that can have one. -/
def index? (name : String) : Reader (Option (Expr Span × Option Span)) := do
  if (Region.of name).isIndexable then
    match ← Reader.eat? (.mark .leftParen) with
    | none => return none
    | some _ =>
      let index ← deeper .whole
      return some (index, ← Reader.close .rightParen)
  else return none

/-- A number, a name with or without an index, a group or a list. -/
def primary : Reader (Expr Span)
  | ⟨.number x, span⟩ :: rest => .ok (.literal span x, rest)
  | ⟨.name n, span⟩ :: rest => (do
      match ← index? deeper n with
      | none => return .var span n
      | some (index, closed) => return .element (span.merge (closed.getD index.span)) n index
    : Reader (Expr Span)) rest
  | ⟨.mark .leftParen, span⟩ :: rest => (do
      let inner ← deeper .whole
      let closed ← Reader.close .rightParen
      return .group (span.merge (closed.getD inner.span)) inner
    : Reader (Expr Span)) rest
  | ⟨.mark .leftBrace, span⟩ :: rest => (do
      let items ← Reader.separated (deeper .whole)
      let last := (items.getLast?.map Expr.span).getD span
      let closed ← Reader.close .rightBrace
      return .list (span.merge (closed.getD last)) items
    : Reader (Expr Span)) rest
  | ts => Reader.unexpected .expression ts

/-- Further operators of a level after a left operand, each with its right operand. -/
def chain (level : Level) (left : Expr Span) : Reader (Expr Span) := do
  match ← operator? level with
  | none => return left
  | some op =>
    let right ← deeper (.operand level)
    deeper (.chain level (join left op right))

/-- Signs, and after them what `unsigned` reads. -/
def signs (level : Level) (unsigned : Reader (Expr Span)) : Reader (Expr Span) := do
  match ← sign? with
  | none => unsigned
  | some (sign, span) =>
    let operand ← deeper (.operand level)
    return .signed (span.merge operand.span) sign operand

/-- What stands to the right of `^`: a primary that may have signs. -/
def exponent : Reader (Expr Span) := signs deeper .power (primary deeper)

/-- A primary with exponents. -/
def power : Reader (Expr Span) := do chain deeper .power (← primary deeper)

/-- A power that may have signs. -/
def factor : Reader (Expr Span) := signs deeper .product (power deeper)

/-- Factors with `*` and `/` between them. -/
def product : Reader (Expr Span) := do chain deeper .product (← factor deeper)

/-- Products with `+` and `-` between them. -/
def sum : Reader (Expr Span) := do chain deeper .sum (← product deeper)

/-- Sums with comparisons between them. -/
def comparison : Reader (Expr Span) := do chain deeper .comparison (← sum deeper)

/-- Comparisons with `and` between them. -/
def conjunction : Reader (Expr Span) := do chain deeper .conjunction (← comparison deeper)

/-- Conjunctions with `or` between them. -/
def disjunction : Reader (Expr Span) := do chain deeper .disjunction (← conjunction deeper)

/-- What stands to the right of an operator of the level. -/
def operand : Level → Reader (Expr Span)
  | .disjunction => conjunction deeper
  | .conjunction => comparison deeper
  | .comparison => sum deeper
  | .sum => product deeper
  | .product => factor deeper
  | .power => exponent deeper

/-- Reads what a goal asks for. -/
def reach : Goal → Reader (Expr Span)
  | .whole => disjunction deeper
  | .operand level => operand deeper level
  | .chain level left => chain deeper level left

end Levels

/-- Reads what a goal asks for, with room for so many more levels of nesting. -/
def read : Nat → Goal → Reader (Expr Span)
  | 0, goal => reach (fun _ => Reader.fail .tooDeep) goal
  | room + 1, goal => reach (read room) goal

/-- Reads an expression inside something that leaves so much room. -/
def reader : Nat → Reader (Expr Span) := Reader.nested fun room => read room .whole

/-- The expression that a source consists of. -/
def parse (source : String) : Except SourceError (Expr Span) :=
  (reader maxNesting).ofSource .leftover source

end CalcBasic.Expr
