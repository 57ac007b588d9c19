import CalcBasic.Decimal.Binary

/-!
# The shortest decimal

The reals that round to a binary value form an interval: it reaches halfway to the neighbours on both
sides, and its ends belong to it when the significand is even. `shortest` looks for a decimal of
one digit in the interval, then of two digits, and so on; on each grid only the two points next to
the value need a test. The first grid with a hit gives the digits.
-/

namespace CalcBasic.Decimal

/-- A decimal `digits * 10 ^ exponent`. -/
structure Scaled where
  digits : Nat
  exponent : Int
deriving DecidableEq, Repr

/-- Which of two equally near decimals is taken. -/
inductive Tie where
  | up
  | even
deriving DecidableEq, Repr

/-- Compares `a * 10 ^ i` with `n * 2 ^ j` without rounding. -/
def compareScaled (a : Nat) (i : Int) (n : Nat) (j : Int) : Ordering :=
  compare (a * tenTo i.toNat * twoTo (-j).toNat) (n * twoTo j.toNat * tenTo (-i).toNat)

/-- The decimal lies among the reals that round to the value. -/
def Binary.readsBack (b : Binary) (d : Scaled) : Bool :=
  let low := if b.narrowBelow then 4 * b.significand - 1 else 4 * b.significand - 2
  let high := 4 * b.significand + 2
  let ends := b.significand % 2 == 0
  let below := compareScaled d.digits d.exponent low (b.exponent - 2)
  let above := compareScaled d.digits d.exponent high (b.exponent - 2)
  (below == .gt || (ends && below == .eq)) && (above == .lt || (ends && above == .eq))

/-- The exponent of the leading decimal digit: the binary logarithm gives it up to one step. -/
def Binary.leading (b : Binary) : Int :=
  let guess := Int.fdiv ((b.significand.log2 + b.exponent) * 30103) 100000
  if compareScaled 1 (guess + 1) b.significand b.exponent != .gt then guess + 1
  else if compareScaled 1 guess b.significand b.exponent == .gt then guess - 1
  else guess

/-- The greatest multiple of `10 ^ exponent` that is not above the value. -/
def Binary.floorAt (b : Binary) (exponent : Int) : Nat :=
  b.significand * twoTo b.exponent.toNat * tenTo (-exponent).toNat /
    (tenTo exponent.toNat * twoTo (-b.exponent).toNat)

/-- Of two neighbouring points of a grid the one nearer to the value. -/
def Binary.nearer (b : Binary) (tie : Tie) (low : Scaled) : Scaled :=
  let high : Scaled := ⟨low.digits + 1, low.exponent⟩
  match compareScaled (2 * low.digits + 1) low.exponent (2 * b.significand) b.exponent, tie with
  | .lt, _ => high
  | .gt, _ => low
  | .eq, .up => high
  | .eq, .even => if low.digits % 2 = 0 then low else high

/-- The decimal on the grid `10 ^ exponent` that stands for the value, if there is one. -/
def Binary.onGrid? (b : Binary) (tie : Tie) (exponent : Int) : Option Scaled :=
  let low : Scaled := ⟨b.floorAt exponent, exponent⟩
  let high : Scaled := ⟨low.digits + 1, exponent⟩
  match b.readsBack low, b.readsBack high with
  | true, true => some (b.nearer tie low)
  | true, false => some low
  | false, true => some high
  | false, false => none

/-- The value itself, which every finite binary number is. -/
def Binary.exact (b : Binary) : Scaled :=
  if 0 ≤ b.exponent then ⟨b.significand * twoTo b.exponent.toNat, 0⟩
  else ⟨b.significand * Nat.pow 5 (-b.exponent).toNat, b.exponent⟩

/-- Moves up to `n` zeros from the end of the digits into the exponent. -/
def Scaled.strip (d : Scaled) : Nat → Scaled
  | 0 => d
  | n + 1 =>
    if d.digits % 10 = 0 then Scaled.strip ⟨d.digits / 10, d.exponent + 1⟩ n else d

/-- The fewest digits that read back to a value other than zero; seventeen are enough. -/
def Binary.shortest (b : Binary) (tie : Tie) : Scaled :=
  let leading := b.leading
  let found := (List.range 17).findSome? fun (n : Nat) => b.onGrid? tie (leading - (n : Int))
  let d := found.getD b.exact
  d.strip (Nat.log2 d.digits)

end CalcBasic.Decimal
