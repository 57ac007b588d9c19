/-!
# Binary values

A finite number of sixty-four bits is a significand times a power of two. `Binary.ofFloat?` reads the
two off the bits, and everything after that is arithmetic on whole numbers: which decimals stand
for the value, and whether it is a whole number.
-/

namespace CalcBasic.Decimal

/-- The power of two with exponent `n`. -/
def twoTo (n : Nat) : Nat := Nat.pow 2 n

/-- The power of ten with exponent `n`. -/
def tenTo (n : Nat) : Nat := Nat.pow 10 n

/-- A finite value: `significand * 2 ^ exponent`, negated when `negative`. -/
structure Binary where
  negative : Bool
  significand : Nat
  exponent : Int
  /-- The next value toward zero is only half as far away as the next value away from zero. -/
  narrowBelow : Bool
deriving DecidableEq, Repr

/-- The value with the given bits; infinities and NaN have none. -/
def Binary.ofBits? (bits : UInt64) : Option Binary :=
  let negative := bits >>> 63 == 1
  let exponent := ((bits >>> 52) &&& 0x7FF).toNat
  let fraction := (bits &&& 0xFFFFFFFFFFFFF).toNat
  if exponent = 0x7FF then none
  else if exponent = 0 then some ⟨negative, fraction, -1074, false⟩
  else
    -- The leading bit of a normal number is not stored.
    let leading := 0x10000000000000
    some ⟨negative, leading + fraction, (exponent : Int) - 1075, fraction = 0 && 1 < exponent⟩

/-- The value of a finite number. -/
def Binary.ofFloat? (x : Float) : Option Binary := Binary.ofBits? x.toBits

/-- The natural number that a value is, if it is one. -/
def Binary.toNat? (b : Binary) : Option Nat :=
  if b.significand = 0 then some 0
  else if b.negative then none
  else if 0 ≤ b.exponent then some (b.significand * twoTo b.exponent.toNat)
  else
    let unit := twoTo (-b.exponent).toNat
    if b.significand % unit = 0 then some (b.significand / unit) else none

/-- The natural number that `x` is, if it is one. -/
def natural? (x : Float) : Option Nat := (Binary.ofFloat? x).bind Binary.toNat?

end CalcBasic.Decimal
