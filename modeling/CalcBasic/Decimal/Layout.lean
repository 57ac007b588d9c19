import CalcBasic.Decimal.Shortest

/-!
# The layout of numbers

A layout says how the digits of a number are set: which numbers are written positionally, whether a
whole number shows its fraction `.0`, the sign of exponents, and which way an exact tie goes. One number text is made of a
sign, the digits and, outside the positional range, an exponent.
-/

namespace CalcBasic.Decimal

/-- The decisions of one number format. -/
structure Layout where
  /-- Exponents of the leading digit that are written positionally, from the first to below the
  second; every number is, when there is no range. -/
  positional : Option (Int × Int)
  /-- A positional whole number ends in `.0`. -/
  wholeFraction : Bool
  /-- An exponent that is not negative has a plus sign. -/
  exponentPlus : Bool
  /-- Which of two equally near shortest decimals is written. -/
  tie : Tie
deriving DecidableEq, Repr

/-- Whether a number whose leading digit has the exponent `e` is written positionally. -/
def Layout.isPositional (l : Layout) (e : Int) : Bool :=
  match l.positional with
  | none => true
  | some (first, last) => first ≤ e && e < last

/-- `n` zeros. -/
def zeros (n : Nat) : List Char := List.replicate n '0'

/-- The digits of a decimal with the point where it belongs. -/
def Layout.setPositional (l : Layout) (digits : List Char) (exponent : Int) : List Char :=
  let point := (digits.length : Int) + exponent
  if 0 ≤ exponent then
    digits ++ zeros exponent.toNat ++ (if l.wholeFraction then ['.', '0'] else [])
  else if 0 < point then digits.take point.toNat ++ '.' :: digits.drop point.toNat
  else '0' :: '.' :: zeros (-point).toNat ++ digits

/-- The digits of a decimal with one digit before the point and the exponent after them. -/
def Layout.setScientific (l : Layout) (digits : List Char) (leading : Int) : List Char :=
  let tail := digits.drop 1
  let sign := if l.exponentPlus && 0 ≤ leading then ['+'] else []
  digits.take 1 ++ (if tail.isEmpty then [] else '.' :: tail) ++ 'e' :: sign ++
    (toString leading).toList

/-- The text of a decimal. -/
def Layout.set (l : Layout) (d : Scaled) : List Char :=
  let digits := Nat.toDigits 10 d.digits
  let leading := (digits.length : Int) + d.exponent - 1
  if l.isPositional leading then l.setPositional digits d.exponent
  else l.setScientific digits leading

/-- The text of a number. -/
def Layout.write (l : Layout) (x : Float) : String :=
  match Binary.ofFloat? x with
  | none => if x == x then (if x < 0 then "-inf" else "inf") else "NaN"
  | some b =>
    let text := if b.significand = 0 then l.set ⟨0, 0⟩ else l.set (b.shortest l.tie)
    String.ofList (if b.negative then '-' :: text else text)

end CalcBasic.Decimal
