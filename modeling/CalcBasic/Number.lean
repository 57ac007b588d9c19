import CalcBasic.Decimal.Layout

/-!
# Numbers in words

The calculator shows a number by the fewest digits that identify it. A shown number always has a
fraction or an exponent, so it cannot be mistaken for a count; a number that is quoted from a source
text is written out in full.
-/

namespace CalcBasic.Number

/-- A shown number: positional from `10 ^ -4` up to below `10 ^ 16`, with the fraction `.0` when it
is whole. -/
def shown : Decimal.Layout where
  positional := some (-4, 16)
  wholeFraction := true
  exponentPlus := false
  tie := .up

/-- A quoted number: always positional, and without a fraction when it is whole. -/
def plain : Decimal.Layout where
  positional := none
  wholeFraction := false
  exponentPlus := false
  tie := .up

/-- The text of a shown number. -/
def text (x : Float) : String := shown.write x

end CalcBasic.Number
